import LiveTemplate.Proofs.Instances

/-! The places of regions in a document that follows a blueprint: each region is found between the
slots around it, regions share no nodes, and no fixed node lies in a region. -/

namespace LiveTemplate

theorem Document.fill_among {document : Document} {span : Span} {before between nodes after : List NodeId}
    (wellFormed : document.WellFormed) (bound : document.Has span.parent)
    (cuts : span.Cuts (document.children span.parent) before between after)
    (kind : ∀ id ∈ nodes, document.kind id ≠ .fragment) (unique : nodes.Nodup)
    (origin : ∀ id ∈ nodes, id ∈ between ∨
      document.parent? id ≠ some span.parent ∧ ¬ document.IsAbove id span.parent) :
    document.Regrouped span.parent (before ++ nodes ++ after) (document.fill span nodes) := by
  have childrenUnique := wellFormed.unique span.parent
  have old (id : NodeId) (member : id ∈ before ++ between ++ after) :
      id ∈ document.children span.parent := by
    rwa [cuts.split]
  rw [cuts.split, List.append_assoc, List.nodup_append', List.nodup_append'] at childrenUnique
  obtain ⟨_, ⟨_, _, apartRight⟩, apartLeft⟩ := childrenUnique
  have apart (id : NodeId) (member : id ∈ nodes) : id ∉ before ∧ id ∉ after := by
    rcases origin id member with inside | ⟨outside, _⟩
    · exact ⟨fun left => apartLeft left (by simp [inside]), apartRight inside⟩
    · have unlisted : id ∉ document.children span.parent :=
        fun inside => outside ((wellFormed.linked _ id).mp inside)
      exact ⟨fun left => unlisted (old id (by simp [left])),
        fun right => unlisted (old id (by simp [right]))⟩
  have notAbove : ∀ id ∈ nodes, ¬ document.IsAbove id span.parent := by
    intro id member
    rcases origin id member with inside | ⟨_, below⟩
    · exact wellFormed.not_isAbove_of_child (old id (by simp [inside]))
    · exact below
  have adoptable : document.Adoptable span.parent nodes :=
    ⟨unique, fun id member => has_of_kind (kind id member), kind, notAbove⟩
  have notNext (id : NodeId) (next : span.next? = some id) : id ∉ nodes := by
    rw [← cuts.next] at next
    exact fun inside => (apart id inside).2 (List.mem_of_head? next)
  have keepBefore : before.filter (fun id => id ∉ nodes) = before :=
    List.filter_eq_self.mpr fun id member => decide_eq_true fun inside => (apart id inside).1 member
  have keepAfter : after.filter (fun id => id ∉ nodes) = after :=
    List.filter_eq_self.mpr fun id member => decide_eq_true fun inside => (apart id inside).2 member
  have regrouped := regrouped_fill wellFormed bound cuts adoptable notNext
  rwa [keepBefore, keepAfter] at regrouped

theorem Document.fill_exchange {document : Document} {span : Span}
    {before front content nodes back after : List NodeId} (wellFormed : document.WellFormed)
    (bound : document.Has span.parent)
    (cuts : span.Cuts (document.children span.parent) before (front ++ content ++ back) after)
    (kind : ∀ id ∈ front ++ nodes ++ back, document.kind id ≠ .fragment)
    (fresh : nodes = content ∨ nodes.Nodup ∧ ∀ id ∈ nodes,
      document.parent? id ≠ some span.parent ∧ ¬ document.IsAbove id span.parent) :
    document.Regrouped span.parent (before ++ (front ++ nodes ++ back) ++ after)
      (document.fill span (front ++ nodes ++ back)) := by
  have childrenUnique := wellFormed.unique span.parent
  rw [cuts.split] at childrenUnique
  have insideUnique := (List.nodup_append'.mp (List.nodup_append'.mp childrenUnique).1).2.1
  refine fill_among wellFormed bound cuts kind ?_ ?_
  · rcases fresh with rfl | ⟨nodesUnique, fresh⟩
    · exact insideUnique
    · refine nodup_exchange insideUnique nodesUnique fun id member => ?_
      have outside : id ∉ document.children span.parent :=
        fun inside => (fresh id member).1 ((wellFormed.linked _ id).mp inside)
      rw [cuts.split] at outside
      exact ⟨fun left => outside (by simp [left]), fun right => outside (by simp [right])⟩
  · intro id member
    simp only [List.mem_append] at member ⊢
    rcases member with (left | inside) | right
    · exact Or.inl (Or.inl (Or.inl left))
    · rcases fresh with rfl | ⟨_, fresh⟩
      · exact Or.inl (Or.inl (Or.inr inside))
      · exact Or.inr (fresh id inside)
    · exact Or.inl (Or.inr right)

namespace Scene

section
variable {scene : Scene} {index number : Nat} {content nodes before after : List NodeId}
  {nested? : Option Nested} {write : Write} {document : Document} {region : Region} {span : Span}

/-- Nodes prepared by a write that brings none along were shown before, or are new and stand
nowhere near any parent. -/
theorem Prepares.apart (prepared : scene.Prepares number content write document nodes)
    (nothing : write.nodes = []) (wellFormed : scene.document.WellFormed) {parent : NodeId}
    (bound : scene.document.Has parent) :
    nodes = content ∨ nodes.Nodup ∧ ∀ id ∈ nodes, ¬ scene.document.Has id ∧
      document.parent? id ≠ some parent ∧ ¬ document.IsAbove id parent := by
  have none (id : NodeId) : id ∉ write.nodes := by
    rw [nothing]
    exact List.not_mem_nil
  refine (prepared.eq_or_new wellFormed (nothing ▸ List.nodup_nil)
    fun id member => (none id member).elim).imp_right ?_
  rintro ⟨unique, origin⟩
  refine ⟨unique, fun id member => ?_⟩
  have new := (origin id member).resolve_left (none id)
  refine ⟨new, ?_, ?_⟩
  · intro linked
    rw [← (prepared.wellFormed wellFormed).linked, prepared.links.children_eq parent bound] at linked
    exact new (wellFormed.has_child linked)
  · intro above
    rw [prepared.links.isAbove_iff wellFormed bound] at above
    exact new (wellFormed.has_of_isAbove above bound)

variable (sound : scene.Sound)
  (target : scene.graph.parts[index]?.map Part.target = some (.nodes number content nested?))
  (prepared : scene.Prepares number content write document nodes)
  (found : scene.graph.regions[number]? = some region)
  (placed : region.place? scene.document = some span)

include sound target prepared found placed

/-- A region that was in place before one of its parts was written is filled there. -/
theorem reconcileRegion_of_place :
    let graph := scene.graph.setTarget index (.nodes number nodes nested?)
    reconcileRegion ⟨document, graph⟩ number = ⟨document.fill span (graph.nodesOf region),
        graph.setRegion number (region.settle span (graph.nodesOf region))⟩ ∧
      ∀ id ∈ graph.nodesOf region, document.kind id ≠ .fragment := by
  intro graph
  have next : Sound ⟨document, graph⟩ := sound.of_prepares target prepared
  have foundNow : (⟨document, graph⟩ : Scene).graph.regions[number]? = some region := found
  refine ⟨?_, next.shown foundNow⟩
  rw [reconcileRegion_eq _ foundNow, Region.place?_keepsLinks prepared.links sound.wellFormed
    next.wellFormed (sound.known found), placed]

/-- It then has the siblings that it had before, around what its parts show now. -/
theorem regrouped_of_place
    (cuts : span.Cuts (scene.document.children span.parent) before (scene.graph.nodesOf region) after)
    (fresh : nodes = content ∨ nodes.Nodup ∧ ∀ id ∈ nodes,
      document.parent? id ≠ some span.parent ∧ ¬ document.IsAbove id span.parent) :
    let graph := scene.graph.setTarget index (.nodes number nodes nested?)
    document.Regrouped span.parent (before ++ graph.nodesOf region ++ after)
      (reconcileRegion ⟨document, graph⟩ number).document := by
  intro graph
  have bound := (Region.exists_cuts_of_place? sound.wellFormed (sound.known found) placed).1
  obtain ⟨reconciled, kind⟩ := reconcileRegion_of_place sound target prepared found placed
  obtain ⟨front, back, shown, changed⟩ := sound.linked.exists_split target found
  have nodesEq : graph.nodesOf region = front ++ nodes ++ back := changed nodes
  rw [← prepared.links.children_eq _ bound, shown] at cuts
  rw [reconciled, nodesEq]
  exact Document.fill_exchange (prepared.wellFormed sound.wellFormed) (prepared.links.has bound) cuts
    (nodesEq ▸ kind) fresh

end

variable {scene : Scene} {rows : List Row} {row other : Row} {index number : Nat} {source : Source}
  {before after : List Slot} {region : Region} {id : NodeId}

theorem Planned.exists_row (planned : scene.Planned rows)
    (found : scene.graph.regions[index]? = some region) :
    ∃ row ∈ rows, ∃ before source after, row.slots = before ++ .region index source :: after ∧
      (∀ other ∈ rows, index ∈ other.regions → other = row) ∧
      index ∉ (before ++ after).flatMap Slot.regions := by
  have bound : index < scene.graph.regions.size := (Array.getElem?_eq_some_iff.mp found).1
  have count := planned.counts index
  rw [if_pos ⟨Nat.zero_le _, bound⟩] at count
  have member : index ∈ rows.flatMap Row.regions := List.count_pos_iff.mp (by omega)
  obtain ⟨row, rowMember, inRow⟩ := List.mem_flatMap.mp member
  obtain ⟨slot, slotMember, inSlot⟩ := List.mem_flatMap.mp inRow
  rcases slot with ⟨id, content⟩ | ⟨shown, source⟩
  · simp [Slot.regions] at inSlot
  · obtain rfl := List.mem_singleton.mp inSlot
    obtain ⟨before, after, split⟩ := List.append_of_mem slotMember
    obtain ⟨front, back, rowsEq⟩ := List.append_of_mem rowMember
    have parts : (front.flatMap Row.regions).count index + (before.flatMap Slot.regions).count index +
        (after.flatMap Slot.regions).count index + (back.flatMap Row.regions).count index = 0 := by
      rw [rowsEq, List.flatMap_append, List.flatMap_cons, List.count_append, List.count_append,
        Row.regions, split, List.flatMap_append, List.flatMap_cons, List.count_append,
        List.count_append, Slot.regions, List.count_singleton_self] at count
      omega
    have absent {regions : List Nat} (zero : regions.count index = 0) : index ∉ regions :=
      List.count_eq_zero.mp zero
    refine ⟨row, rowMember, before, source, after, split, ?_, ?_⟩
    · intro other otherMember inOther
      rw [rowsEq] at otherMember
      rcases List.mem_append.mp otherMember with left | right
      · exact (absent (by omega) (List.mem_flatMap.mpr ⟨other, left, inOther⟩)).elim
      · rcases List.mem_cons.mp right with same | right
        · exact same
        · exact (absent (by omega) (List.mem_flatMap.mpr ⟨other, right, inOther⟩)).elim
    · rw [List.flatMap_append, List.mem_append]
      exact not_or.mpr ⟨absent (by omega), absent (by omega)⟩

theorem slotNodes_region (found : scene.graph.regions[index]? = some region) (source : Source) :
    scene.graph.slotNodes (.region index source) = scene.graph.nodesOf region := by
  rw [PartGraph.slotNodes, found]
  rfl

theorem Planned.children_split (planned : scene.Planned rows) (member : row ∈ rows)
    (split : row.slots = before ++ .region index source :: after)
    (found : scene.graph.regions[index]? = some region) :
    scene.document.children row.home =
      scene.graph.expand before ++ scene.graph.nodesOf region ++ scene.graph.expand after := by
  rw [planned.laid row member, split, PartGraph.expand_append, PartGraph.expand_cons,
    slotNodes_region found, List.append_assoc]

theorem Planned.row_eq (planned : scene.Planned rows) (member : row ∈ rows) (otherMember : other ∈ rows)
    (same : row.home = other.home) : row = other :=
  List.inj_on_of_nodup_map planned.homes member otherMember same

theorem Planned.parent?_of_slot (planned : scene.Planned rows) (wellFormed : scene.document.WellFormed)
    (member : row ∈ rows) {slot : Slot} (slotMember : slot ∈ row.slots)
    (shown : id ∈ scene.graph.slotNodes slot) : scene.document.parent? id = some row.home := by
  rw [← wellFormed.linked, planned.laid row member]
  exact PartGraph.mem_expand.mpr ⟨slot, slotMember, shown⟩

theorem Planned.parent?_of_shown (planned : scene.Planned rows) (wellFormed : scene.document.WellFormed)
    (member : row ∈ rows) (split : row.slots = before ++ .region index source :: after)
    (found : scene.graph.regions[index]? = some region) (shown : id ∈ scene.graph.nodesOf region) :
    scene.document.parent? id = some row.home := by
  have listed : .region index source ∈ row.slots := by simp [split]
  refine planned.parent?_of_slot wellFormed member listed ?_
  rwa [slotNodes_region found]

theorem Planned.not_shown_twice (planned : scene.Planned rows)
    (wellFormed : scene.document.WellFormed) (member : row ∈ rows)
    (split : row.slots = before ++ .region index source :: after)
    (found : scene.graph.regions[index]? = some region) (otherMember : other ∈ rows) {slot : Slot}
    (slotMember : slot ∈ other.slots) (apart : slot ≠ .region index source)
    (shown : id ∈ scene.graph.slotNodes slot) : id ∉ scene.graph.nodesOf region := by
  intro inside
  have parent := planned.parent?_of_slot wellFormed otherMember slotMember shown
  rw [planned.parent?_of_shown wellFormed member split found inside, Option.some.injEq] at parent
  obtain rfl := planned.row_eq member otherMember parent
  have unique := wellFormed.unique row.home
  rw [planned.children_split member split found, List.append_assoc, List.nodup_append',
    List.nodup_append'] at unique
  obtain ⟨_, ⟨_, _, apartAfter⟩, apartBefore⟩ := unique
  rw [split, List.mem_append, List.mem_cons] at slotMember
  rcases slotMember with left | same | right
  · exact apartBefore (PartGraph.mem_expand.mpr ⟨slot, left, shown⟩) (by simp [inside])
  · exact apart same
  · exact apartAfter inside (PartGraph.mem_expand.mpr ⟨slot, right, shown⟩)

theorem Planned.not_shown_of_fixed (planned : scene.Planned rows)
    (wellFormed : scene.document.WellFormed) (found : scene.graph.regions[index]? = some region)
    (member : row ∈ rows) {content : Content} (fixed : .node id content ∈ row.slots) :
    id ∉ scene.graph.nodesOf region := by
  obtain ⟨seat, seatMember, before, source, after, split, _, _⟩ := planned.exists_row found
  exact planned.not_shown_twice wellFormed seatMember split found member fixed (by simp)
    (by simp [PartGraph.slotNodes])

theorem Planned.not_shown_of_other (planned : scene.Planned rows)
    (wellFormed : scene.document.WellFormed) {another : Region}
    (found : scene.graph.regions[index]? = some region)
    (otherFound : scene.graph.regions[number]? = some another) (differ : number ≠ index)
    (shown : id ∈ scene.graph.nodesOf another) : id ∉ scene.graph.nodesOf region := by
  obtain ⟨row, member, before, source, after, split, _, _⟩ := planned.exists_row found
  obtain ⟨other, otherMember, front, otherSource, back, otherSplit, _, _⟩ :=
    planned.exists_row otherFound
  have listed : .region number otherSource ∈ other.slots := by simp [otherSplit]
  refine planned.not_shown_twice wellFormed member split found otherMember listed (by simp [differ]) ?_
  rwa [slotNodes_region otherFound]

theorem Planned.not_shown_of_piece {part : Nat} {content : List NodeId} {nested? : Option Nested}
    (planned : scene.Planned rows) (sound : scene.Sound)
    (target : scene.graph.parts[part]?.map Part.target = some (.nodes number content nested?))
    (found : scene.graph.regions[index]? = some region) {piece : Piece NodeId}
    (inGroup : piece ∈ region.group) (other : piece ≠ .part part)
    (shown : id ∈ scene.graph.pieceNodes piece) : id ∉ content := by
  obtain ⟨own, ownFound, _⟩ := sound.linked.part target
  obtain ⟨front, back, split, changed⟩ := sound.linked.exists_split target ownFound
  by_cases same : index = number
  · subst same
    cases found.symm.trans ownFound
    have around : id ∈ front ++ [] ++ back := by
      rw [← changed []]
      refine List.mem_flatMap.mpr ⟨piece, inGroup, ?_⟩
      cases piece with
      | literal node => exact shown
      | part another =>
          rw [PartGraph.pieceNodes, PartGraph.contentOf_setTarget target, if_neg]
          · exact shown
          · rintro rfl
            exact other rfl
    obtain ⟨row, member, before, source, after, rowSplit, _, _⟩ := planned.exists_row found
    have unique := sound.wellFormed.unique row.home
    rw [planned.children_split member rowSplit found, split] at unique
    have ownUnique := (List.nodup_append'.mp (List.nodup_append'.mp unique).1).2.1
    intro inside
    rw [List.append_nil, List.mem_append] at around
    rcases around with left | right
    · exact (List.nodup_append'.mp (List.nodup_append'.mp ownUnique).1).2.2 left inside
    · exact (List.nodup_append'.mp ownUnique).2.2 (List.mem_append_right _ inside) right
  · intro inside
    have shownHere : id ∈ scene.graph.nodesOf region := List.mem_flatMap.mpr ⟨piece, inGroup, shown⟩
    refine planned.not_shown_of_other sound.wellFormed ownFound found same shownHere ?_
    rw [split]
    simp [inside]

section
variable {part : Nat} {content : List NodeId} {nested? : Option Nested}
  (planned : scene.Planned rows) (sound : scene.Sound)
  (target : scene.graph.parts[part]?.map Part.target = some (.nodes number content nested?))

include planned sound target

theorem Planned.not_shown_of_literal (found : scene.graph.regions[index]? = some region)
    (literal : .literal id ∈ region.group) : id ∉ content :=
  planned.not_shown_of_piece sound target found literal (by simp) (List.mem_singleton_self id)

theorem Planned.not_shown_of_part {another : Nat} {shown : List NodeId}
    {otherNested? : Option Nested} (otherTarget : scene.graph.parts[another]?.map Part.target =
      some (.nodes index shown otherNested?)) (differ : another ≠ part) (inside : id ∈ shown) :
    id ∉ content := by
  obtain ⟨_, found, piece⟩ := sound.linked.part otherTarget
  refine planned.not_shown_of_piece sound target found piece (by simp [differ]) ?_
  rwa [PartGraph.pieceNodes, PartGraph.contentOf_of_target otherTarget]

theorem Planned.not_shown_of_slot (member : row ∈ rows) {fixed : Content}
    (slot : .node id fixed ∈ row.slots) : id ∉ content := by
  obtain ⟨_, found, _⟩ := sound.linked.part target
  obtain ⟨front, back, split, _⟩ := sound.linked.exists_split target found
  have apart := planned.not_shown_of_fixed sound.wellFormed found member slot
  rw [split] at apart
  exact fun inside => apart (by simp [inside])

end

/-- The anchors of a region that shares its parent are fixed nodes of its row. -/
theorem Planned.exists_fixed (planned : scene.Planned rows)
    (found : scene.graph.regions[index]? = some region) (shared : region.owning = false)
    (anchor : region.previous? = some id ∨ region.next? = some id) :
    ∃ row ∈ rows, ∃ content, .node id content ∈ row.slots := by
  obtain ⟨row, member, before, source, after, split, _, _⟩ := planned.exists_row found
  have framed := planned.framed row member
  rw [split] at framed
  obtain ⟨known, knownFound, fits⟩ := framed.fits
  cases found.symm.trans knownFound
  rw [Option.or_none, Option.or_none] at fits
  refine ⟨row, member, ?_⟩
  rcases anchor with previous | next
  · obtain ⟨content, last⟩ := (previous ▸ fits.previous shared).exists_node
    exact ⟨content, by simp [split, List.mem_of_getLast? last]⟩
  · obtain ⟨content, first⟩ := (next ▸ fits.next shared).exists_node
    exact ⟨content, by simp [split, List.mem_of_head? first]⟩

/-- A region that records no parent lies between empty texts in the fragment. -/
theorem Planned.exists_outer (planned : scene.Planned rows)
    (found : scene.graph.regions[index]? = some region) (free : region.parent? = none) :
    region.owning = false ∧ ∃ row ∈ rows, row.home = scene.graph.fragment ∧ ∃ previous next,
      region.previous? = some previous ∧ region.next? = some next ∧
      .node previous (.text "") ∈ row.slots ∧ .node next (.text "") ∈ row.slots := by
  obtain ⟨row, member, before, source, after, split, _, _⟩ := planned.exists_row found
  have framed := planned.framed row member
  rw [split] at framed
  obtain ⟨known, knownFound, fits⟩ := framed.fits
  cases found.symm.trans knownFound
  rw [Option.or_none, Option.or_none] at fits
  have noParent : row.parent? = none := fits.parent.symm.trans free
  have shared : region.owning = false := by
    by_contra owning
    have recorded := (fits.alone (by simpa using owning)).1
    rw [noParent] at recorded
    cases recorded
  have atFragment : row.home = scene.graph.fragment := by
    rcases planned.recorded row member with below | outer
    · rw [noParent] at below
      cases below
    · exact outer.2
  obtain ⟨⟨left, leftEq⟩, right, rightEq⟩ := fits.outer noParent
  have previous := fits.previous shared
  have next := fits.next shared
  rw [leftEq] at previous
  rw [rightEq] at next
  refine ⟨shared, row, member, atFragment, left, right, previous.eq_some, next.eq_some, ?_, ?_⟩
  · simp [split, List.mem_of_getLast? leftEq]
  · simp [split, List.mem_of_head? rightEq]

theorem span?_of_parents {document : Document} {parent : NodeId} {span : Span}
    (known : region.parents document ≠ []) (same : ∀ other ∈ region.parents document, other = parent)
    (found : region.spanUnder? document parent = some span) : region.span? document = some span := by
  rw [Region.span?]
  cases parents : region.parents document with
  | nil => exact (known parents).elim
  | cons first rest =>
      have firstEq := same first (by simp [parents])
      rw [List.findSome?_cons, firstEq, found]

theorem linked_of_cuts {document : Document} (wellFormed : document.WellFormed) {span : Span}
    {front between back : List NodeId}
    (cuts : span.Cuts (document.children span.parent) front between back) :
    (∀ id, span.previous? = some id → document.parent? id = some span.parent) ∧
      ∀ id, span.next? = some id → document.parent? id = some span.parent := by
  constructor
  · intro id previous
    rw [← wellFormed.linked, cuts.split]
    simp [List.mem_of_getLast? (cuts.previous.trans previous)]
  · intro id next
    rw [← wellFormed.linked, cuts.split]
    simp [List.mem_of_head? (cuts.next.trans next)]

theorem isOrdered_of_cuts {document : Document} (wellFormed : document.WellFormed) {span : Span}
    {front between back : List NodeId}
    (cuts : span.Cuts (document.children span.parent) front between back) :
    span.isOrdered document = true := by
  obtain ⟨previousLinked, nextLinked⟩ := linked_of_cuts wellFormed cuts
  have unique := wellFormed.unique span.parent
  rw [cuts.split] at unique
  cases previous : span.previous? with
  | none => rw [Span.isOrdered, previous]
  | some first =>
      cases next : span.next? with
      | none => rw [Span.isOrdered, previous, next]
      | some second =>
          rw [Region.isOrdered_iff_of_linked wellFormed previous next (previousLinked first previous)
            (nextLinked second next), cuts.split]
          have firstMember : first ∈ front := List.mem_of_getLast? (cuts.previous.trans previous)
          have secondMember : second ∈ back := List.mem_of_head? (cuts.next.trans next)
          have secondFresh : second ∉ front ++ between :=
            fun inside => (List.nodup_append'.mp unique).2.2 inside secondMember
          rw [List.append_assoc, List.idxOf_append_of_mem firstMember, ← List.append_assoc,
            List.idxOf_append_of_notMem secondFresh, List.length_append]
          have place := List.idxOf_lt_length_of_mem firstMember
          omega

theorem stays_of_linked {document : Document} {parent : NodeId} {anchor? : Option NodeId}
    (linked : ∀ id, anchor? = some id → document.parent? id = some parent) :
    anchor?.all (document.isChild · parent) = true := by
  cases anchor? with
  | none => rfl
  | some id => exact (document.isChild_iff id parent).mpr (linked id rfl)

theorem spanUnder?_of_cuts {document : Document} (wellFormed : document.WellFormed) {parent : NodeId}
    {front between back : List NodeId}
    (cuts : Span.Cuts ⟨parent, region.previous?, region.next?⟩ (document.children parent) front between
      back) : region.spanUnder? document parent = some ⟨parent, region.previous?, region.next?⟩ := by
  obtain ⟨previousLinked, nextLinked⟩ :=
    @linked_of_cuts _ wellFormed ⟨parent, region.previous?, region.next?⟩ _ _ _ cuts
  rw [Region.spanUnder?_eq, Region.candidate?, stays_of_linked previousLinked,
    stays_of_linked nextLinked, Option.filter_eq_some_iff]
  exact ⟨rfl, @isOrdered_of_cuts _ wellFormed ⟨parent, region.previous?, region.next?⟩ _ _ _ cuts⟩

/-- A region that shows what is between its anchors is found there, if it records the parent or has
an anchor by which the parent is known. -/
theorem span?_of_cuts {document : Document} (wellFormed : document.WellFormed) {parent : NodeId}
    {front back : List NodeId}
    (cuts : Span.Cuts ⟨parent, region.previous?, region.next?⟩ (document.children parent) front
      region.rendered back)
    (recorded : region.parent? = some parent ∨ region.parent? = none ∧ region.next?.isSome = true) :
    region.span? document = some ⟨parent, region.previous?, region.next?⟩ := by
  have under := spanUnder?_of_cuts wellFormed cuts
  have inPlace (id : NodeId) (inside : id ∈ region.rendered ++ region.next?.toList ++
      region.previous?.toList) : document.parent? id = some parent := by
    rw [← wellFormed.linked, cuts.split]
    simp only [List.mem_append, Option.mem_toList] at inside
    rcases inside with (shown | next) | previous
    · simp [shown]
    · simp [List.mem_of_head? (cuts.next.trans next)]
    · simp [List.mem_of_getLast? (cuts.previous.trans previous)]
  rcases recorded with inner | ⟨outer, known⟩
  · refine span?_of_parents ?_ ?_ under
    · simp [Region.parents, inner]
    · simp [Region.parents, inner]
  · obtain ⟨next, nextEq⟩ := Option.isSome_iff_exists.mp known
    refine span?_of_parents (List.ne_nil_of_mem (a := parent) ?_) ?_ under
    · rw [Region.parents, outer]
      exact List.mem_filterMap.mpr ⟨next, by simp [nextEq], inPlace next (by simp [nextEq])⟩
    · intro other listed
      rw [Region.parents, outer] at listed
      obtain ⟨id, inside, linked⟩ := List.mem_filterMap.mp listed
      exact Option.some.inj (linked.symm.trans (inPlace id inside))

/-- A region is in place wherever a document has the children of its row, perhaps beside others: what
it shows stands between its own anchors, or is all of its parent. -/
theorem Planned.exists_place_beside (planned : scene.Planned rows) {document : Document}
    (wellFormed : document.WellFormed) (member : row ∈ rows)
    (split : row.slots = before ++ .region index source :: after)
    (found : scene.graph.regions[index]? = some region)
    (rendered : region.rendered = scene.graph.nodesOf region) {parent : NodeId}
    {lead trail : List NodeId}
    (children : document.children parent = lead ++ scene.document.children row.home ++ trail)
    (inner : row.parent? = some row.home → parent = row.home ∧ lead = [] ∧ trail = []) :
    ∃ span : Span, region.place? document = some span ∧ span.parent = parent ∧
      span.Cuts (document.children parent) (lead ++ scene.graph.expand before)
        (scene.graph.nodesOf region) (scene.graph.expand after ++ trail) ∧
      (∀ nodes, region.settle span nodes = { region with rendered := nodes, detached := false }) ∧
      (region.owning = false →
        region.span? document = some ⟨parent, region.previous?, region.next?⟩) ∧
      (region.owning = true → region.parent? = some row.home ∧ before = [] ∧ after = []) := by
  have framed := planned.framed row member
  rw [split] at framed
  obtain ⟨known, knownFound, fits⟩ := framed.fits
  cases found.symm.trans knownFound
  rw [Option.or_none, Option.or_none] at fits
  rw [planned.children_split member split found] at children
  cases owning : region.owning with
  | true =>
      obtain ⟨recorded, noLeft, noRight⟩ := fits.alone owning
      have below : row.parent? = some row.home := by
        refine (planned.recorded row member).resolve_right fun outer => ?_
        rw [outer.1] at recorded
        cases recorded
      obtain ⟨rfl, rfl, rfl⟩ := inner below
      have parentEq := fits.parent.trans below
      rw [List.getLast?_eq_none_iff.mp noLeft, List.head?_eq_none_iff.mp noRight] at children ⊢
      refine ⟨⟨row.home, none, none⟩, ?_, rfl, ⟨by simpa using children, rfl, rfl⟩, ?_, by rintro ⟨⟩,
        fun _ => ⟨parentEq, rfl, rfl⟩⟩
      · rw [Region.place?, owning, parentEq]
        rfl
      · intro nodes
        rw [Region.settle, owning]
        rfl
  | false =>
      have previous : (scene.graph.expand before).getLast? = region.previous? :=
        PartGraph.getLast?_expand (fits.previous owning)
      have next : (scene.graph.expand after).head? = region.next? :=
        PartGraph.head?_expand (fits.next owning)
      -- Where nothing records the parent, a region stands between empty texts and has both anchors.
      have anchored : (lead ++ scene.graph.expand before).getLast? = region.previous? ∧
          (scene.graph.expand after ++ trail).head? = region.next? ∧
          (region.parent? = some parent ∨ region.parent? = none ∧ region.next?.isSome = true) := by
        rcases planned.recorded row member with below | ⟨outer, _⟩
        · obtain ⟨rfl, rfl, rfl⟩ := inner below
          rw [List.nil_append, List.append_nil]
          exact ⟨previous, next, Or.inl (fits.parent.trans below)⟩
        · obtain ⟨⟨left, leftEq⟩, right, rightEq⟩ := fits.outer outer
          have first := fits.previous owning
          have second := fits.next owning
          rw [leftEq] at first
          rw [rightEq] at second
          rw [List.getLast?_append, List.head?_append, previous, next, first.eq_some, second.eq_some]
          exact ⟨rfl, rfl, Or.inr ⟨fits.parent.trans outer, rfl⟩⟩
      obtain ⟨last, head, recorded⟩ := anchored
      have cuts : Span.Cuts ⟨parent, region.previous?, region.next?⟩ (document.children parent)
          (lead ++ scene.graph.expand before) (scene.graph.nodesOf region)
          (scene.graph.expand after ++ trail) :=
        ⟨by rw [children]; simp only [List.append_assoc], last, head⟩
      have spanFound := span?_of_cuts wellFormed (rendered.symm ▸ cuts) recorded
      refine ⟨_, ?_, rfl, cuts, ?_, fun _ => spanFound, by rintro ⟨⟩⟩
      · rw [Region.place?, owning]
        exact spanFound
      · intro nodes
        rw [Region.settle, owning]
        rfl

theorem Planned.exists_place (planned : scene.Planned rows) (sound : scene.Sound) (member : row ∈ rows)
    (split : row.slots = before ++ .region index source :: after)
    (found : scene.graph.regions[index]? = some region)
    (rendered : region.rendered = scene.graph.nodesOf region) :
    ∃ span : Span, region.place? scene.document = some span ∧ span.parent = row.home ∧
      span.Cuts (scene.document.children row.home) (scene.graph.expand before)
        (scene.graph.nodesOf region) (scene.graph.expand after) ∧
      (∀ nodes, region.settle span nodes = { region with rendered := nodes, detached := false }) ∧
      (region.owning = false →
        region.span? scene.document = some ⟨row.home, region.previous?, region.next?⟩) ∧
      (region.owning = true → region.parent? = some row.home ∧ before = [] ∧ after = []) := by
  have children : scene.document.children row.home = [] ++ scene.document.children row.home ++ [] :=
    (List.append_nil _).symm
  have place := planned.exists_place_beside sound.wellFormed member split found rendered children
    fun _ => ⟨rfl, rfl, rfl⟩
  rwa [List.append_nil, List.nil_append] at place

end Scene

end LiveTemplate
