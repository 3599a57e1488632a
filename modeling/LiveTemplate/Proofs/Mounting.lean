import LiveTemplate.Proofs.Engines

/-! Mounted instances: once the children of an instance's fragment were moved among those of another
node, every update does there what it would have done to them in the fragment. -/

namespace LiveTemplate

namespace Document

structure Mounted (free moved : Document) (fragment parent : NodeId) (lead trail : List NodeId) :
    Prop where
  size : moved.size = free.size
  content : ∀ id, moved.content id = free.content id
  apart : fragment ≠ parent
  around : free.children parent = lead ++ trail
  shown : moved.children parent = lead ++ free.children fragment ++ trail
  empty : moved.children fragment = []
  elsewhere : ∀ id, id ≠ parent → id ≠ fragment → moved.children id = free.children id

def host (fragment parent home : NodeId) : NodeId :=
  if home = fragment then parent else home

def beside (fragment home : NodeId) (siblings : List NodeId) : List NodeId :=
  if home = fragment then siblings else []

section
variable {document : Document} {fragment parent : NodeId}

theorem exists_mounted (wellFormed : document.WellFormed) (isFragment : document.kind fragment = .fragment)
    (bound : document.Has fragment) (parentBound : document.Has parent)
    (outside : ¬ document.IsAbove fragment parent) {reference? : Option NodeId}
    (known : ∀ reference, reference? = some reference → reference ∈ document.children parent) :
    ∃ lead trail, document.children parent = lead ++ trail ∧ trail.head? = reference? ∧
      document.Mounted (document.insertBefore parent fragment reference?) fragment parent lead trail := by
  obtain ⟨lead, trail, split, head⟩ : ∃ lead trail, document.children parent = lead ++ trail ∧
      trail.head? = reference? := by
    cases reference? with
    | none => exact ⟨document.children parent, [], by simp, rfl⟩
    | some reference =>
        obtain ⟨lead, rest, split⟩ := List.append_of_mem (known reference rfl)
        exact ⟨lead, reference :: rest, split, rfl⟩
  have apart : fragment ≠ parent := by
    rintro rfl
    exact outside Relation.ReflTransGen.refl
  have regrouped := insertBefore_regrouped wellFormed parentBound bound outside reference?
  have unique := wellFormed.unique parent
  rw [split] at unique
  rw [carried, if_pos isFragment, split, ← head, place_split unique, head] at regrouped
  have stays (siblings : List NodeId) (inside : ∀ id ∈ siblings, id ∈ document.children parent) :
      siblings.filter (fun id => !(document.children fragment).contains id) = siblings := by
    apply List.filter_eq_self.mpr
    intro id member
    have linked := (wellFormed.linked parent id).mp (inside id member)
    rw [Bool.not_eq_true', Bool.eq_false_iff, ne_eq, List.contains_iff_mem, wellFormed.linked, linked]
    exact fun same => apart (Option.some.inj same).symm
  rw [stays lead (by simp_all), stays trail (by simp_all)] at regrouped
  have origin : ∀ id ∈ lead ++ document.children fragment ++ trail,
      document.parent? id = some parent ∨ document.parent? id = some fragment := by
    intro id member
    rw [← wellFormed.linked, ← wellFormed.linked, split]
    simp only [List.mem_append] at member ⊢
    tauto
  refine ⟨lead, trail, split, head, regrouped.size, regrouped.content, apart, split, ?_, ?_, ?_⟩
  · rw [regrouped.children, if_pos rfl]
  · rw [regrouped.children, if_neg apart, List.filter_eq_nil_iff]
    intro id member
    simp [member]
  · intro id differ other
    refine regrouped.children_eq wellFormed differ fun child member same => ?_
    rcases origin child member with linked | linked
    · exact differ (Option.some.inj (same.symm.trans linked))
    · exact other (Option.some.inj (same.symm.trans linked))

end

namespace Mounted

variable {free moved freeNow movedNow : Document} {fragment parent home : NodeId}
  {lead trail listed : List NodeId} {id : NodeId}

theorem has_iff (mounted : free.Mounted moved fragment parent lead trail) (id : NodeId) :
    moved.Has id ↔ free.Has id := by
  rw [Has, Has, mounted.size]

theorem mem_children (mounted : free.Mounted moved fragment parent lead trail) {other : NodeId}
    (member : id ∈ free.children other) (differ : other ≠ fragment) : id ∈ moved.children other := by
  by_cases same : other = parent
  · subst same
    rw [mounted.around, List.mem_append] at member
    rw [mounted.shown, List.mem_append, List.mem_append]
    exact member.imp_left Or.inl
  · rwa [mounted.elsewhere other same differ]

theorem not_isAbove (mounted : free.Mounted moved fragment parent lead trail)
    (wellFormed : free.WellFormed) (movedWellFormed : moved.WellFormed)
    (isFragment : free.kind fragment = .fragment) : ¬ free.IsAbove fragment parent := by
  have inner {other child : NodeId} (linked : free.parent? child = some other) : child ≠ fragment := by
    rintro rfl
    exact wellFormed.kind_of_parent? linked isFragment
  -- From the parent upwards both documents agree, so that the parent would stand above itself.
  have still {other : NodeId} (above : free.IsAbove other parent) (differ : other ≠ fragment) :
      moved.IsAbove other parent := by
    induction above using Relation.ReflTransGen.head_induction_on with
    | refl => exact Relation.ReflTransGen.refl
    | @head other child linked _ ih =>
        have member := mounted.mem_children ((wellFormed.linked other child).mpr linked) differ
        exact Relation.ReflTransGen.head ((movedWellFormed.linked other child).mp member)
          (ih (inner linked))
  intro above
  rcases Relation.ReflTransGen.cases_head above with same | ⟨child, linked, below⟩
  · exact mounted.apart same
  · refine movedWellFormed.not_isAbove_of_child ?_ (still below (inner linked))
    rw [mounted.shown]
    simp [(wellFormed.linked fragment child).mpr linked]

theorem layoutUpTo_eq (mounted : free.Mounted moved fragment parent lead trail)
    (wellFormed : free.WellFormed) (movedWellFormed : moved.WellFormed)
    (isFragment : free.kind fragment = .fragment) (limit : Nat) (below : free.IsAbove fragment id)
    (differ : id ≠ fragment) : moved.layoutUpTo limit id = free.layoutUpTo limit id := by
  induction limit generalizing id with
  | zero => rfl
  | succ limit ih =>
      have outside : id ≠ parent := by
        rintro rfl
        exact mounted.not_isAbove wellFormed movedWellFormed isFragment below
      rw [layoutUpTo, layoutUpTo, mounted.elsewhere id outside differ]
      congr 1
      apply List.map_congr_left
      intro child member
      have linked := (wellFormed.linked id child).mp member
      refine ih (Relation.ReflTransGen.tail below linked) ?_
      rintro rfl
      exact wellFormed.kind_of_parent? linked isFragment

theorem tree_eq (mounted : free.Mounted moved fragment parent lead trail)
    (wellFormed : free.WellFormed) (movedWellFormed : moved.WellFormed)
    (isFragment : free.kind fragment = .fragment) (member : id ∈ free.children fragment) :
    moved.tree id = free.tree id := by
  have linked := (wellFormed.linked fragment id).mp member
  have differ : id ≠ fragment := by
    rintro rfl
    exact wellFormed.kind_of_parent? linked isFragment
  rw [tree, tree, layout, layout, mounted.size, mounted.layoutUpTo_eq wellFormed movedWellFormed
    isFragment free.size (Relation.ReflTransGen.single linked) differ, funext mounted.content]

theorem of_content (mounted : free.Mounted moved fragment parent lead trail)
    (size : movedNow.size = freeNow.size)
    (content : ∀ id, movedNow.content id = freeNow.content id)
    (children : ∀ id, freeNow.children id = free.children id)
    (movedChildren : ∀ id, movedNow.children id = moved.children id) :
    freeNow.Mounted movedNow fragment parent lead trail where
  size := size
  content := content
  apart := mounted.apart
  around := (children parent).trans mounted.around
  shown := by rw [movedChildren, children, mounted.shown]
  empty := (movedChildren fragment).trans mounted.empty
  elsewhere := fun id differ other => by
    rw [movedChildren, children, mounted.elsewhere id differ other]

theorem setContent (mounted : free.Mounted moved fragment parent lead trail) (id : NodeId)
    (content : Content) :
    (free.setContent id content).Mounted (moved.setContent id content) fragment parent lead trail := by
  refine mounted.of_content (by simp [mounted.size]) ?_ (by simp) (by simp)
  intro other
  by_cases bound : free.Has id
  · rw [content_setContent bound, content_setContent ((mounted.has_iff id).mpr bound), mounted.content]
  · rw [Document.setContent, Document.setContent, modify_of_not_has bound,
      modify_of_not_has (mt (mounted.has_iff id).mp bound), mounted.content]

theorem create (mounted : free.Mounted moved fragment parent lead trail) (content : Content) :
    (free.create content).2.Mounted (moved.create content).2 fragment parent lead trail := by
  have fresh : (moved.create content).1 = (free.create content).1 := congrArg NodeId.mk mounted.size
  refine mounted.of_content ?_ ?_ (children_create free content) (children_create moved content)
  · exact (Array.size_push _).trans ((congrArg (· + 1) mounted.size).trans (Array.size_push _).symm)
  · intro id
    rw [content_create, content_create, fresh, mounted.content]

theorem children_host (mounted : free.Mounted moved fragment parent lead trail)
    (outside : home ≠ parent) : moved.children (host fragment parent home) =
      beside fragment home lead ++ free.children home ++ beside fragment home trail := by
  rw [host, beside, beside]
  split
  · rename_i root
    rw [root, mounted.shown]
  · rename_i inner
    simp [mounted.elsewhere home outside inner]

theorem graft (mounted : free.Mounted moved fragment parent lead trail) (bound : free.Has parent)
    (fragmentBound : free.Has fragment) (tree : Tree Content) :
    (free.graft tree).2.Mounted (moved.graft tree).2 fragment parent lead trail := by
  have extended := extends_graft free tree
  have movedExtended := extends_graft moved tree
  have new {id : NodeId} (missing : ¬ free.Has id) :
      (moved.graft tree).2.node id = (free.graft tree).2.node id := by
    have lower : free.nodes.toList.length ≤ id.index := Nat.le_of_not_lt missing
    have movedLower : moved.nodes.toList.length ≤ id.index := mounted.size.trans_le lower
    rw [node_eq_toList, node_eq_toList, toList_graft, toList_graft, mounted.size,
      List.getElem?_append_right lower, List.getElem?_append_right movedLower]
    exact congrArg (fun place => ((entries free.size none tree)[id.index - place]?).getD _) mounted.size
  refine ⟨?_, ?_, mounted.apart, ?_, ?_, ?_, ?_⟩
  · rw [size_graft, size_graft, mounted.size]
  · intro id
    by_cases old : free.Has id
    · rw [extended.content_eq old, movedExtended.content_eq ((mounted.has_iff id).mpr old),
        mounted.content]
    · exact congrArg Node.content (new old)
  · rw [extended.children_eq bound, mounted.around]
  · rw [movedExtended.children_eq ((mounted.has_iff _).mpr bound),
      extended.children_eq fragmentBound, mounted.shown]
  · rw [movedExtended.children_eq ((mounted.has_iff _).mpr fragmentBound), mounted.empty]
  · intro id differ other
    by_cases old : free.Has id
    · rw [extended.children_eq old, movedExtended.children_eq ((mounted.has_iff id).mpr old),
        mounted.elsewhere id differ other]
    · exact congrArg Node.children (new old)

/-- A node of the instance gets other children in both documents. They stood there, or at a place that
the mounting does not touch. -/
theorem regrouped (mounted : free.Mounted moved fragment parent lead trail)
    (wellFormed : free.WellFormed) (movedWellFormed : moved.WellFormed) (outside : home ≠ parent)
    (origin : ∀ id ∈ listed, ∀ upper, free.parent? id = some upper →
      upper = home ∨ upper ≠ parent ∧ upper ≠ fragment)
    (first : free.Regrouped home listed freeNow)
    (second : moved.Regrouped (host fragment parent home)
      (beside fragment home lead ++ listed ++ beside fragment home trail) movedNow) :
    freeNow.Mounted movedNow fragment parent lead trail := by
  have kept {id : NodeId} (differ : id ≠ home) (edge : id = parent ∨ id = fragment) :
      freeNow.children id = free.children id := by
    refine first.children_eq wellFormed differ fun child member linked => ?_
    rcases origin child member id linked with same | ⟨notParent, notFragment⟩
    · exact differ same
    · exact edge.elim notParent notFragment
  have hosted {child : NodeId} (member : child ∈ beside fragment home lead ∨
      child ∈ beside fragment home trail) : moved.parent? child = some (host fragment parent home) := by
    rw [← movedWellFormed.linked, mounted.children_host outside]
    simp only [List.mem_append]
    tauto
  -- The listed nodes stood under the home, or under neither the parent nor the fragment.
  have movedKept (inner : home ≠ fragment) : movedNow.children parent = moved.children parent := by
    have differ : parent ≠ host fragment parent home := by
      rw [host, if_neg inner]
      exact outside.symm
    refine second.children_eq movedWellFormed differ fun child member linked => ?_
    rw [List.mem_append, List.mem_append, or_right_comm] at member
    rcases member with around | inside
    · exact differ (Option.some.inj (linked.symm.trans (hosted around)))
    · have stood : free.parent? child = some parent ∨ free.parent? child = some fragment := by
        rw [← movedWellFormed.linked, mounted.shown] at linked
        rw [← wellFormed.linked, ← wellFormed.linked, mounted.around]
        simp only [List.mem_append] at linked ⊢
        tauto
      rcases stood with upper | upper
      · rcases origin child inside parent upper with same | ⟨other, _⟩
        · exact outside same.symm
        · exact other rfl
      · rcases origin child inside fragment upper with same | ⟨_, other⟩
        · exact inner same.symm
        · exact other rfl
  have filled : freeNow.children home = listed := by rw [first.children, if_pos rfl]
  have movedFilled := second.children (host fragment parent home)
  rw [if_pos rfl] at movedFilled
  refine {
    size := by rw [second.size, first.size, mounted.size]
    content := fun id => by rw [second.content, first.content, mounted.content]
    apart := mounted.apart
    around := (kept outside.symm (Or.inl rfl)).trans mounted.around
    shown := ?_
    empty := ?_
    elsewhere := ?_
  }
  · by_cases root : home = fragment
    · subst root
      rwa [host, beside, beside, if_pos rfl, if_pos rfl, if_pos rfl, ← filled] at movedFilled
    · rw [movedKept root, mounted.shown, kept (Ne.symm root) (Or.inr rfl)]
  · have other : fragment ≠ host fragment parent home := by
      rw [host]
      split
      · exact mounted.apart
      · rename_i root
        exact Ne.symm root
    rw [second.children, if_neg other, mounted.empty]
    rfl
  · intro id differ other
    by_cases same : id = home
    · subst same
      rw [host, beside, beside, if_neg other, if_neg other, if_neg other, List.nil_append,
        List.append_nil] at movedFilled
      rw [movedFilled, filled]
    · have elsewhere : id ≠ host fragment parent home := by
        rw [host]
        split <;> assumption
      rw [first.children, second.children, if_neg same, if_neg elsewhere,
        mounted.elsewhere id differ other]
      refine List.filter_congr fun child member => ?_
      have linked : moved.parent? child = some id := by
        rw [← movedWellFormed.linked, mounted.elsewhere id differ other]
        exact member
      have apart : ¬ (child ∈ beside fragment home lead ∨ child ∈ beside fragment home trail) :=
        fun around => elsewhere (Option.some.inj (linked.symm.trans (hosted around)))
      rw [not_or] at apart
      simp [apart.1, apart.2]

theorem putAttribute (mounted : free.Mounted moved fragment parent lead trail) (id : NodeId)
    (name : AttributeName) (value? : Option String) :
    (free.putAttribute id name value?).Mounted (moved.putAttribute id name value?) fragment parent lead
      trail := by
  rw [Document.putAttribute, Document.putAttribute, mounted.content]
  exact mounted.setContent id _

end Mounted

end Document

namespace Scene

structure Twin (free moved start : Scene) (rows : List Row) (parent : NodeId)
    (lead trail : List NodeId) : Prop where
  live : free.Live start rows
  kinds : free.document.KeepsKinds start.document
  sound : moved.Sound
  graph : moved.graph = free.graph
  mounted : free.document.Mounted moved.document start.graph.fragment parent lead trail
  outer : ∀ row ∈ rows, row.home = start.graph.fragment → row.parent? = none
  outside : ∀ row ∈ rows, row.regions ≠ [] → row.home ≠ parent
  parentBound : free.document.Has parent
  fragmentBound : free.document.Has start.graph.fragment

section
variable {free moved start : Scene} {rows : List Row} {row : Row} {parent : NodeId}
  {lead trail content nodes : List NodeId} {index number : Nat} {nested? : Option Nested}
  {before after : List Slot} {source : Source} {region : Region} {write : Write}
  {document : Document}

theorem Twin.outside_of_split (twin : Twin free moved start rows parent lead trail)
    (member : row ∈ rows) (split : row.slots = before ++ .region number source :: after) :
    row.home ≠ parent := by
  refine twin.outside row member (List.ne_nil_of_mem (a := number) ?_)
  simp [Row.regions, split, Slot.regions]

/-- Every region is in place in the other document too: its parent is the one that has the nodes. -/
theorem Twin.exists_place (twin : Twin free moved start rows parent lead trail) (member : row ∈ rows)
    (split : row.slots = before ++ .region number source :: after)
    (found : free.graph.regions[number]? = some region) :
    ∃ span : Span, region.place? moved.document = some span ∧
      span.parent = Document.host start.graph.fragment parent row.home ∧
      span.Cuts (moved.document.children span.parent)
        (Document.beside start.graph.fragment row.home lead ++ free.graph.expand before)
        (free.graph.nodesOf region)
        (free.graph.expand after ++ Document.beside start.graph.fragment row.home trail) ∧
      (∀ nodes, region.settle span nodes = { region with rendered := nodes, detached := false }) ∧
      (region.owning = false → region.span? moved.document = some
        ⟨Document.host start.graph.fragment parent row.home, region.previous?, region.next?⟩) := by
  have planned := twin.live.planned
  obtain ⟨span, placed, parentEq, cuts, settled, shared, _⟩ :=
    planned.exists_place_beside twin.sound.wellFormed member split found (twin.live.rendered found).1
      (twin.mounted.children_host (twin.outside_of_split member split)) (by
        intro below
        have inner : row.home ≠ start.graph.fragment := by
          intro root
          rw [twin.outer row member root] at below
          cases below
        simp only [Document.host, Document.beside, if_neg inner]
        exact ⟨trivial, trivial, trivial⟩)
  exact ⟨span, placed, parentEq, parentEq ▸ cuts, settled, shared⟩

theorem Live.isLive (live : free.Live start rows)
    (target : free.graph.parts[index]?.map Part.target = some (.nodes number content nested?)) :
    free.isLive number = true := by
  obtain ⟨region, found, _⟩ := live.linked.part target
  obtain ⟨row, member, before, source, after, split, _, _⟩ := live.planned.exists_row found
  obtain ⟨_, _, _, _, _, spanFound, _⟩ :=
    live.planned.exists_place live.toSound member split found (live.rendered found).1
  cases owning : region.owning with
  | true => simp [Scene.isLive, found, Region.isLive_eq, owning]
  | false => simp [Scene.isLive, found, Region.isLive_eq, spanFound owning]

theorem Twin.isLive (twin : Twin free moved start rows parent lead trail)
    (target : free.graph.parts[index]?.map Part.target = some (.nodes number content nested?)) :
    moved.isLive number = true := by
  obtain ⟨region, found, _⟩ := twin.live.linked.part target
  obtain ⟨row, member, before, source, after, split, _, _⟩ := twin.live.planned.exists_row found
  obtain ⟨_, _, _, _, _, spanFound⟩ := twin.exists_place member split found
  rw [← twin.graph] at found
  cases owning : region.owning with
  | true => simp [Scene.isLive, found, Region.isLive_eq, owning]
  | false => simp [Scene.isLive, found, Region.isLive_eq, spanFound owning]

theorem realizeAll_mounted {free moved : Scene} {fragment : NodeId}
    (mounted : free.document.Mounted moved.document fragment parent lead trail) (items : List Item) :
    (moved.realizeAll items).1 = (free.realizeAll items).1 ∧
      (free.realizeAll items).2.document.Mounted (moved.realizeAll items).2.document fragment parent
        lead trail := by
  induction items generalizing free moved with
  | nil => exact ⟨rfl, mounted⟩
  | cons item rest ih =>
      cases item with
      | text data =>
          have fresh : (moved.document.create (.text data)).1 =
              (free.document.create (.text data)).1 := congrArg NodeId.mk mounted.size
          have added : (free.addNode (.text data)).2.document.Mounted
              (moved.addNode (.text data)).2.document fragment parent lead trail := mounted.create _
          obtain ⟨same, later⟩ := ih added
          exact ⟨List.cons_eq_cons.mpr ⟨fresh, same⟩, later⟩
      | node id =>
          obtain ⟨same, later⟩ := ih mounted
          exact ⟨congrArg (List.cons id) same, later⟩

theorem Twin.exists_prepares (twin : Twin free moved start rows parent lead trail)
    (target : free.graph.parts[index]?.map Part.target = some (.nodes number content nested?))
    (prepared : free.Prepares number content write document nodes) :
    ∃ movedDocument, moved.Prepares number content write movedDocument nodes ∧
      document.Mounted movedDocument start.graph.fragment parent lead trail := by
  have kind (id : NodeId) : moved.document.kind id = free.document.kind id := by
    rw [Document.kind, Document.kind, twin.mounted.content]
  cases prepared with
  | @overwrite only _ single isText _ =>
      refine ⟨_, .overwrite single ((kind only).trans isText) (twin.isLive target), ?_⟩
      rw [Document.setData, Document.setData, twin.mounted.content]
      exact twin.mounted.setContent only _
  | @text value? dead =>
      have fresh : (moved.document.create (.text (value?.getD ""))).1 =
          (free.document.create (.text (value?.getD ""))).1 := congrArg NodeId.mk twin.mounted.size
      rw [← fresh]
      refine ⟨_, .text ?_, twin.mounted.create _⟩
      intro only single isText
      have live := dead only single ((kind only).symm.trans isText)
      rw [twin.live.isLive target] at live
      cases live
  | @items items accepted =>
      obtain ⟨same, mounted⟩ := realizeAll_mounted twin.mounted items
      rw [← same]
      refine ⟨_, .items fun item member => ?_, mounted⟩
      have plain := accepted item member
      cases item with
      | text data => rfl
      | node id => rwa [refused?, kind]
  | @markup text fragment document read =>
      obtain ⟨trees, treesRead, rfl, rfl⟩ := Prepares.exists_graft read
      have mounted :=
        twin.mounted.graft twin.parentBound twin.fragmentBound (.node .fragment trees)
      have movedRead : moved.document.read? text = some (⟨free.document.size⟩,
          (moved.document.graft (.node .fragment trees)).2) := by
        rw [Document.read?, treesRead, ← twin.mounted.size]
        rfl
      have apart {id : NodeId} (bound : free.document.Has id) : ⟨free.document.size⟩ ≠ id := by
        rintro rfl
        exact Nat.lt_irrefl _ bound
      rw [← mounted.elsewhere _ (apart twin.parentBound) (apart twin.fragmentBound)]
      exact ⟨_, .markup movedRead, mounted⟩

theorem Twin.shown_moved (twin : Twin free moved start rows parent lead trail)
    (target : free.graph.parts[index]?.map Part.target = some (.nodes number content nested?))
    (textual : write.nodes = [])
    (prepared : moved.Prepares number content write document nodes) (member : row ∈ rows)
    (split : row.slots = before ++ .region number source :: after)
    (found : free.graph.regions[number]? = some region) :
    let graph := free.graph.setTarget index (.nodes number nodes nested?)
    (reconcileRegion ⟨document, graph⟩ number).graph = graph.setRegion number
      { region with rendered := graph.nodesOf region, detached := false } ∧
    document.Regrouped (Document.host start.graph.fragment parent row.home)
      (Document.beside start.graph.fragment row.home lead ++ (free.graph.expand before ++
        graph.nodesOf region ++ free.graph.expand after) ++
          Document.beside start.graph.fragment row.home trail)
      (reconcileRegion ⟨document, graph⟩ number).document := by
  intro graph
  obtain ⟨span, placed, parentEq, cuts, settled, _⟩ := twin.exists_place member split found
  have movedTarget : moved.graph.parts[index]?.map Part.target =
      some (.nodes number content nested?) := by rw [twin.graph, target]
  have movedFound : moved.graph.regions[number]? = some region := twin.graph ▸ found
  have known := twin.sound.known movedFound
  have bound := (Region.exists_cuts_of_place? twin.sound.wellFormed known placed).1
  have fresh := (prepared.apart textual twin.sound.wellFormed bound).imp_right
    (And.imp_right fun new id inside => (new id inside).2)
  have reconciled :=
    (reconcileRegion_of_place twin.sound movedTarget prepared movedFound placed).1
  have regrouped :=
    regrouped_of_place twin.sound movedTarget prepared movedFound placed (twin.graph ▸ cuts) fresh
  rw [twin.graph] at reconciled regrouped
  rw [parentEq] at regrouped
  refine ⟨?_, by simpa only [List.append_assoc] using regrouped⟩
  rw [reconciled, settled]

theorem Twin.of_prepares (twin : Twin free moved start rows parent lead trail)
    (target : free.graph.parts[index]?.map Part.target = some (.nodes number content nested?))
    (textual : write.nodes = []) (prepared : free.Prepares number content write document nodes)
    {movedDocument : Document} (movedPrepared : moved.Prepares number content write movedDocument nodes)
    (mounted : document.Mounted movedDocument start.graph.fragment parent lead trail) :
    Twin (reconcileRegion ⟨document, free.graph.setTarget index (.nodes number nodes nested?)⟩ number)
      (reconcileRegion ⟨movedDocument, free.graph.setTarget index (.nodes number nodes nested?)⟩ number)
      start rows parent lead trail := by
  have live := twin.live
  have wellFormed := prepared.wellFormed live.wellFormed
  have movedTarget : moved.graph.parts[index]?.map Part.target =
      some (.nodes number content nested?) := by rw [twin.graph, target]
  have unique : write.nodes.Nodup := textual ▸ List.nodup_nil
  have brought : ∀ id ∈ write.nodes, free.document.Has id ∧
      ¬ start.document.Has id ∧ free.document.parent? id = none := by
    rw [textual]
    rintro _ ⟨⟩
  obtain ⟨region, row, before, after, exchange⟩ := live.exists_exchange target prepared unique brought
  obtain ⟨source, split⟩ := exchange.split
  obtain ⟨settled, regrouped⟩ :=
    twin.shown_moved target textual movedPrepared exchange.member split exchange.found
  have kept := sound_reconcileRegion (twin.sound.of_prepares movedTarget movedPrepared) number
  rw [twin.graph] at kept
  have kinds := exchange.regrouped.keepsKinds.trans prepared.kinds
  refine ⟨live.of_prepares target prepared unique brought, kinds.trans twin.kinds, kept, ?_, ?_,
    twin.outer, twin.outside, kinds.has twin.parentBound, kinds.has twin.fragmentBound⟩
  · rw [settled, exchange.graph]
  · refine mounted.regrouped wellFormed (movedPrepared.wellFormed twin.sound.wellFormed)
      (twin.outside_of_split exchange.member split) ?_ exchange.regrouped regrouped
    intro id listed upper linked
    by_cases old : free.document.Has id
    · rw [prepared.links.parent?_eq id old] at linked
      rcases exchange.origin_listed live.planned live.wellFormed listed with home | ⟨none, _⟩
      · exact Or.inl (Option.some.inj (linked.symm.trans home))
      · cases none.symm.trans linked
    · -- What is above a new node is new, unlike the parent and the fragment.
      have new : ¬ free.document.Has upper := by
        intro upperOld
        rw [← wellFormed.linked, prepared.links.children_eq upper upperOld] at linked
        exact old (live.wellFormed.has_child linked)
      exact Or.inr ⟨fun same => new (same ▸ twin.parentBound),
        fun same => new (same ▸ twin.fragmentBound)⟩

theorem Twin.outcome_eq (twin : Twin free moved start rows parent lead trail) (index : Nat)
    (write : Write) : (moved.write index write).1 = (free.write index write).1 := by
  cases write with
  | value value? => rfl
  | boolean present =>
      have whole : moved.isWhole index = free.isWhole index := by rw [isWhole, isWhole, twin.graph]
      simp only [Scene.write, setBoolean, whole]
      split <;> rfl
  | items items =>
      have same : refused? moved.document = refused? free.document := by
        funext item
        cases item with
        | text data => rfl
        | node id => rw [refused?, refused?, Document.kind, Document.kind, twin.mounted.content]
      simp only [Scene.write, replace, same]
      split <;> rfl
  | markup text =>
      cases read : Markup.read? text.toList <;>
        simp only [Scene.write, replaceMarkup, Document.read?, read, Option.map_none, Option.map_some]

theorem Twin.of_write (twin : Twin free moved start rows parent lead trail)
    (target : free.graph.parts[index]?.map Part.target = some (.nodes number content nested?))
    (textual : write.nodes = []) :
    Twin (free.write index write).2 (moved.write index write).2 start rows parent lead trail := by
  have movedTarget : moved.graph.parts[index]?.map Part.target =
      some (.nodes number content nested?) := by rw [twin.graph, target]
  have outcome := twin.outcome_eq index write
  rcases free.write_cases target write with ⟨error, refused⟩ | ⟨document, nodes, prepared, written⟩ <;>
  rcases moved.write_cases movedTarget write with ⟨other, movedRefused⟩ |
    ⟨movedDocument, movedNodes, movedPrepared, movedWritten⟩
  · rw [refused, movedRefused]
    exact twin
  · rw [refused, movedWritten] at outcome
    cases outcome
  · rw [written, movedRefused] at outcome
    cases outcome
  · obtain ⟨other, otherPrepared, mounted⟩ := twin.exists_prepares target prepared
    obtain ⟨rfl, rfl⟩ := movedPrepared.unique otherPrepared
    rw [written, movedWritten, twin.graph]
    exact twin.of_prepares target textual prepared movedPrepared mounted

theorem Twin.of_nodes (twin : Twin free moved start rows parent lead trail)
    (target : free.graph.parts[index]?.map Part.target = some (.nodes number content nested?))
    (value? : Option String) :
    Twin (free.setValue index value?) (moved.setValue index value?) start rows parent lead trail := by
  have written : Twin (free.write index (.value value?)).2 (moved.write index (.value value?)).2 start
      rows parent lead trail := twin.of_write target rfl
  exact written

theorem reconcileBinding_mounted {free moved : Document} {fragment : NodeId}
    (mounted : free.Mounted moved fragment parent lead trail) (graph : PartGraph) (number : Nat) :
    (reconcileBinding ⟨moved, graph⟩ number).graph = (reconcileBinding ⟨free, graph⟩ number).graph ∧
      (reconcileBinding ⟨free, graph⟩ number).document.Mounted
        (reconcileBinding ⟨moved, graph⟩ number).document fragment parent lead trail := by
  cases found : graph.bindings[number]? with
  | none =>
      simp only [reconcileBinding, found]
      exact ⟨trivial, mounted⟩
  | some binding =>
      rw [reconcileBinding_eq ⟨free, graph⟩ found, reconcileBinding_eq ⟨moved, graph⟩ found]
      exact ⟨rfl, mounted.putAttribute _ _ _⟩

theorem Twin.of_attribute (twin : Twin free moved start rows parent lead trail) {old? : Option String}
    (target : free.graph.parts[index]?.map Part.target = some (.attribute number old?))
    (value? : Option String) :
    Twin (free.setValue index value?) (moved.setValue index value?) start rows parent lead trail := by
  have whole : moved.isWhole index = free.isWhole index := by rw [isWhole, isWhole, twin.graph]
  have kept : (moved.setValue index value?).Sound := sound_write twin.sound index (.value value?)
  simp only [setValue, twin.graph, target, whole] at kept ⊢
  generalize (if free.isWhole index then value? else some (value?.getD "")) = new? at kept ⊢
  have quiet := quiet_setAttributeValue free index new?
  have live := twin.live.of_quiet quiet
  have next := quiet.kinds
  simp only [setAttributeValue, twin.graph, target] at kept live next ⊢
  obtain ⟨same, mounted⟩ := reconcileBinding_mounted twin.mounted
    (free.graph.setTarget index (.attribute number new?)) number
  exact ⟨live, next.trans twin.kinds, kept, same, mounted, twin.outer, twin.outside,
    next.has twin.parentBound, next.has twin.fragmentBound⟩

theorem Twin.of_value (twin : Twin free moved start rows parent lead trail) (index : Nat)
    (value? : Option String) :
    Twin (free.setValue index value?) (moved.setValue index value?) start rows parent lead trail := by
  cases target : free.graph.parts[index]?.map Part.target with
  | none =>
      have unchanged : free.setValue index value? = free ∧ moved.setValue index value? = moved := by
        simp only [setValue, twin.graph, target, and_self]
      rw [unchanged.1, unchanged.2]
      exact twin
  | some known =>
      rcases known with ⟨number, old?⟩ | ⟨number, content, nested?⟩
      · exact twin.of_attribute target value?
      · exact twin.of_nodes target value?

theorem Twin.assign (twin : Twin free moved start rows parent lead trail) (state : Json)
    (index : Nat) :
    Twin (Scene.assign state free index) (Scene.assign state moved index) start rows parent lead
      trail := by
  have same : moved.assigned? state index = free.assigned? state index := by
    rw [assigned?, assigned?, twin.graph]
  rw [Scene.assign, Scene.assign, same]
  cases free.assigned? state index with
  | none => exact twin
  | some value => exact twin.of_value index value.shown

theorem Twin.foldl_assign (twin : Twin free moved start rows parent lead trail) (state : Json)
    (indices : List Nat) :
    Twin (indices.foldl (Scene.assign state) free) (indices.foldl (Scene.assign state) moved) start rows
      parent lead trail := by
  induction indices generalizing free moved with
  | nil => exact twin
  | cons index rest ih => exact ih (twin.assign state index)

theorem Twin.foldl_assignAll (twin : Twin free moved start rows parent lead trail)
    (states : List Json) :
    Twin (states.foldl assignAll free) (states.foldl assignAll moved) start rows parent lead trail := by
  induction states generalizing free moved with
  | nil => exact twin
  | cons state rest ih =>
      have next := twin.foldl_assign state (List.range free.graph.parts.size)
      refine ih ?_
      rw [assignAll, assignAll, twin.graph]
      exact next

/-- The parts of the instance's own content are shown below the parent that the fragment was mounted
under. -/
theorem Twin.parentOf?_eq (twin : Twin free moved start rows parent lead trail)
    (known : moved.regionOf? index = some region) (outermost : region.parent? = none) :
    moved.parentOf? index = some parent := by
  obtain ⟨number, found⟩ : ∃ number : Nat, free.graph.regions[number]? = some region := by
    rw [regionOf?, twin.graph] at known
    split at known
    · exact ⟨_, known⟩
    · cases known
  obtain ⟨row, member, before, source, after, split, _, _⟩ := twin.live.planned.exists_row found
  have framed := twin.live.planned.framed row member
  rw [split] at framed
  obtain ⟨same, sameFound, fits⟩ := framed.fits
  cases found.symm.trans sameFound
  have root : row.home = start.graph.fragment := by
    rcases twin.live.planned.recorded row member with inner | outer
    · rw [← fits.parent, outermost] at inner
      cases inner
    · exact outer.2.trans twin.live.fragment
  obtain ⟨_, _, _, _, _, spanFound⟩ := twin.exists_place member split found
  have shared : region.owning = false := (twin.live.planned.exists_outer found outermost).1
  rw [parentOf?, known, Option.bind_some, Region.currentParent?, spanFound shared, root]
  simp [Document.host]

theorem Live.isAbove_of_hangs {slots : List Slot} {id : NodeId}
    (live : free.Live start (⟨start.graph.fragment, none, slots⟩ :: rows))
    (hangs : Hangs rows slots id) : free.document.IsAbove start.graph.fragment id := by
  induction hangs with
  | @here id content inside =>
      exact Relation.ReflTransGen.single (live.planned.parent?_of_slot live.wellFormed
        (List.mem_cons_self ..) inside (by simp [PartGraph.slotNodes]))
  | @under row id content member _ inside ih =>
      exact Relation.ReflTransGen.tail ih (live.planned.parent?_of_slot live.wellFormed
        (List.mem_cons_of_mem _ member) inside (by simp [PartGraph.slotNodes]))

/-- Mounting the fragment of an instance below a node that is not the instance's own. -/
theorem Live.exists_twin {slots : List Slot}
    (live : free.Live start (⟨start.graph.fragment, none, slots⟩ :: rows))
    (hangs : ∀ row ∈ rows, row.regions ≠ [] → Hangs rows slots row.home)
    (kinds : free.document.KeepsKinds start.document)
    (isFragment : start.document.kind start.graph.fragment = .fragment)
    (bound : free.document.Has parent)
    (outside : ¬ free.document.IsAbove start.graph.fragment parent) {reference? : Option NodeId}
    (known : ∀ reference, reference? = some reference → reference ∈ free.document.children parent) :
    ∃ lead trail, free.document.children parent = lead ++ trail ∧ trail.head? = reference? ∧
      Twin free
        ⟨free.document.insertBefore parent start.graph.fragment reference?, free.graph⟩ start
        (⟨start.graph.fragment, none, slots⟩ :: rows) parent lead trail := by
  have fragmentBound := live.planned.has _ (List.mem_cons_self ..)
  rw [← kinds.kind_eq (live.homes _ (List.mem_cons_self ..))] at isFragment
  obtain ⟨lead, trail, split, head, mounted⟩ := Document.exists_mounted live.wellFormed isFragment
    fragmentBound bound outside known
  have kept : (free.document.edit (.insert parent start.graph.fragment reference?)).KeepsKinds
      free.document := Document.keepsKinds_edit live.wellFormed ⟨bound, fragmentBound⟩
  refine ⟨lead, trail, split, head, live, kinds, ?_, rfl, mounted, ?_, ?_, bound, fragmentBound⟩
  · exact live.toSound.of_document
      (Document.wellFormed_insertBefore live.wellFormed bound fragmentBound reference?) kept
  · intro row member root
    rw [live.planned.row_eq member (List.mem_cons_self ..) root]
  · intro row member regions same
    rcases List.mem_cons.mp member with rfl | below
    · exact mounted.apart same
    · exact outside (same ▸ live.isAbove_of_hangs (hangs row below regions))

end

end Scene

section
variable {Script State : Type} {interpret : Interpreter Script State} {world : World Script State}

theorem Engine.exists_valued (interpret : Interpreter Script State) (engine : Engine)
    (template : NodeId) (wellFormed : world.document.WellFormed)
    (nests : Tree.NestsAll (fun content => content.kind ≠ .text) (world.document.forest template))
    (matching : (world.registry engine.registry).resolve
      (world.document.attribute? template (.plain engine.config.typeAttribute)) =
        ⟨.keyMatching, none⟩) (first : Json) (states : List Json) {inst shown : Instance}
    {made settled : World Script State}
    (instantiated : engine.instantiate interpret template first world = (some inst, made))
    (updated : Instance.updateAll interpret states inst made = (.ok (), shown, settled)) :
    ∃ start slots rows given,
      Scene.Instantiated world.document engine.config template start slots rows ∧
      (Scene.mk settled.document shown.graph).Valued start
        (⟨start.graph.fragment, none, slots⟩ :: rows) given ∧
      ((settled.registry shown.registry).resolve shown.type?).process = .keyMatching := by
  obtain ⟨slots, rows, built⟩ := Scene.exists_instantiated wellFormed engine.config template
  have same := engine.instantiate_eq interpret template matching first
  dsimp only at same
  rw [instantiated] at same
  have valued := Scene.Valued.foldl_assignAll built.valued (built.tall nests) (first :: states)
  generalize Scene.instantiate world.document engine.config template = start at *
  split at same
  · cases same
  · cases same
    rw [Instance.updateAll_eq states (congrArg TemplateType.process matching)] at updated
    cases updated
    exact ⟨start, slots, rows, _, built, valued, congrArg TemplateType.process matching⟩

/-- Mounting commutes with updating under key matching. An instance whose fragment is inserted into a
node from elsewhere shows there, after any later updates, what the fragment would have held after the
same updates. No text of the template may have nodes below it; nodes may have been made since the
last update before. -/
theorem Engine.updateAll_mounted (interpret : Interpreter Script State) (engine : Engine)
    (template : NodeId) (wellFormed : world.document.WellFormed)
    (nests : Tree.NestsAll (fun content => content.kind ≠ .text) (world.document.forest template))
    (matching : (world.registry engine.registry).resolve
      (world.document.attribute? template (.plain engine.config.typeAttribute)) =
        ⟨.keyMatching, none⟩) (first : Json) (earlier : List Json) {inst shown : Instance}
    {made settled : World Script State}
    (instantiated : engine.instantiate interpret template first world = (some inst, made))
    (updated : Instance.updateAll interpret earlier inst made = (.ok (), shown, settled))
    {document : Document} (documentWellFormed : document.WellFormed)
    (extended : document.Extends settled.document) {parent : NodeId} (bound : document.Has parent)
    (outside : ¬ document.IsAbove shown.graph.fragment parent) {reference? : Option NodeId}
    (known : ∀ reference, reference? = some reference → reference ∈ document.children parent) :
    ∃ lead trail, document.children parent = lead ++ trail ∧ trail.head? = reference? ∧
      ∀ later : List Json, ∃ last free moved,
        Instance.updateAll interpret later shown { settled with document } = (.ok (), last, free) ∧
        Instance.updateAll interpret later shown
          { settled with
            document := document.insertBefore parent shown.graph.fragment reference? } =
          (.ok (), last, moved) ∧
        last.graph.fragment = shown.graph.fragment ∧
        (let ids := free.document.children last.graph.fragment
        moved.document.children parent = lead ++ ids ++ trail ∧
          ids.map moved.document.tree = free.document.forest last.graph.fragment) ∧
        moved.document.children last.graph.fragment = [] ∧
        (let scene : Scene := ⟨moved.document, last.graph⟩
        ∀ index region, scene.regionOf? index = some region → region.parent? = none →
          scene.parentOf? index = some parent) := by
  obtain ⟨start, slots, rows, given, built, valued, matchingNow⟩ :=
    engine.exists_valued interpret template wellFormed nests matching first earlier instantiated updated
  have quiet : Scene.Quiet ⟨document, shown.graph⟩ ⟨settled.document, shown.graph⟩ :=
    @Scene.Quiet.of_extends ⟨settled.document, shown.graph⟩ _ (fun _ => documentWellFormed) extended
  have live := valued.toLive.of_quiet quiet
  have kinds : document.KeepsKinds start.document := extended.keepsKinds.trans valued.kinds
  have run (now : Document) := @Instance.updateAll_eq _ _ interpret { settled with document := now }
    shown
  rw [show shown.graph.fragment = start.graph.fragment from valued.fragment] at outside ⊢
  obtain ⟨lead, trail, split, head, twin⟩ :=
    live.exists_twin (built.hangs nests) kinds built.fragment bound outside known
  refine ⟨lead, trail, split, head, fun later => ?_⟩
  have last := twin.foldl_assignAll later
  have freeRun := run document later matchingNow
  have movedRun :=
    run (document.insertBefore parent start.graph.fragment reference?) later matchingNow
  dsimp only at freeRun movedRun last
  rw [last.graph] at movedRun
  refine ⟨_, _, _, freeRun, movedRun, ?_⟩
  dsimp only
  have lastKind := (last.kinds.kind_eq (built.planned.has _ (List.mem_cons_self ..))).trans built.fragment
  rw [last.live.fragment]
  refine ⟨rfl, ⟨last.mounted.shown, ?_⟩, last.mounted.empty, fun index region found outermost => ?_⟩
  · rw [last.live.wellFormed.forest_eq]
    exact List.map_congr_left fun id member => last.mounted.tree_eq last.live.wellFormed
      last.sound.wellFormed lastKind member
  · rw [← last.graph] at found ⊢
    exact last.parentOf?_eq found outermost

end

@[irreducible]
def titledInstance : Scene :=
  Scene.instantiate titledWorld.document .standard ⟨1⟩

@[irreducible]
def titledScene : Scene :=
  (titledInstance.assignAll (.object [("x", .string "A"), ("y", .null)])).assignAll
    (.object [("y", .string "B")])

@[irreducible]
def titledBoard : Document :=
  titledScene.document.edit (.read "<b></b>")

theorem Engine.updateAll_mounted_titled :
    ∃ inst made shown settled,
      Engine.instantiate idle ⟨.standard, 0⟩ ⟨1⟩ (.object [("x", .string "A"), ("y", .null)])
        titledWorld = (some inst, made) ∧
      Instance.updateAll idle [.object [("y", .string "B")]] inst made = (.ok (), shown, settled) ∧
      ∃ lead trail, titledBoard.children ⟨13⟩ = lead ++ trail ∧ trail.head? = some ⟨14⟩ ∧
        ∃ last free moved,
          Instance.updateAll idle [.object [("x", .string "C")]] shown
            { settled with document := titledBoard } = (.ok (), last, free) ∧
          Instance.updateAll idle [.object [("x", .string "C")]] shown
            { settled with
              document := titledBoard.insertBefore ⟨13⟩ shown.graph.fragment (some ⟨14⟩) } =
            (.ok (), last, moved) ∧
          moved.document.children ⟨13⟩ =
            lead ++ free.document.children last.graph.fragment ++ trail ∧
          (free.document.children last.graph.fragment).map moved.document.tree =
            free.document.forest last.graph.fragment ∧
          moved.document.children last.graph.fragment = [] := by
  have source : titledSource.WellFormed :=
    Document.wellFormed_edit Document.wellFormed_new trivial
  have wellFormed : titledWorld.document.WellFormed := by
    rw [titledWorld]
    exact source
  have nests : Tree.NestsAll (fun content : Content => content.kind ≠ .text)
      (titledWorld.document.forest ⟨1⟩) := by decide +kernel
  have matching (name? : Option String) :
      (titledWorld.registry 0).resolve name? = ⟨.keyMatching, none⟩ := by
    rw [titledWorld]
    exact Registry.resolve_empty name?
  have parts := Scene.isEmpty_parts_instantiate wellFormed .standard ⟨1⟩ nests
  have templated : Config.standard.anyTemplated (titledWorld.document.forest ⟨1⟩) = true := by
    decide +kernel
  have start : Scene.instantiate titledWorld.document .standard ⟨1⟩ = titledInstance := by
    rw [titledInstance]
  rw [start, templated] at parts
  have instantiated := Engine.instantiate_eq idle ⟨.standard, 0⟩ ⟨1⟩ (matching _)
    (.object [("x", .string "A"), ("y", .null)])
  dsimp only at instantiated
  rw [start, parts, Bool.not_true, if_neg Bool.false_ne_true] at instantiated
  have scene : List.foldl Scene.assignAll
      ⟨(titledInstance.assignAll (.object [("x", .string "A"), ("y", .null)])).document,
        (titledInstance.assignAll (.object [("x", .string "A"), ("y", .null)])).graph⟩
      [.object [("y", .string "B")]] = titledScene := by
    rw [titledScene]
    rfl
  have updated := @Instance.updateAll_eq _ _ idle
    { titledWorld with
      document := (titledInstance.assignAll (.object [("x", .string "A"), ("y", .null)])).document }
    ⟨titledWorld.document.attribute? ⟨1⟩ (.plain Config.standard.typeAttribute), 0,
      (titledInstance.assignAll (.object [("x", .string "A"), ("y", .null)])).graph⟩
    [.object [("y", .string "B")]] (congrArg TemplateType.process (matching _))
  dsimp only at updated
  rw [scene] at updated
  obtain ⟨_, _, _, _, _, valued, _⟩ := Engine.exists_valued idle ⟨.standard, 0⟩ ⟨1⟩ wellFormed nests
    (matching _) _ _ instantiated updated
  have boardWellFormed : titledBoard.WellFormed := by
    rw [titledBoard]
    exact @Document.wellFormed_edit _ valued.wellFormed (.read "<b></b>") trivial
  have extended : titledBoard.Extends titledScene.document := by
    rw [titledBoard]
    exact @Document.extends_edit _ (.read "<b></b>") trivial
  have bound : 13 < titledBoard.size := by decide +kernel
  have outside : ¬ titledBoard.IsAbove titledScene.graph.fragment ⟨13⟩ := by
    have topmost : titledBoard.parent? ⟨13⟩ = none := by decide +kernel
    have apart : (⟨13⟩ : NodeId) ≠ titledScene.graph.fragment := by decide +kernel
    intro above
    rcases Relation.ReflTransGen.cases_tail above with same | ⟨upper, _, linked⟩
    · exact apart same
    · cases topmost.symm.trans linked
  have inside : (⟨14⟩ : NodeId) ∈ titledBoard.children ⟨13⟩ := by decide +kernel
  have known : ∀ reference : NodeId, some ⟨14⟩ = some reference →
      reference ∈ titledBoard.children ⟨13⟩ := by
    rintro reference ⟨⟩
    exact inside
  obtain ⟨lead, trail, split, head, mounted⟩ := Engine.updateAll_mounted idle ⟨.standard, 0⟩ ⟨1⟩
    wellFormed nests (matching _) _ _ instantiated updated boardWellFormed extended bound outside known
  obtain ⟨last, free, moved, freeRun, movedRun, _, shown, empty, _⟩ :=
    mounted [.object [("x", .string "C")]]
  exact ⟨_, _, _, _, instantiated, updated, lead, trail, split, head, last, free, moved, freeRun,
    movedRun, shown.1, shown.2, empty⟩

end LiveTemplate
