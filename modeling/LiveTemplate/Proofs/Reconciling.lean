import LiveTemplate.Proofs.Spans
import LiveTemplate.Template.Write

/-! Sound scenes: the document is well-formed, the parts and regions name each other, and every
region only knows nodes of the document. Reconciling a region keeps a scene sound. -/

namespace LiveTemplate

def Target.content : Target → List NodeId
  | .attribute _ _ => []
  | .nodes _ content _ => content

namespace PartGraph

variable {graph : PartGraph} {index other : Nat} {target : Target} {region : Region}

theorem parts_setTarget (graph : PartGraph) (index : Nat) (target : Target) (other : Nat) :
    (graph.setTarget index target).parts[other]? =
      if index = other then graph.parts[other]?.map fun part => { part with target }
      else graph.parts[other]? := by
  rw [setTarget, Array.getElem?_modify]

theorem target_setTarget (graph : PartGraph) (index : Nat) (target : Target) (other : Nat) :
    (graph.setTarget index target).parts[other]?.map Part.target =
      if index = other then graph.parts[other]?.map fun _ => target
      else graph.parts[other]?.map Part.target := by
  rw [parts_setTarget]
  split
  · rw [Option.map_map]
    rfl
  · rfl

theorem target_setTarget_self (found : graph.parts[index]?.map Part.target = some target)
    (result : Target) : (graph.setTarget index result).parts[index]?.map Part.target = some result := by
  obtain ⟨part, partFound, _⟩ := Option.map_eq_some_iff.mp found
  rw [target_setTarget, if_pos rfl, partFound, Option.map_some]

/-- After a part was given a target, a target is the given one or an old one of another part. -/
theorem target_of_setTarget {result known : Target}
    (changed : (graph.setTarget index result).parts[other]?.map Part.target = some known) :
    index = other ∧ known = result ∨
      index ≠ other ∧ graph.parts[other]?.map Part.target = some known := by
  rw [target_setTarget] at changed
  split at changed
  · rename_i same
    obtain ⟨_, _, rfl⟩ := Option.map_eq_some_iff.mp changed
    exact Or.inl ⟨same, rfl⟩
  · rename_i differ
    exact Or.inr ⟨differ, changed⟩

theorem regions_setRegion (graph : PartGraph) (index : Nat) (region : Region) (other : Nat) :
    (graph.setRegion index region).regions[other]? =
      if index = other then graph.regions[other]?.map fun _ => region
      else graph.regions[other]? := by
  rw [setRegion, Array.getElem?_setIfInBounds]
  split
  · rename_i same
    subst same
    by_cases bound : index < graph.regions.size
    · simp [bound]
    · simp [bound]
  · rfl

theorem contentOf_eq (graph : PartGraph) (index : Nat) :
    graph.contentOf index = ((graph.parts[index]?.map Part.target).map Target.content).getD [] := by
  rw [contentOf, Option.map_map]
  congr 1

theorem contentOf_of_target (found : graph.parts[index]?.map Part.target = some target) :
    graph.contentOf index = target.content := by
  rw [contentOf_eq, found]
  rfl

theorem contentOf_setTarget (found : graph.parts[index]?.map Part.target = some target)
    (result : Target) (other : Nat) :
    (graph.setTarget index result).contentOf other =
      if index = other then result.content else graph.contentOf other := by
  rw [contentOf_eq]
  split
  · rename_i same
    subst same
    rw [target_setTarget_self found]
    rfl
  · rename_i differ
    rw [target_setTarget, if_neg differ, contentOf_eq]

theorem mem_nodesOf {id : NodeId} :
    id ∈ graph.nodesOf region ↔
      .literal id ∈ region.group ∨ ∃ part, .part part ∈ region.group ∧ id ∈ graph.contentOf part := by
  rw [nodesOf, List.mem_flatMap]
  constructor
  · rintro ⟨piece | part, member, shown⟩
    · rw [pieceNodes, List.mem_singleton] at shown
      exact Or.inl (shown ▸ member)
    · exact Or.inr ⟨part, member, shown⟩
  · rintro (member | ⟨part, member, shown⟩)
    · exact ⟨.literal id, member, by simp [pieceNodes]⟩
    · exact ⟨.part part, member, shown⟩

theorem nodesOf_congr {result : PartGraph} (region : Region)
    (same : ∀ part, .part part ∈ region.group → result.contentOf part = graph.contentOf part) :
    result.nodesOf region = graph.nodesOf region := by
  rw [nodesOf, nodesOf]
  apply List.flatMap_congr
  rintro (id | part) member
  · rfl
  · exact same part member

theorem setTarget_setTarget (graph : PartGraph) (index : Nat) (first second : Target) :
    (graph.setTarget index first).setTarget index second = graph.setTarget index second := by
  have same : ((graph.parts.modify index fun part => { part with target := first }).modify index
      fun part => { part with target := second }) =
        graph.parts.modify index fun part => { part with target := second } := by
    apply Array.ext_getElem?
    intro other
    rw [Array.getElem?_modify, Array.getElem?_modify, Array.getElem?_modify]
    split
    · rw [Option.map_map]
      rfl
    · rfl
  simp only [setTarget, same]

theorem setRegion_setRegion (graph : PartGraph) (index : Nat) (first second : Region) :
    (graph.setRegion index first).setRegion index second = graph.setRegion index second := by
  simp only [setRegion, Array.setIfInBounds_setIfInBounds]

theorem nodesOf_setRegion (graph : PartGraph) (index : Nat) (recorded region : Region) :
    (graph.setRegion index recorded).nodesOf region = graph.nodesOf region :=
  rfl

structure Linked (graph : PartGraph) : Prop where
  part : ∀ {index region : Nat} {content nested?},
    graph.parts[index]?.map Part.target = some (.nodes region content nested?) →
      ∃ recorded, graph.regions[region]? = some recorded ∧ .part index ∈ recorded.group
  piece : ∀ {region index : Nat} {recorded}, graph.regions[region]? = some recorded →
    .part index ∈ recorded.group →
      ∃ content nested?, graph.parts[index]?.map Part.target = some (.nodes region content nested?)
  unique : ∀ {region : Nat} {recorded}, graph.regions[region]? = some recorded →
    recorded.group.Nodup

/-- What a region shows, split at one of its parts. -/
theorem Linked.exists_split {number : Nat} {content : List NodeId} {nested? : Option Nested}
    (linked : graph.Linked)
    (target : graph.parts[index]?.map Part.target = some (.nodes number content nested?))
    (found : graph.regions[number]? = some region) :
    ∃ before after, graph.nodesOf region = before ++ content ++ after ∧
      (∀ nodes, (graph.setTarget index (.nodes number nodes nested?)).nodesOf region =
        before ++ nodes ++ after) := by
  obtain ⟨recorded, recordedFound, member⟩ := linked.part target
  cases found.symm.trans recordedFound
  have unique := linked.unique found
  obtain ⟨before, after, split⟩ := List.append_of_mem member
  rw [split] at unique
  obtain ⟨beforeFresh, afterFresh⟩ : .part index ∉ before ∧ .part index ∉ after := by
    rw [List.nodup_append', List.nodup_cons] at unique
    exact ⟨fun inside => unique.2.2 inside (List.mem_cons_self ..), unique.2.1.1⟩
  have kept (nodes : List NodeId) (pieces : List (Piece NodeId)) (fresh : .part index ∉ pieces) :
      pieces.flatMap (graph.setTarget index (.nodes number nodes nested?)).pieceNodes =
        pieces.flatMap graph.pieceNodes := by
    apply List.flatMap_congr
    rintro (id | other) inside
    · rfl
    · rw [pieceNodes, pieceNodes, contentOf_setTarget target, if_neg]
      rintro rfl
      exact fresh inside
  have shown (nodes : List NodeId) :
      (graph.setTarget index (.nodes number nodes nested?)).nodesOf region =
        before.flatMap graph.pieceNodes ++ nodes ++ after.flatMap graph.pieceNodes := by
    rw [nodesOf, split, List.flatMap_append, List.flatMap_cons, kept nodes before beforeFresh,
      kept nodes after afterFresh, pieceNodes, contentOf_setTarget target, if_pos rfl,
      List.append_assoc]
    rfl
  refine ⟨_, _, ?_, shown⟩
  rw [nodesOf, split, List.flatMap_append, List.flatMap_cons, pieceNodes, contentOf_eq, target,
    List.append_assoc]
  rfl

theorem Linked.nodesOf_other {number other : Nat} {content nodes : List NodeId}
    {nested? : Option Nested} (linked : graph.Linked)
    (target : graph.parts[index]?.map Part.target = some (.nodes number content nested?))
    (found : graph.regions[other]? = some region) (differ : other ≠ number) :
    (graph.setTarget index (.nodes number nodes nested?)).nodesOf region = graph.nodesOf region := by
  apply nodesOf_congr
  intro part member
  rw [contentOf_setTarget target, if_neg]
  rintro rfl
  obtain ⟨_, _, otherTarget⟩ := linked.piece found member
  cases target.symm.trans otherTarget
  exact differ rfl

theorem nodup_of_empty {group : List (Piece NodeId)} (unique : group.Nodup)
    (empty : ∀ index, graph.contentOf index = []) : (group.flatMap graph.pieceNodes).Nodup := by
  refine List.nodup_flatMap.mpr ⟨?_, unique.imp ?_⟩
  · rintro (node | part) _
    · exact List.nodup_singleton node
    · rw [pieceNodes, empty]
      exact List.nodup_nil
  · intro first second differ node left right
    cases first <;> cases second <;> simp_all [pieceNodes]

structure SameShape (result graph : PartGraph) : Prop where
  groups : ∀ index : Nat, result.regions[index]?.map Region.group = graph.regions[index]?.map Region.group
  parts : ∀ index region : Nat,
    (∃ content nested?, result.parts[index]?.map Part.target = some (.nodes region content nested?)) ↔
      ∃ content nested?, graph.parts[index]?.map Part.target = some (.nodes region content nested?)

theorem SameShape.exists_region {result graph : PartGraph} (same : result.SameShape graph)
    {index : Nat} {recorded : Region} (found : result.regions[index]? = some recorded) :
    ∃ old, graph.regions[index]? = some old ∧ old.group = recorded.group := by
  have groups := same.groups index
  rw [found, Option.map_some] at groups
  exact Option.map_eq_some_iff.mp groups.symm

theorem SameShape.symm {result graph : PartGraph} (same : result.SameShape graph) :
    graph.SameShape result :=
  ⟨fun index => (same.groups index).symm, fun index region => (same.parts index region).symm⟩

theorem SameShape.trans {first second third : PartGraph} (left : first.SameShape second)
    (right : second.SameShape third) : first.SameShape third :=
  ⟨fun index => (left.groups index).trans (right.groups index),
    fun index region => (left.parts index region).trans (right.parts index region)⟩

theorem Linked.sameShape {result graph : PartGraph} (linked : graph.Linked)
    (same : result.SameShape graph) : result.Linked where
  part := by
    intro index region content nested? found
    obtain ⟨_, _, oldFound⟩ := (same.parts index region).mp ⟨content, nested?, found⟩
    obtain ⟨old, oldRegion, member⟩ := linked.part oldFound
    obtain ⟨recorded, recordedFound, groupEq⟩ := same.symm.exists_region oldRegion
    exact ⟨recorded, recordedFound, groupEq ▸ member⟩
  piece := by
    intro region index recorded found member
    obtain ⟨old, oldFound, groupEq⟩ := same.exists_region found
    exact (same.parts index region).mpr (linked.piece oldFound (groupEq ▸ member))
  unique := by
    intro region recorded found
    obtain ⟨old, oldFound, groupEq⟩ := same.exists_region found
    exact groupEq ▸ linked.unique oldFound

theorem sameShape_setRegion {recorded : Region} (found : graph.regions[index]? = some recorded)
    (groupEq : region.group = recorded.group) : (graph.setRegion index region).SameShape graph where
  groups := by
    intro other
    rw [regions_setRegion]
    split
    · rename_i same
      subst same
      simp [found, groupEq]
    · rfl
  parts := fun _ _ => Iff.rfl

theorem sameShape_setTarget {result : Target}
    (found : graph.parts[index]?.map Part.target = some target)
    (sameRegion : ∀ region, (∃ content nested?, result = .nodes region content nested?) ↔
      ∃ content nested?, target = .nodes region content nested?) :
    (graph.setTarget index result).SameShape graph where
  groups := fun _ => rfl
  parts := by
    intro other region
    by_cases same : index = other
    · subst same
      rw [target_setTarget_self found, found]
      simpa using sameRegion region
    · rw [target_setTarget, if_neg same]

end PartGraph

namespace Region

def place? (region : Region) (document : Document) : Option Span :=
  if region.owning then region.parent?.map fun parent => ⟨parent, none, none⟩
  else region.span? document

def settle (region : Region) (span : Span) (nodes : List NodeId) : Region :=
  if region.owning then { region with rendered := nodes, detached := false }
  else
    { region with
      previous? := span.previous?
      next? := span.next?
      rendered := nodes
      detached := false }

@[simp]
theorem group_settle (region : Region) (span : Span) (nodes : List NodeId) :
    (region.settle span nodes).group = region.group := by
  rw [settle]
  split <;> rfl

@[simp]
theorem parent?_settle (region : Region) (span : Span) (nodes : List NodeId) :
    (region.settle span nodes).parent? = region.parent? := by
  rw [settle]
  split <;> rfl

@[simp]
theorem rendered_settle (region : Region) (span : Span) (nodes : List NodeId) :
    (region.settle span nodes).rendered = nodes := by
  rw [settle]
  split <;> rfl

theorem isLive_eq (region : Region) (document : Document) :
    region.isLive document = (region.owning || (region.span? document).isSome) :=
  rfl

theorem exists_cuts_of_place? {region : Region} {document : Document} {span : Span}
    (wellFormed : document.WellFormed) (known : region.Known document)
    (found : region.place? document = some span) :
    document.Has span.parent ∧ ∃ before between after,
      span.Cuts (document.children span.parent) before between after := by
  rw [place?] at found
  split at found
  · obtain ⟨parent, recorded, rfl⟩ := Option.map_eq_some_iff.mp found
    exact ⟨known.parent parent recorded, [], document.children parent, [], by simp, rfl, rfl⟩
  · exact exists_cuts_of_span? wellFormed known found

theorem place?_keepsLinks {region : Region} {document result : Document}
    (kept : result.KeepsLinks document) (wellFormed : document.WellFormed)
    (resultWellFormed : result.WellFormed) (known : region.Known document) :
    region.place? result = region.place? document := by
  rw [place?, place?, span?_keepsLinks kept wellFormed resultWellFormed known]

end Region

namespace Scene

/-- Reconciling a region fills its span, or marks the region as detached when there is none. -/
theorem reconcileRegion_eq (scene : Scene) {index : Nat} {region : Region}
    (found : scene.graph.regions[index]? = some region) :
    scene.reconcileRegion index =
      match region.place? scene.document with
      | none =>
        { scene with graph := scene.graph.setRegion index { region with detached := true } }
      | some span =>
        { document := scene.document.fill span (scene.graph.nodesOf region)
          graph := scene.graph.setRegion index (region.settle span (scene.graph.nodesOf region)) } := by
  simp only [reconcileRegion, found, Region.place?, Region.settle]
  split
  · cases region.parent? <;> rfl
  · cases region.span? scene.document <;> rfl

theorem contentOf_reconcileRegion (scene : Scene) (index part : Nat) :
    (scene.reconcileRegion index).graph.contentOf part = scene.graph.contentOf part := by
  cases found : scene.graph.regions[index]? with
  | none => rw [reconcileRegion, found]
  | some region =>
      rw [reconcileRegion_eq scene found]
      cases region.place? scene.document <;> rfl

theorem sameShape_reconcileRegion (scene : Scene) (index : Nat) :
    (scene.reconcileRegion index).graph.SameShape scene.graph := by
  cases found : scene.graph.regions[index]? with
  | none =>
      rw [reconcileRegion, found]
      exact ⟨fun _ => rfl, fun _ _ => Iff.rfl⟩
  | some region =>
      rw [reconcileRegion_eq scene found]
      cases region.place? scene.document with
      | none => exact PartGraph.sameShape_setRegion found rfl
      | some span => exact PartGraph.sameShape_setRegion found (region.group_settle span _)

structure Sound (scene : Scene) : Prop where
  wellFormed : scene.document.WellFormed
  linked : scene.graph.Linked
  known : ∀ {index : Nat} {region : Region}, scene.graph.regions[index]? = some region →
    region.Known scene.document
  shown : ∀ {index : Nat} {region : Region}, scene.graph.regions[index]? = some region →
    ∀ id ∈ scene.graph.nodesOf region, scene.document.kind id ≠ .fragment

end Scene

namespace Document

structure KeepsKinds (result document : Document) : Prop where
  has : ∀ {id}, document.Has id → result.Has id
  kind_eq : ∀ {id}, document.Has id → result.kind id = document.kind id

theorem KeepsKinds.refl (document : Document) : document.KeepsKinds document :=
  ⟨fun bound => bound, fun _ => rfl⟩

theorem KeepsKinds.trans {first second third : Document} (left : first.KeepsKinds second)
    (right : second.KeepsKinds third) : first.KeepsKinds third :=
  ⟨fun bound => left.has (right.has bound),
    fun bound => (left.kind_eq (right.has bound)).trans (right.kind_eq bound)⟩

theorem Extends.keepsKinds {result document : Document} (extended : result.Extends document) :
    result.KeepsKinds document :=
  ⟨extended.has, extended.kind_eq⟩

theorem Regrouped.keepsKinds {document result : Document} {parent : NodeId} {listed : List NodeId}
    (regrouped : document.Regrouped parent listed result) : result.KeepsKinds document :=
  ⟨fun bound => (regrouped.has_iff _).mpr bound, fun _ => regrouped.kind_eq _⟩

theorem keepsKinds_setContent {document : Document} {id : NodeId} {content : Content}
    (kind : content.kind = document.kind id) :
    (document.setContent id content).KeepsKinds document where
  has := by
    intro other bound
    rwa [Has, size_setContent]
  kind_eq := by
    intro other bound
    by_cases present : document.Has id
    · rw [Document.kind, content_setContent present]
      split
      · rename_i same
        rw [same, kind]
      · rfl
    · have outside : ¬ id.index < document.nodes.size := present
      simp [setContent, modify, Array.modify, Array.modifyM, outside]

theorem keepsKinds_fill {document : Document} {span : Span} {nodes before between after : List NodeId}
    (wellFormed : document.WellFormed) (parentBound : document.Has span.parent)
    (cuts : span.Cuts (document.children span.parent) before between after)
    (kind : ∀ id ∈ nodes, document.kind id ≠ .fragment) :
    (document.fill span nodes).WellFormed ∧ (document.fill span nodes).KeepsKinds document := by
  obtain ⟨listed, regrouped, adoptable, _⟩ := fill_regrouped wellFormed parentBound cuts kind
  exact ⟨regrouped.wellFormed wellFormed adoptable, regrouped.keepsKinds⟩

end Document

namespace Region

theorem Known.keepsKinds {region : Region} {document result : Document}
    (known : region.Known document) (kept : result.KeepsKinds document) : region.Known result where
  parent := fun id same => kept.has (known.parent id same)
  previous := fun id same => kept.has (known.previous id same)
  next := fun id same => kept.has (known.next id same)
  rendered := fun id member => kept.has (known.rendered id member)

theorem Known.settle {region : Region} {document : Document} {span : Span}
    {nodes before between after : List NodeId} (known : region.Known document)
    (wellFormed : document.WellFormed)
    (cuts : span.Cuts (document.children span.parent) before between after)
    (bound : ∀ id ∈ nodes, document.Has id) : (region.settle span nodes).Known document := by
  have inside (id : NodeId) (member : id ∈ before ∨ id ∈ after) : document.Has id := by
    have listed : id ∈ document.children span.parent := by
      rw [cuts.split]
      rcases member with left | right
      · simp [left]
      · simp [right]
    exact wellFormed.has_child listed
  constructor
  · simpa using known.parent
  · intro id previous
    rw [Region.settle] at previous
    split at previous
    · exact known.previous id previous
    · rw [← cuts.previous] at previous
      exact inside id (Or.inl (List.mem_of_getLast? previous))
  · intro id next
    rw [Region.settle] at next
    split at next
    · exact known.next id next
    · rw [← cuts.next] at next
      exact inside id (Or.inr (List.mem_of_head? next))
  · simpa using bound

end Region

namespace Scene

variable {scene : Scene}

theorem Sound.has_of_shown (sound : scene.Sound) {index : Nat} {region : Region}
    (found : scene.graph.regions[index]? = some region) :
    ∀ id ∈ scene.graph.nodesOf region, scene.document.Has id :=
  fun id member => Document.has_of_kind (sound.shown found id member)

theorem Sound.of_document (sound : scene.Sound) {document : Document}
    (wellFormed : document.WellFormed) (kept : document.KeepsKinds scene.document) :
    Sound { scene with document } where
  wellFormed := wellFormed
  linked := sound.linked
  known := fun found => (sound.known found).keepsKinds kept
  shown := by
    intro index region found id member
    rw [kept.kind_eq (sound.has_of_shown found id member)]
    exact sound.shown found id member

theorem Sound.of_content (sound : scene.Sound) {index region : Nat} {old content : List NodeId}
    {nested? : Option Nested}
    (found : scene.graph.parts[index]?.map Part.target = some (.nodes region old nested?))
    (kind : ∀ id ∈ content, scene.document.kind id ≠ .fragment) :
    Sound { scene with graph := scene.graph.setTarget index (.nodes region content nested?) } where
  wellFormed := sound.wellFormed
  linked := sound.linked.sameShape
    (PartGraph.sameShape_setTarget found (by simp))
  known := fun regionFound => sound.known regionFound
  shown := by
    intro other recorded regionFound id member
    rcases PartGraph.mem_nodesOf.mp member with literal | ⟨part, group, shown⟩
    · exact sound.shown regionFound id (PartGraph.mem_nodesOf.mpr (Or.inl literal))
    · rw [PartGraph.contentOf_setTarget found] at shown
      split at shown
      · exact kind id shown
      · exact sound.shown regionFound id (PartGraph.mem_nodesOf.mpr (Or.inr ⟨part, group, shown⟩))

theorem Sound.of_region (sound : scene.Sound) {index : Nat} {recorded region : Region}
    (found : scene.graph.regions[index]? = some recorded) (groupEq : region.group = recorded.group)
    (known : region.Known scene.document) :
    Sound { scene with graph := scene.graph.setRegion index region } where
  wellFormed := sound.wellFormed
  linked := sound.linked.sameShape (PartGraph.sameShape_setRegion found groupEq)
  known := by
    intro other present presentFound
    rw [PartGraph.regions_setRegion] at presentFound
    split at presentFound
    · rename_i same
      subst same
      rw [found] at presentFound
      exact Option.some.inj presentFound ▸ known
    · exact sound.known presentFound
  shown := by
    intro other present presentFound id member
    rw [PartGraph.nodesOf_setRegion] at member
    rw [PartGraph.regions_setRegion] at presentFound
    split at presentFound
    · rename_i same
      subst same
      rw [found] at presentFound
      rw [← Option.some.inj presentFound] at member
      refine sound.shown found id ?_
      rwa [PartGraph.nodesOf, ← groupEq]
    · exact sound.shown presentFound id member

theorem sound_reconcileRegion (sound : scene.Sound) (index : Nat) :
    (scene.reconcileRegion index).Sound := by
  cases found : scene.graph.regions[index]? with
  | none => simpa [reconcileRegion, found] using sound
  | some region =>
      rw [reconcileRegion_eq scene found]
      have known := sound.known found
      cases placed : region.place? scene.document with
      | none =>
          exact sound.of_region found rfl
            ⟨known.parent, known.previous, known.next, known.rendered⟩
      | some span =>
          obtain ⟨parentBound, before, between, after, cuts⟩ :=
            Region.exists_cuts_of_place? sound.wellFormed known placed
          obtain ⟨wellFormed, kept⟩ :=
            Document.keepsKinds_fill sound.wellFormed parentBound cuts (sound.shown found)
          have settled := sound.of_region found (region.group_settle span _)
            (known.settle sound.wellFormed cuts (sound.has_of_shown found))
          exact settled.of_document wellFormed kept

end Scene

end LiveTemplate
