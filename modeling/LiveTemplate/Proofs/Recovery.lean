import LiveTemplate.Proofs.Histories
import LiveTemplate.Proofs.OrderPreservation
import LiveTemplate.Proofs.Seats

/-! Recovering a lost anchor: as long as the other side of a region is intact, the next write shows
the region again where its nodes are, and later writes keep it there. -/

namespace LiveTemplate

theorem exists_after_of_sublist {anchor? : Option NodeId} {kept siblings : List NodeId}
    (unique : siblings.Nodup) (sublist : (anchor?.toList ++ kept).Sublist siblings) :
    ∃ before rest, siblings = before ++ rest ∧ before.getLast? = anchor? ∧ kept.Sublist rest := by
  cases anchor? with
  | none => exact ⟨[], siblings, rfl, rfl, sublist⟩
  | some anchor =>
      obtain ⟨start, rest, split⟩ := List.append_of_mem (sublist.subset (List.mem_cons_self ..))
      rw [split] at sublist unique
      refine ⟨start ++ [anchor], rest, by simp [split], by simp, ?_⟩
      obtain ⟨first, second, parts, firstSublist, secondSublist⟩ := List.sublist_append_iff.mp sublist
      cases first with
      | nil =>
          rw [← List.nil_append second, ← parts] at secondSublist
          exact List.cons_sublist_cons.mp secondSublist
      | cons head tail =>
          obtain ⟨rfl, _⟩ : anchor = head ∧ _ := by simpa using parts
          exact (notMem_of_nodup_split unique (firstSublist.subset (by simp))).elim

theorem exists_until_last {anchor? : Option NodeId} {kept siblings : List NodeId}
    (unique : siblings.Nodup) (sublist : (anchor?.toList ++ kept).Sublist siblings)
    (nonempty : kept ≠ []) :
    ∃ before between after, siblings = before ++ between ++ after ∧ before.getLast? = anchor? ∧
      between.getLast? = kept.getLast? ∧ ∀ id ∈ kept, id ∈ between := by
  obtain ⟨before, rest, rfl, anchor, restSublist⟩ := exists_after_of_sublist unique sublist
  obtain ⟨init, last, rfl⟩ := List.eq_nil_or_concat kept |>.resolve_left nonempty
  rw [List.concat_eq_append] at restSublist ⊢
  have turned : ((some last).toList ++ init.reverse).Sublist rest.reverse := by
    have reversed := restSublist.reverse
    simpa using reversed
  obtain ⟨ending, inner, split, endingLast, innerSublist⟩ :=
    exists_after_of_sublist (List.nodup_reverse.mpr (List.nodup_append'.mp unique).2.1) turned
  obtain ⟨after, rfl⟩ := List.getLast?_eq_some_iff.mp endingLast
  have restEq : rest = inner.reverse ++ [last] ++ after.reverse := by
    rw [← List.reverse_reverse rest, split]
    simp
  refine ⟨before, inner.reverse ++ [last], after.reverse, by simp [restEq], anchor, by simp, ?_⟩
  intro id member
  rcases List.mem_append.mp member with early | same
  · have inside := innerSublist.subset (List.mem_reverse.mpr early)
    simp [inside]
  · simp [List.mem_singleton.mp same]

theorem exists_from_first {anchor? : Option NodeId} {kept siblings : List NodeId}
    (unique : siblings.Nodup) (sublist : (kept ++ anchor?.toList).Sublist siblings)
    (nonempty : kept ≠ []) :
    ∃ before between after, siblings = before ++ between ++ after ∧ after.head? = anchor? ∧
      between.head? = kept.head? ∧ ∀ id ∈ kept, id ∈ between := by
  have turned : (anchor?.toList ++ kept.reverse).Sublist siblings.reverse := by
    have reversed := sublist.reverse
    cases anchor? <;> simpa using reversed
  obtain ⟨after, between, before, split, anchor, last, inside⟩ :=
    exists_until_last (List.nodup_reverse.mpr unique) turned (by simpa using nonempty)
  refine ⟨before.reverse, between.reverse, after.reverse, ?_, by simpa using anchor, by simpa using last,
    fun id member => ?_⟩
  · rw [← List.reverse_reverse siblings, split]
    simp
  · rw [List.mem_reverse]
    exact inside id (List.mem_reverse.mpr member)

namespace Region

structure LosesNext (region : Region) (document : Document) (parent : NodeId) : Prop where
  displaced : ∃ next, region.next? = some next ∧ document.parent? next ≠ some parent
  intact : (region.previous?.toList ++ region.rendered).Sublist (document.children parent)
  held : region.parent? = none → region.previous? ≠ none

structure LosesPrevious (region : Region) (document : Document) (parent : NodeId) : Prop where
  displaced : ∃ previous, region.previous? = some previous ∧ document.parent? previous ≠ some parent
  intact : (region.rendered ++ region.next?.toList).Sublist (document.children parent)
  held : region.parent? = none → region.next? ≠ none

variable {region : Region} {document : Document} {parent : NodeId}

theorem all_isChild_of_sublist (wellFormed : document.WellFormed) {anchor? : Option NodeId}
    (inside : ∀ id ∈ anchor?.toList, id ∈ document.children parent) :
    anchor?.all (document.isChild · parent) = true :=
  Scene.stays_of_linked fun id same => (wellFormed.linked parent id).mp (inside id (by simp [same]))

theorem all_isChild_of_displaced {anchor? : Option NodeId}
    (displaced : ∃ id, anchor? = some id ∧ document.parent? id ≠ some parent) :
    anchor?.all (document.isChild · parent) = false := by
  obtain ⟨id, rfl, elsewhere⟩ := displaced
  simpa [Document.isChild] using elsewhere

theorem span?_of_rendered {span : Span} (recorded : ∀ known, region.parent? = some known → known = parent)
    (shown : ∃ first, region.rendered.head? = some first ∧ document.parent? first = some parent)
    (found : region.spanUnder? document parent = some span) : region.span? document = some span := by
  have head : (region.parents document).head? = some parent := by
    obtain ⟨first, firstEq, linked⟩ := shown
    obtain ⟨rest, renderedEq⟩ := List.head?_eq_some_iff.mp firstEq
    cases known : region.parent? with
    | some other => simp [parents, known, recorded other known]
    | none => simp [parents, known, renderedEq, linked]
  obtain ⟨rest, parentsEq⟩ := List.head?_eq_some_iff.mp head
  rw [span?, parentsEq, List.findSome?_cons, found]

theorem LosesNext.exists_span (lost : region.LosesNext document parent)
    (wellFormed : document.WellFormed) (nonempty : region.rendered ≠ [])
    (recorded : ∀ known, region.parent? = some known → known = parent) :
    ∃ before between after, document.children parent = before ++ between ++ after ∧
      before.getLast? = region.previous? ∧ between.getLast? = region.rendered.getLast? ∧
      (∀ id ∈ region.rendered, id ∈ between) ∧
      region.span? document = some ⟨parent, before.getLast?, after.head?⟩ := by
  have unique := wellFormed.unique parent
  obtain ⟨before, between, after, split, anchor, last, inside⟩ :=
    exists_until_last unique lost.intact nonempty
  have linked (id : NodeId) (member : id ∈ between) : document.parent? id = some parent := by
    rw [← wellFormed.linked, split]
    simp [member]
  refine ⟨before, between, after, split, anchor, last, inside, ?_⟩
  obtain ⟨init, final, renderedEq⟩ := List.eq_nil_or_concat region.rendered |>.resolve_left nonempty
  rw [List.concat_eq_append] at renderedEq
  rw [renderedEq, List.getLast?_concat] at last
  obtain ⟨start, betweenEq⟩ := List.getLast?_eq_some_iff.mp last
  have finalLinked := linked final (by simp [betweenEq])
  have around : document.children parent = (before ++ start) ++ final :: after := by
    rw [split, betweenEq]
    simp
  have next := Document.next?_of_split finalLinked around unique
  have cuts : Span.Cuts ⟨parent, before.getLast?, after.head?⟩ (document.children parent) before
      between after := ⟨split, rfl, rfl⟩
  have ordered := @Scene.isOrdered_of_cuts _ wellFormed ⟨parent, before.getLast?, after.head?⟩ _ _ _ cuts
  have stays : region.previous?.all (document.isChild · parent) = true :=
    all_isChild_of_sublist wellFormed fun id member => lost.intact.subset (by simp_all)
  refine span?_of_rendered recorded ?_ ?_
  · obtain ⟨first, rest, renderedCons⟩ := List.exists_cons_of_ne_nil nonempty
    exact ⟨first, by simp [renderedCons], linked first (inside first (by simp [renderedCons]))⟩
  · rw [spanUnder?_eq, candidate?, stays, all_isChild_of_displaced lost.displaced, renderedEq,
      List.getLast?_concat]
    have child := (document.isChild_iff final parent).mpr finalLinked
    simp [Option.filter, child, next, ← anchor, ordered]

theorem LosesPrevious.exists_span (lost : region.LosesPrevious document parent)
    (wellFormed : document.WellFormed) (nonempty : region.rendered ≠ [])
    (recorded : ∀ known, region.parent? = some known → known = parent) :
    ∃ before between after, document.children parent = before ++ between ++ after ∧
      after.head? = region.next? ∧ between.head? = region.rendered.head? ∧
      (∀ id ∈ region.rendered, id ∈ between) ∧
      region.span? document = some ⟨parent, before.getLast?, after.head?⟩ := by
  have unique := wellFormed.unique parent
  obtain ⟨before, between, after, split, anchor, head, inside⟩ :=
    exists_from_first unique lost.intact nonempty
  have linked (id : NodeId) (member : id ∈ between) : document.parent? id = some parent := by
    rw [← wellFormed.linked, split]
    simp [member]
  refine ⟨before, between, after, split, anchor, head, inside, ?_⟩
  obtain ⟨first, rest, renderedEq⟩ := List.exists_cons_of_ne_nil nonempty
  rw [renderedEq, List.head?_cons] at head
  obtain ⟨later, betweenEq⟩ := List.head?_eq_some_iff.mp head
  have firstLinked := linked first (by simp [betweenEq])
  have around : document.children parent = before ++ first :: (later ++ after) := by
    rw [split, betweenEq]
    simp
  have previous := Document.previous?_of_split firstLinked around unique
  have cuts : Span.Cuts ⟨parent, before.getLast?, after.head?⟩ (document.children parent) before
      between after := ⟨split, rfl, rfl⟩
  have ordered := @Scene.isOrdered_of_cuts _ wellFormed ⟨parent, before.getLast?, after.head?⟩ _ _ _ cuts
  have stays : region.next?.all (document.isChild · parent) = true :=
    all_isChild_of_sublist wellFormed fun id member => lost.intact.subset (by simp_all)
  refine span?_of_rendered recorded ⟨first, by simp [renderedEq], firstLinked⟩ ?_
  rw [spanUnder?_eq, candidate?, stays, all_isChild_of_displaced lost.displaced, renderedEq,
    List.head?_cons]
  have child := (document.isChild_iff first parent).mpr firstLinked
  simp [Option.filter, child, previous, ← anchor, ordered]

end Region

def Write.Legible : Write → Prop
  | .value _ => True
  | .boolean _ => False
  | .items given => ∀ item ∈ given, item.node? = none
  | .markup text => (Markup.read? text.toList).isSome = true

theorem Write.Legible.textual {write : Write} (legible : write.Legible) : write.Textual := by
  cases write with
  | items given =>
      rw [Write.Legible] at legible
      exact List.filterMap_eq_nil_iff.mpr legible
  | value _ => rfl
  | boolean _ => rfl
  | markup _ => rfl

namespace Scene

variable {scene result : Scene} {index number : Nat} {content : List NodeId} {nested? : Option Nested}
  {write : Write} {region : Region} {parent : NodeId} {before between behind : List NodeId}

theorem isOk_of_legible (legible : write.Legible) (scene : Scene) (index : Nat) :
    (scene.write index write).1 = .ok () := by
  cases write with
  | value value? => rfl
  | boolean present => exact legible.elim
  | items given =>
      rw [Write.Legible] at legible
      have accepted : given.findSome? (refused? scene.document) = none := by
        rw [List.findSome?_eq_none_iff]
        intro item member
        cases item with
        | text data => rfl
        | node id => cases legible (.node id) member
      rw [Scene.write, replace, accepted]
  | markup text =>
      rw [Write.Legible] at legible
      obtain ⟨trees, read⟩ := Option.isSome_iff_exists.mp legible
      rw [Scene.write, replaceMarkup, Document.read?, read]
      rfl

structure Recoverable (scene : Scene) (number : Nat) (region : Region) (parent : NodeId)
    (before between behind : List NodeId) : Prop where
  sound : scene.Sound
  found : scene.graph.regions[number]? = some region
  shared : region.owning = false
  place : region.span? scene.document = some ⟨parent, before.getLast?, behind.head?⟩
  split : scene.document.children parent = before ++ between ++ behind
  inside : ∀ id ∈ scene.graph.nodesOf region, id ∈ between
  once : (scene.graph.nodesOf region).Nodup

structure Settled (scene : Scene) (number : Nat) (region : Region) (parent : NodeId)
    (before behind : List NodeId) : Prop where
  found : scene.graph.regions[number]? = some
    { region with
      previous? := before.getLast?
      next? := behind.head?
      rendered := scene.graph.nodesOf region
      detached := false }
  split : scene.document.children parent = before ++ scene.graph.nodesOf region ++ behind

theorem Recoverable.settled (recoverable : scene.Recoverable number region parent before between behind)
    (target : scene.graph.parts[index]?.map Part.target = some (.nodes number content nested?))
    (textual : write.Textual) (written : scene.write index write = (.ok (), result)) :
    result.Settled number region parent before behind ∧ (result.graph.nodesOf region).Nodup := by
  obtain ⟨sound, found, shared, place, split, inside, once⟩ := recoverable
  obtain ⟨nodes, gives⟩ := exists_gives written
  rw [Gives, target] at gives
  obtain ⟨document, prepared⟩ := gives
  obtain ⟨parentBound, _⟩ := Region.exists_cuts_of_span? sound.wellFormed (sound.known found) place
  have placed : region.place? scene.document = some ⟨parent, before.getLast?, behind.head?⟩ := by
    rw [Region.place?, shared]
    exact place
  obtain ⟨reconciled, kind⟩ := reconcileRegion_of_place sound target prepared found placed
  have cuts : Span.Cuts ⟨parent, before.getLast?, behind.head?⟩ (document.children parent) before
      between behind := ⟨(prepared.links.children_eq parent parentBound).trans split, rfl, rfl⟩
  obtain ⟨front, back, shown, changed⟩ := sound.linked.exists_split target found
  have fresh := prepared.apart textual sound.wellFormed parentBound
  have present := sound.has_of_shown found
  have resultEq := (write_of_prepares target prepared written).trans reconciled
  -- Other parts of the region show nodes that are there, and what was prepared is new.
  have unique : (front ++ nodes ++ back).Nodup := by
    rw [shown] at once present
    rcases fresh with rfl | ⟨nodesUnique, fresh⟩
    · exact once
    · exact nodup_exchange once nodesUnique fun id member =>
        ⟨fun left => (fresh id member).1 (present id (by simp [left])),
          fun right => (fresh id member).1 (present id (by simp [right]))⟩
  have origin : ∀ id ∈ front ++ nodes ++ back, id ∈ between ∨
      document.parent? id ≠ some parent ∧ ¬ document.IsAbove id parent := by
    intro id member
    simp only [List.mem_append] at member
    rcases member with (left | middle) | right
    · exact Or.inl (inside id (by simp [shown, left]))
    · rcases fresh with rfl | ⟨_, fresh⟩
      · exact Or.inl (inside id (by simp [shown, middle]))
      · exact Or.inr (fresh id middle).2
    · exact Or.inl (inside id (by simp [shown, right]))
  rw [changed] at kind
  have regrouped := Document.fill_among (prepared.wellFormed sound.wellFormed)
    (prepared.links.has parentBound) cuts kind unique origin
  have nodesEq : result.graph.nodesOf region = front ++ nodes ++ back := by
    rw [resultEq]
    exact changed nodes
  refine ⟨⟨?_, ?_⟩, nodesEq ▸ unique⟩
  · have nextFound : (scene.graph.setTarget index (.nodes number nodes nested?)).regions[number]? =
        some region := found
    rw [nodesEq, resultEq, PartGraph.regions_setRegion, if_pos rfl, nextFound, Region.settle, shared,
      changed]
    rfl
  · rw [nodesEq, resultEq]
    dsimp only
    rw [changed, regrouped.children, if_pos rfl]

theorem Settled.recoverable (settled : scene.Settled number region parent before behind)
    (sound : scene.Sound) (shared : region.owning = false)
    (recorded : ∀ known, region.parent? = some known → known = parent)
    (held : region.parent? = none → before.getLast? ≠ none ∨ behind.head? ≠ none)
    (once : (scene.graph.nodesOf region).Nodup) :
    scene.Recoverable number
      { region with
        previous? := before.getLast?
        next? := behind.head?
        rendered := scene.graph.nodesOf region
        detached := false }
      parent before (scene.graph.nodesOf region) behind := by
  refine ⟨sound, settled.found, shared, ?_, settled.split, fun _ member => member, once⟩
  have linked (id : NodeId) (member : id ∈ before ++ scene.graph.nodesOf region ++ behind) :
      scene.document.parent? id = some parent := by
    rwa [← sound.wellFormed.linked, settled.split]
  -- All that could name a parent is among its children: what is rendered and both anchors.
  refine span?_of_parents ?_ ?_ (spanUnder?_of_cuts sound.wellFormed ⟨settled.split, rfl, rfl⟩)
  · cases known : region.parent? with
    | some other => simp [Region.parents]
    | none =>
        obtain ⟨anchor, inside, place⟩ : ∃ anchor, anchor ∈ before ++ scene.graph.nodesOf region ++ behind ∧
            (anchor ∈ behind.head?.toList ∨ anchor ∈ before.getLast?.toList) := by
          rcases held known with left | right
          · obtain ⟨anchor, same⟩ := Option.ne_none_iff_exists'.mp left
            exact ⟨anchor, by simp [List.mem_of_getLast? same], Or.inr (by simp [same])⟩
          · obtain ⟨anchor, same⟩ := Option.ne_none_iff_exists'.mp right
            exact ⟨anchor, by simp [List.mem_of_head? same], Or.inl (by simp [same])⟩
        refine List.ne_nil_of_mem (List.mem_filterMap.mpr ⟨anchor, ?_, linked anchor inside⟩)
        simp only [List.mem_append]
        tauto
  · intro other member
    cases known : region.parent? with
    | some recordedParent =>
        simp only [Region.parents, known, List.mem_singleton] at member
        rw [member, recorded recordedParent known]
    | none =>
        simp only [Region.parents, known, List.mem_filterMap, List.mem_append, Option.mem_toList] at member
        obtain ⟨id, place, parentEq⟩ := member
        have inside : id ∈ before ++ scene.graph.nodesOf region ++ behind := by
          rcases place with (shown | next) | previous
          · simp [shown]
          · simp [List.mem_of_head? next]
          · simp [List.mem_of_getLast? previous]
        rw [linked id inside] at parentEq
        exact (Option.some.inj parentEq).symm

def Rewrites (number : Nat) (scene result : Scene) : Prop :=
  ∃ index content nested? write,
    scene.graph.parts[index]?.map Part.target = some (.nodes number content nested?) ∧
      Write.Legible write ∧ result = (scene.write index write).2

theorem Rewrites.exists_write (rewrites : Rewrites number scene result) :
    ∃ index content nested? write,
      scene.graph.parts[index]?.map Part.target = some (.nodes number content nested?) ∧
        Write.Textual write ∧ scene.write index write = (.ok (), result) := by
  obtain ⟨index, content, nested?, write, target, legible, rfl⟩ := rewrites
  exact ⟨index, content, nested?, write, target, legible.textual,
    Prod.ext (isOk_of_legible legible scene index) rfl⟩

theorem Recoverable.run (recoverable : scene.Recoverable number region parent before between behind)
    (recorded : ∀ known, region.parent? = some known → known = parent)
    (held : region.parent? = none → before.getLast? ≠ none ∨ behind.head? ≠ none)
    (run : Relation.TransGen (Rewrites number) scene result) :
    result.Settled number region parent before behind := by
  suffices all : result.Settled number region parent before behind ∧
      (result.graph.nodesOf region).Nodup ∧ result.Sound from all.1
  induction run with
  | single rewrites =>
      obtain ⟨index, content, nested?, write, target, textual, written⟩ := rewrites.exists_write
      obtain ⟨settled, once⟩ := recoverable.settled target textual written
      have sound := sound_write recoverable.sound index write
      rw [written] at sound
      exact ⟨settled, once, sound⟩
  | tail _ rewrites ih =>
      obtain ⟨earlier, earlierOnce, earlierSound⟩ := ih
      obtain ⟨index, content, nested?, write, target, textual, written⟩ := rewrites.exists_write
      have again := earlier.recoverable earlierSound recoverable.shared recorded held earlierOnce
      obtain ⟨settled, once⟩ := again.settled target textual written
      have sound := sound_write earlierSound index write
      rw [written] at sound
      exact ⟨⟨settled.found, settled.split⟩, once, sound⟩

theorem rendered_of_written (sound : scene.Sound)
    (target : scene.graph.parts[index]?.map Part.target = some (.nodes number content nested?))
    (written : scene.write index write = (.ok (), result))
    (found : result.graph.regions[number]? = some region) (attached : region.detached = false) :
    region.rendered = result.graph.nodesOf region := by
  obtain ⟨nodes, gives⟩ := exists_gives written
  rw [Gives, target] at gives
  obtain ⟨document, prepared⟩ := gives
  obtain ⟨old, oldFound, _⟩ := sound.linked.part target
  have nextFound : (⟨document, scene.graph.setTarget index (.nodes number nodes nested?)⟩ :
      Scene).graph.regions[number]? = some old := oldFound
  have resultEq := write_of_prepares target prepared written
  rw [reconcileRegion_eq _ nextFound] at resultEq
  cases place : old.place? document with
  | none =>
      rw [place] at resultEq
      rw [resultEq, PartGraph.regions_setRegion, if_pos rfl, nextFound, Option.map_some,
        Option.some.injEq] at found
      rw [← found] at attached
      cases attached
  | some span =>
      rw [place] at resultEq
      rw [resultEq, PartGraph.regions_setRegion, if_pos rfl, nextFound, Option.map_some,
        Option.some.injEq] at found
      rw [← found, Region.rendered_settle, resultEq, PartGraph.nodesOf, PartGraph.nodesOf,
        Region.group_settle]
      rfl

/-- After a region was shown and one of its anchors was taken away, the first write to any of its
parts shows it where its nodes are, and further writes keep it there. Between the anchor that is
left and the last rendered node on the other side its nodes take the place of what is there; all
other children of the parent stay. -/
theorem settled_of_lost {document after : Document} (wellFormed : document.WellFormed) (config : Config)
    (template : NodeId) {latest : Nat → List NodeId} {shown : Scene}
    (run : Run (fun _ => True) (instantiate document config template) latest scene)
    (target : scene.graph.parts[index]?.map Part.target = some (.nodes number content nested?))
    (written : scene.write index write = (.ok (), shown))
    (found : shown.graph.regions[number]? = some region) (shared : region.owning = false)
    (attached : region.detached = false) (mutated : shown.document.Leads after)
    (recorded : ∀ known, region.parent? = some known → known = parent)
    (nonempty : region.rendered ≠ [])
    (lost : region.LosesNext after parent ∨ region.LosesPrevious after parent) :
    ∃ before between behind, after.children parent = before ++ between ++ behind ∧
      (region.LosesNext after parent ∧ before.getLast? = region.previous? ∧
          between.getLast? = region.rendered.getLast? ∨
        region.LosesPrevious after parent ∧ behind.head? = region.next? ∧
          between.head? = region.rendered.head?) ∧
      ∀ result, Relation.TransGen (Rewrites number) ⟨after, shown.graph⟩ result →
        result.Settled number region parent before behind := by
  obtain ⟨slots, rows, made⟩ := exists_instantiated wellFormed config template
  have sceneSound := run.sound made.unwritten.toSound
  have shownSound := sound_write sceneSound index write
  rw [written] at shownSound
  obtain ⟨afterFormed, kinds⟩ := mutated.kept shownSound.wellFormed
  have sound := shownSound.of_document afterFormed kinds
  have rendered := rendered_of_written sceneSound target written found attached
  have unique (sublist : region.rendered.Sublist (after.children parent)) :
      (shown.graph.nodesOf region).Nodup := rendered ▸ sublist.nodup (afterFormed.unique parent)
  rcases lost with lost | lost
  · obtain ⟨before, between, behind, split, anchor, last, inside, place⟩ :=
      lost.exists_span afterFormed nonempty recorded
    refine ⟨before, between, behind, split, Or.inl ⟨lost, anchor, last⟩, fun result later => ?_⟩
    have once := unique ((List.sublist_append_right _ _).trans lost.intact)
    have recoverable : Recoverable ⟨after, shown.graph⟩ number region parent before between behind :=
      ⟨sound, found, shared, place, split, rendered ▸ inside, once⟩
    exact recoverable.run recorded (fun free => Or.inl (anchor ▸ lost.held free)) later
  · obtain ⟨before, between, behind, split, anchor, head, inside, place⟩ :=
      lost.exists_span afterFormed nonempty recorded
    refine ⟨before, between, behind, split, Or.inr ⟨lost, anchor, head⟩, fun result later => ?_⟩
    have once := unique ((List.sublist_append_left _ _).trans lost.intact)
    have recoverable : Recoverable ⟨after, shown.graph⟩ number region parent before between behind :=
      ⟨sound, found, shared, place, split, rendered ▸ inside, once⟩
    exact recoverable.run recorded (fun free => Or.inr (anchor ▸ lost.held free)) later

def ruledSource : Document :=
  Document.new.edit (.read "\x7b\x7bx\x7d\x7d<hr>\x7b\x7by\x7d\x7d")

@[irreducible]
def ruledInstance : Scene :=
  instantiate ruledSource .standard ⟨1⟩

def ruledShown : Scene :=
  ruledInstance.setValue 0 (some "old")

def ruledTorn : Document :=
  ruledShown.document.edit (.remove ⟨10⟩)

theorem settled_of_ruled :
    ∃ before between behind, ruledTorn.children ⟨5⟩ = before ++ between ++ behind ∧
      before.getLast? = some ⟨9⟩ ∧ between.getLast? = some ⟨13⟩ ∧
      ∀ result, Relation.TransGen (Rewrites 0) ⟨ruledTorn, ruledShown.graph⟩ result →
        result.Settled 0 ⟨none, some ⟨9⟩, some ⟨10⟩, false, [.part 0], [⟨13⟩], false⟩ ⟨5⟩ before
          behind := by
  have wellFormed : ruledSource.WellFormed :=
    Document.wellFormed_edit Document.wellFormed_new trivial
  have made : instantiate ruledSource .standard ⟨1⟩ = ruledInstance := by rw [ruledInstance]
  have run : Run (fun _ => True) (instantiate ruledSource .standard ⟨1⟩) (fun _ => []) ruledInstance := by
    rw [made]
    exact .start
  have written : ruledInstance.write 0 (.value (some "old")) = (.ok (), ruledShown) := rfl
  have target : ruledInstance.graph.parts[0]?.map Part.target = some (.nodes 0 [] none) := by
    decide +kernel
  have found : ruledShown.graph.regions[0]? =
      some ⟨none, some ⟨9⟩, some ⟨10⟩, false, [.part 0], [⟨13⟩], false⟩ := by
    decide +kernel
  have mutated : ruledShown.document.Leads ruledTorn :=
    .single (@Document.Step.edit _ (.remove ⟨10⟩) trivial)
  have lost : Region.LosesNext ⟨none, some ⟨9⟩, some ⟨10⟩, false, [.part 0], [⟨13⟩], false⟩ ruledTorn
      ⟨5⟩ := ⟨⟨⟨10⟩, rfl, by decide +kernel⟩, by decide +kernel, by simp⟩
  have elsewhere : ¬ Region.LosesPrevious ⟨none, some ⟨9⟩, some ⟨10⟩, false, [.part 0], [⟨13⟩], false⟩
      ruledTorn ⟨5⟩ := by
    rintro ⟨⟨previous, ⟨⟩, displaced⟩, _⟩
    exact displaced (by decide +kernel)
  obtain ⟨before, between, behind, split, side, settled⟩ := settled_of_lost wellFormed .standard ⟨1⟩
    run target written found rfl rfl mutated (by rintro _ ⟨⟩) (by simp) (Or.inl lost)
  obtain ⟨_, anchor, last⟩ := side.resolve_right fun other => elsewhere other.1
  exact ⟨before, between, behind, split, anchor, last, settled⟩

end Scene

end LiveTemplate
