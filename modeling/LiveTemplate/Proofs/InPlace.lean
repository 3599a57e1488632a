import LiveTemplate.Proofs.Runs
import LiveTemplate.Proofs.Seats

/-! Instances whose document only changes by writes to their parts: every region stays where it was
built, and shows its literals and what its parts were given last. -/

namespace LiveTemplate

def Edit.Makes : Edit → Prop
  | .create _ | .read _ | .clone _ _ => True
  | _ => False

theorem Document.extends_edit {document : Document} {edit : Edit} (makes : edit.Makes) :
    (document.edit edit).Extends document := by
  cases edit with
  | create content => exact extends_create _ _
  | read markup =>
      simp only [Document.edit]
      split
      · rename_i fragment result read
        obtain ⟨trees, _, _, rfl⟩ := Scene.Prepares.exists_graft read
        exact extends_graft _ _
      · exact Extends.refl _
  | clone id deep => exact extends_graft _ _
  | insert => exact makes.elim
  | remove => exact makes.elim
  | setData => exact makes.elim
  | setAttribute => exact makes.elim
  | removeAttribute => exact makes.elim

namespace Scene

inductive Writing (start : Scene) : Scene → Prop
  | start : Writing start start
  | edit {scene : Scene} {edit : Edit} : Writing start scene → edit.Makes →
      scene.document.Allows edit → Writing start { scene with document := scene.document.edit edit }
  | write {scene result : Scene} {index : Nat} {write : Write} {outcome : Except PartError Unit} :
      Writing start scene → write.nodes.Nodup →
      (∀ id ∈ write.nodes, scene.document.Has id ∧ ¬ start.document.Has id ∧
        scene.document.parent? id = none) →
      scene.write index write = (outcome, result) → Writing start result

theorem Writing.of_textual {start scene : Scene} (writing : Writing start scene) (index : Nat)
    {write : Write} (textual : write.nodes = []) : Writing start (scene.write index write).2 := by
  refine .write writing (textual ▸ List.nodup_nil) ?_ rfl
  intro id member
  rw [textual] at member
  cases member

def shown (scene : Scene) (built : Region) : Region :=
  { built with rendered := scene.graph.nodesOf built, detached := false }

/-- What holds between writes: the blueprint of the start is still followed, and all that stands
above a node of the start was there from the start. -/
structure Live (scene start : Scene) (rows : List Row) : Prop extends scene.Sound where
  planned : scene.Planned rows
  regions : ∀ index : Nat, scene.graph.regions[index]? = start.graph.regions[index]?.map scene.shown
  has : ∀ id, start.document.Has id → scene.document.Has id
  homes : ∀ row ∈ rows, start.document.Has row.home
  parent : ∀ id, start.document.Has id → ∀ parent, scene.document.parent? id = some parent →
    start.document.Has parent
  texts : ∀ row ∈ rows, ∀ id text, .node id (.text text) ∈ row.slots →
    scene.document.content id = .text text
  fragment : scene.graph.fragment = start.graph.fragment

variable {start scene result : Scene} {rows : List Row} {index number : Nat}
  {content nodes : List NodeId} {nested? : Option Nested} {write : Write} {document : Document}
  {region : Region} {row : Row} {before after : List Slot} {source : Source}

theorem shown_congr (same : ∀ part, result.graph.contentOf part = scene.graph.contentOf part) :
    result.shown = scene.shown := by
  funext built
  rw [shown, shown, PartGraph.nodesOf_congr built fun part _ => same part]

theorem Live.rendered (live : scene.Live start rows)
    (found : scene.graph.regions[index]? = some region) :
    region.rendered = scene.graph.nodesOf region ∧ region.detached = false := by
  rw [live.regions, Option.map_eq_some_iff] at found
  obtain ⟨built, _, rfl⟩ := found
  exact ⟨rfl, rfl⟩

theorem Live.region_of_built (live : scene.Live start rows) {built : Region}
    (found : start.graph.regions[index]? = some built) :
    scene.graph.regions[index]? = some (scene.shown built) := by
  rw [live.regions, found]
  rfl

theorem Live.has_of_isAbove (live : scene.Live start rows) {id other : NodeId}
    (above : scene.document.IsAbove other id) (old : start.document.Has id) :
    start.document.Has other := by
  induction above using Relation.ReflTransGen.head_induction_on with
  | refl => exact old
  | head linked _ ih => exact live.parent _ ih _ linked

theorem Live.mem_of_content (live : scene.Live start rows)
    (target : scene.graph.parts[index]?.map Part.target = some (.nodes number content nested?))
    (member : row ∈ rows) (split : row.slots = before ++ .region number source :: after)
    (found : scene.graph.regions[number]? = some region) {id : NodeId} (inside : id ∈ content) :
    id ∈ scene.document.children row.home := by
  obtain ⟨front, back, shown, _⟩ := live.linked.exists_split target found
  rw [live.planned.children_split member split found, shown]
  simp [inside]

theorem Live.mem_of_listed (live : scene.Live start rows)
    (target : scene.graph.parts[index]?.map Part.target = some (.nodes number content nested?))
    (member : row ∈ rows) (split : row.slots = before ++ .region number source :: after)
    (found : scene.graph.regions[number]? = some region) {id : NodeId}
    (inside : id ∈ scene.graph.expand before ++
      (scene.graph.setTarget index (.nodes number nodes nested?)).nodesOf region ++
        scene.graph.expand after) : id ∈ scene.document.children row.home ∨ id ∈ nodes := by
  obtain ⟨front, back, shown, changed⟩ := live.linked.exists_split target found
  rw [changed] at inside
  rw [live.planned.children_split member split found, shown]
  simp only [List.mem_append] at inside ⊢
  tauto

theorem Live.of_quiet (live : scene.Live start rows) (quiet : result.Quiet scene) :
    result.Live start rows where
  toSound := live.toSound.of_quiet quiet
  planned := by
    have expandEq (slots : List Slot) : result.graph.expand slots = scene.graph.expand slots := by
      apply PartGraph.expand_congr
      intro index _
      rw [quiet.regions]
      congr 1
      funext region
      exact PartGraph.nodesOf_congr region fun part _ => quiet.content part
    refine ⟨?_, ?_, live.planned.homes, ?_, ?_, ?_⟩
    · intro row member
      rw [quiet.links.children_eq _ (live.planned.has row member), expandEq]
      exact live.planned.laid row member
    · intro row member
      refine (live.planned.framed row member).congr ?_
      intro index _ region found
      exact ⟨region, by rw [quiet.regions, found], fun _ _ fits => fits⟩
    · exact fun row member => quiet.kinds.has (live.planned.has row member)
    · rw [quiet.fragment]
      exact live.planned.recorded
    · rw [quiet.regions]
      exact live.planned.counts
  regions := by
    rw [quiet.regions, shown_congr quiet.content]
    exact live.regions
  has := fun id old => quiet.kinds.has (live.has id old)
  homes := live.homes
  parent := by
    intro id old parent linked
    rw [quiet.links.parent?_eq id (live.has id old)] at linked
    exact live.parent id old parent linked
  texts := fun row member id text fixed => quiet.texts (live.texts row member id text fixed)
  fragment := quiet.fragment.trans live.fragment

theorem Live.eq_or_new (live : scene.Live start rows)
    (prepared : scene.Prepares number content write document nodes) (unique : write.nodes.Nodup)
    (brought : ∀ id ∈ write.nodes, scene.document.Has id ∧ ¬ start.document.Has id ∧
      scene.document.parent? id = none) :
    nodes = content ∨ nodes.Nodup ∧ ∀ id ∈ nodes,
      ¬ start.document.Has id ∧ scene.document.parent? id = none := by
  refine (prepared.eq_or_new live.wellFormed unique fun id member => (brought id member).1).imp_right ?_
  rintro ⟨nodesUnique, origin⟩
  refine ⟨nodesUnique, fun id member => ?_⟩
  rcases origin id member with given | new
  · exact (brought id given).2
  · refine ⟨fun old => new (live.has id old), ?_⟩
    cases linked : scene.document.parent? id with
    | none => rfl
    | some parent => exact (new (Document.has_of_parent? linked)).elim

structure Exchange (start scene result : Scene) (rows : List Row) (document : Document)
    (graph : PartGraph) (number : Nat) (region : Region) (row : Row) (before after : List Slot) :
    Prop where
  found : scene.graph.regions[number]? = some region
  member : row ∈ rows
  split : ∃ source, row.slots = before ++ .region number source :: after
  elsewhere : ∀ other ∈ rows, number ∈ other.regions → other = row
  once : number ∉ (before ++ after).flatMap Slot.regions
  links : document.KeepsLinks scene.document
  regions : graph.regions = scene.graph.regions
  others : ∀ (other : Nat) (shown : Region), scene.graph.regions[other]? = some shown →
    other ≠ number → graph.nodesOf shown = scene.graph.nodesOf shown
  fragment : graph.fragment = scene.graph.fragment
  origin : ∀ id ∈ graph.nodesOf region, scene.document.parent? id = some row.home ∨
    scene.document.parent? id = none ∧ ¬ start.document.Has id
  regrouped : document.Regrouped row.home
    (scene.graph.expand before ++ graph.nodesOf region ++ scene.graph.expand after) result.document
  graph : result.graph = graph.setRegion number
    { region with rendered := graph.nodesOf region, detached := false }

theorem Live.exists_exchange (live : scene.Live start rows)
    (target : scene.graph.parts[index]?.map Part.target = some (.nodes number content nested?))
    (prepared : scene.Prepares number content write document nodes) (unique : write.nodes.Nodup)
    (brought : ∀ id ∈ write.nodes, scene.document.Has id ∧ ¬ start.document.Has id ∧
      scene.document.parent? id = none) :
    ∃ region row before after, Exchange start scene
      (reconcileRegion ⟨document, scene.graph.setTarget index (.nodes number nodes nested?)⟩ number)
      rows document (scene.graph.setTarget index (.nodes number nodes nested?)) number region row before
      after := by
  have wellFormed := live.wellFormed
  obtain ⟨region, found, _⟩ := live.linked.part target
  obtain ⟨row, member, before, source, after, split, elsewhere, once⟩ := live.planned.exists_row found
  obtain ⟨span, placed, parentEq, cuts, settled, _⟩ :=
    live.planned.exists_place live.toSound member split found (live.rendered found).1
  obtain ⟨front, back, shown, changed⟩ := live.linked.exists_split target found
  have homeHas := live.planned.has row member
  have fresh := live.eq_or_new prepared unique brought
  have nodesEq := changed nodes
  have origin : ∀ id ∈ front ++ nodes ++ back, scene.document.parent? id = some row.home ∨
      scene.document.parent? id = none ∧ ¬ start.document.Has id := by
    have old (id : NodeId) (inside : id ∈ front ++ content ++ back) :
        scene.document.parent? id = some row.home :=
      live.planned.parent?_of_shown wellFormed member split found (shown ▸ inside)
    intro id inside
    simp only [List.mem_append] at inside
    rcases inside with (left | inside) | right
    · exact Or.inl (old id (by simp [left]))
    · rcases fresh with rfl | ⟨_, new⟩
      · exact Or.inl (old id (by simp [inside]))
      · exact Or.inr (new id inside).symm
    · exact Or.inl (old id (by simp [right]))
  rw [← parentEq] at homeHas cuts
  -- What is above a node of the start was there from the start, and new nodes are not.
  have apart : nodes = content ∨ nodes.Nodup ∧ ∀ id ∈ nodes,
      document.parent? id ≠ some span.parent ∧ ¬ document.IsAbove id span.parent := by
    refine fresh.imp_right ?_
    rintro ⟨nodesUnique, new⟩
    refine ⟨nodesUnique, fun id inside => ⟨?_, ?_⟩⟩
    · intro linked
      rw [← (prepared.wellFormed wellFormed).linked, prepared.links.children_eq _ homeHas,
        wellFormed.linked, (new id inside).2] at linked
      cases linked
    · intro above
      rw [prepared.links.isAbove_iff wellFormed homeHas] at above
      exact (new id inside).1 (live.has_of_isAbove above (parentEq ▸ live.homes row member))
  refine ⟨region, row, before, after, found, member, ⟨source, split⟩, elsewhere, once, prepared.links,
    rfl, fun other shown otherFound differ => live.linked.nodesOf_other target otherFound differ, rfl,
    nodesEq ▸ origin, ?_, ?_⟩
  · rw [← parentEq]
    exact regrouped_of_place live.toSound target prepared found placed cuts apart
  · rw [(reconcileRegion_of_place live.toSound target prepared found placed).1, settled]

namespace Exchange

variable {row : Row} {before after : List Slot} {graph : PartGraph}
  (exchange : Exchange start scene result rows document graph number region row before after)

include exchange

theorem regions_eq (other : Nat) :
    result.graph.regions[other]? = if number = other then
      some { region with rendered := graph.nodesOf region, detached := false }
      else scene.graph.regions[other]? := by
  rw [exchange.graph, PartGraph.regions_setRegion, exchange.regions]
  split
  · rename_i equal
    subst equal
    rw [exchange.found]
    rfl
  · rfl

theorem nodesOf_eq (shown : Region) : result.graph.nodesOf shown = graph.nodesOf shown := by
  rw [exchange.graph, PartGraph.nodesOf_setRegion]

theorem expand_eq {slots : List Slot} (absent : number ∉ slots.flatMap Slot.regions) :
    result.graph.expand slots = scene.graph.expand slots := by
  apply PartGraph.expand_congr
  intro other inside
  have differ : other ≠ number := by
    rintro rfl
    exact absent inside
  rw [exchange.regions_eq, if_neg (Ne.symm differ)]
  cases found : scene.graph.regions[other]? with
  | none => rfl
  | some shown =>
      rw [Option.map_some, Option.map_some, exchange.nodesOf_eq, exchange.others other shown found differ]

/-- The listed nodes stood under the same parent, or nowhere. -/
theorem origin_listed (planned : scene.Planned rows) (wellFormed : scene.document.WellFormed)
    {id : NodeId} (listed : id ∈ scene.graph.expand before ++ graph.nodesOf region ++
      scene.graph.expand after) : scene.document.parent? id = some row.home ∨
        scene.document.parent? id = none ∧ ¬ start.document.Has id := by
  obtain ⟨source, split⟩ := exchange.split
  have beside (slots : List Slot) (subset : ∀ slot ∈ slots, slot ∈ row.slots)
      (inside : id ∈ scene.graph.expand slots) : scene.document.parent? id = some row.home := by
    obtain ⟨slot, slotMember, shown⟩ := PartGraph.mem_expand.mp inside
    exact planned.parent?_of_slot wellFormed exchange.member (subset slot slotMember) shown
  simp only [List.mem_append] at listed
  rcases listed with (left | inside) | right
  · exact Or.inl (beside before (fun slot member => by simp [split, member]) left)
  · exact exchange.origin id inside
  · exact Or.inl (beside after (fun slot member => by simp [split, member]) right)

theorem planned (planned : scene.Planned rows) (wellFormed : scene.document.WellFormed) :
    result.Planned rows where
  laid := by
    intro other otherMember
    rw [exchange.regrouped.children]
    by_cases same : other.home = row.home
    · obtain rfl := planned.row_eq otherMember exchange.member same
      obtain ⟨source, split⟩ := exchange.split
      have once := exchange.once
      rw [List.flatMap_append, List.mem_append, not_or] at once
      rw [if_pos rfl, split, PartGraph.expand_append, PartGraph.expand_cons, exchange.expand_eq once.1,
        exchange.expand_eq once.2, PartGraph.slotNodes, exchange.regions_eq, if_pos rfl,
        Option.map_some, exchange.nodesOf_eq, List.append_assoc]
      rfl
    -- Listed nodes came from the parent itself or from nowhere, so that other rows lose none.
    · have absent : number ∉ other.regions := by
        intro inside
        rw [exchange.elsewhere other otherMember inside] at same
        exact same rfl
      rw [if_neg same, exchange.links.children_eq _ (planned.has other otherMember),
        exchange.expand_eq absent, ← planned.laid other otherMember, List.filter_eq_self]
      intro id child
      rw [wellFormed.linked] at child
      refine decide_eq_true fun listed => ?_
      rcases exchange.origin_listed planned wellFormed listed with linked | ⟨free, _⟩
      · rw [linked, Option.some.injEq] at child
        exact same child.symm
      · rw [free] at child
        cases child
  framed := by
    intro other otherMember
    refine (planned.framed other otherMember).congr ?_
    intro index _ shown found
    rw [exchange.regions_eq]
    split
    · rename_i equal
      subst equal
      cases exchange.found.symm.trans found
      exact ⟨_, rfl, fun _ _ fits => ⟨fits.parent, fits.alone, fits.previous, fits.next, fits.outer⟩⟩
    · exact ⟨shown, found, fun _ _ fits => fits⟩
  homes := planned.homes
  has := fun other member =>
    (exchange.regrouped.has_iff _).mpr (exchange.links.has (planned.has other member))
  recorded := by
    rw [exchange.graph]
    exact exchange.fragment ▸ planned.recorded
  counts := by
    have size : result.graph.regions.size = scene.graph.regions.size := by
      rw [exchange.graph, PartGraph.setRegion, Array.size_setIfInBounds, exchange.regions]
    rw [size]
    exact planned.counts

end Exchange

/-- A prepared write leaves everything live. -/
theorem Live.of_prepares (live : scene.Live start rows)
    (target : scene.graph.parts[index]?.map Part.target = some (.nodes number content nested?))
    (prepared : scene.Prepares number content write document nodes) (unique : write.nodes.Nodup)
    (brought : ∀ id ∈ write.nodes, scene.document.Has id ∧ ¬ start.document.Has id ∧
      scene.document.parent? id = none) :
    (reconcileRegion ⟨document, scene.graph.setTarget index (.nodes number nodes nested?)⟩
      number).Live start rows := by
  have wellFormed := live.wellFormed
  obtain ⟨region, row, before, after, exchange⟩ :=
    live.exists_exchange target prepared unique brought
  have sound := sound_reconcileRegion (live.toSound.of_prepares target prepared) number
  generalize reconcileRegion ⟨document, scene.graph.setTarget index (.nodes number nodes nested?)⟩
    number = result at exchange sound ⊢
  refine ⟨sound, exchange.planned live.planned wellFormed, ?_, ?_, live.homes, ?_, ?_, ?_⟩
  · intro other
    rw [exchange.regions_eq]
    split
    · rename_i equal
      subst equal
      obtain ⟨built, builtFound, rfl⟩ :=
        Option.map_eq_some_iff.mp ((live.regions _).symm.trans exchange.found)
      have shownEq : result.shown built = { built with
          rendered := (scene.graph.setTarget index (.nodes number nodes nested?)).nodesOf built
          detached := false } := by
        rw [shown, exchange.nodesOf_eq]
      rw [builtFound, Option.map_some, shownEq]
      rfl
    · rename_i differ
      have otherFound := live.regions other
      cases builtFound : start.graph.regions[other]? with
      | none => rw [otherFound, builtFound]; rfl
      | some built =>
          rw [builtFound] at otherFound
          have same : result.graph.nodesOf built = scene.graph.nodesOf built :=
            (exchange.nodesOf_eq built).trans
              (exchange.others other (scene.shown built) otherFound (Ne.symm differ))
          rw [otherFound, Option.map_some, Option.map_some, shown, shown, same]
  · exact fun id old => (exchange.regrouped.has_iff id).mpr (prepared.links.has (live.has id old))
  · intro id old parent linked
    rw [exchange.regrouped.parent?] at linked
    split at linked
    · rw [← Option.some.inj linked]
      exact live.homes row exchange.member
    · split at linked
      · cases linked
      · rw [prepared.links.parent?_eq id (live.has id old)] at linked
        exact live.parent id old parent linked
  -- A fixed text is shown by no part, and only what a part shows is written over.
  · intro other otherMember id text fixed
    have content := live.texts other otherMember id text fixed
    have apart := live.planned.not_shown_of_slot live.toSound target otherMember fixed
    rw [exchange.regrouped.content, prepared.content_eq (Document.has_of_text content) apart, content]
  · rw [exchange.graph]
    exact live.fragment

theorem Live.of_write (live : scene.Live start rows) (unique : write.nodes.Nodup)
    (brought : ∀ id ∈ write.nodes, scene.document.Has id ∧ ¬ start.document.Has id ∧
      scene.document.parent? id = none) : (scene.write index write).2.Live start rows := by
  by_cases shows : ∃ number content nested?,
      scene.graph.parts[index]?.map Part.target = some (.nodes number content nested?)
  · obtain ⟨number, content, nested?, target⟩ := shows
    rcases scene.write_cases target write with ⟨error, refused⟩ | ⟨document, nodes, prepared, written⟩
    · rw [refused]
      exact live
    · rw [written]
      exact live.of_prepares target prepared unique brought
  · push Not at shows
    exact live.of_quiet (quiet_write scene shows write)

theorem Writing.live (writing : Writing start scene) (live : start.Live start rows) :
    scene.Live start rows := by
  induction writing with
  | start => exact live
  | @edit scene edit _ makes allowed ih =>
      exact ih.of_quiet (Quiet.of_extends
        (fun wellFormed => Document.wellFormed_edit wellFormed allowed) (Document.extends_edit makes))
  | @write scene result index write outcome _ unique brought written ih =>
      have kept : (scene.write index write).2.Live start rows := ih.of_write unique brought
      rwa [written] at kept

theorem Instantiated.live {config : Config} {template : NodeId} {slots : List Slot}
    (made : Instantiated document config template start slots rows) :
    start.Live start (⟨start.graph.fragment, none, slots⟩ :: rows) where
  toSound := made.unwritten.toSound
  planned := made.planned
  regions := by
    intro index
    cases found : start.graph.regions[index]? with
    | none => rfl
    | some region =>
        obtain ⟨rendered, attached⟩ := made.unwritten.settled found
        rw [Option.map_some, shown, ← rendered, ← attached]
  has := fun _ old => old
  homes := made.planned.has
  parent := fun _ _ _ linked => made.unwritten.wellFormed.has_parent linked
  texts := by
    intro row member id text fixed
    obtain ⟨entries, same⟩ := (made.shows row member _ fixed : start.Displays id (.text text)).same
    exact same
  fragment := rfl

/-- All regions are where they were built: no region is detached, all of a parent or all between the
anchors recorded for a region is what the region shows, regions share no nodes and hold no anchors,
and the regions of the content itself lie between empty texts in the instance's fragment. -/
structure InPlace (scene start : Scene) : Prop where
  regions : ∀ index : Nat, scene.graph.regions[index]? = start.graph.regions[index]?.map scene.shown
  owned : ∀ {index : Nat} {region : Region}, scene.graph.regions[index]? = some region →
    region.owning = true → ∃ parent, region.parent? = some parent ∧
      scene.document.children parent = region.rendered
  resolved : ∀ {index : Nat} {region : Region}, scene.graph.regions[index]? = some region →
    region.owning = false → ∃ parent,
      region.span? scene.document = some ⟨parent, region.previous?, region.next?⟩ ∧
      ∃ before after, Span.Cuts ⟨parent, region.previous?, region.next?⟩
        (scene.document.children parent) before region.rendered after
  disjoint : ∀ {index other : Nat} {region another : Region},
    scene.graph.regions[index]? = some region → scene.graph.regions[other]? = some another →
      index ≠ other → region.rendered.Disjoint another.rendered
  anchors : ∀ {index other : Nat} {region another : Region},
    scene.graph.regions[index]? = some region → scene.graph.regions[other]? = some another →
      region.owning = false → ∀ id, region.previous? = some id ∨ region.next? = some id →
        id ∉ another.rendered
  outer : ∀ {index : Nat} {region : Region}, scene.graph.regions[index]? = some region →
    region.parent? = none → region.owning = false ∧ ∃ previous next,
      region.previous? = some previous ∧ region.next? = some next ∧
      scene.document.content previous = .text "" ∧ scene.document.content next = .text "" ∧
      scene.document.parent? previous = some start.graph.fragment ∧
      scene.document.parent? next = some start.graph.fragment

theorem Live.inPlace (live : scene.Live start rows) : scene.InPlace start where
  regions := live.regions
  owned := by
    intro index region found owning
    obtain ⟨row, member, before, source, after, split, _, _⟩ := live.planned.exists_row found
    obtain ⟨_, _, _, _, _, _, whole⟩ :=
      live.planned.exists_place live.toSound member split found (live.rendered found).1
    obtain ⟨parent, rfl, rfl⟩ := whole owning
    refine ⟨row.home, parent, ?_⟩
    rw [live.planned.children_split member split found, (live.rendered found).1]
    simp
  resolved := by
    intro index region found shared
    obtain ⟨row, member, before, source, after, split, _, _⟩ := live.planned.exists_row found
    obtain ⟨span, placed, parentEq, cuts, _, spanFound, _⟩ :=
      live.planned.exists_place live.toSound member split found (live.rendered found).1
    rw [Region.place?, shared] at placed
    cases placed.symm.trans (spanFound shared)
    exact ⟨row.home, spanFound shared, _, _, (live.rendered found).1 ▸ cuts⟩
  disjoint := by
    intro index other region another found otherFound differ id inside
    rw [(live.rendered found).1] at inside
    rw [(live.rendered otherFound).1]
    exact live.planned.not_shown_of_other live.wellFormed otherFound found differ inside
  anchors := by
    intro index other region another found otherFound shared id anchor
    obtain ⟨row, member, content, fixed⟩ := live.planned.exists_fixed found shared anchor
    rw [(live.rendered otherFound).1]
    exact live.planned.not_shown_of_fixed live.wellFormed otherFound member fixed
  outer := by
    intro index region found free
    obtain ⟨shared, row, member, home, previous, next, previousEq, nextEq, left, right⟩ :=
      live.planned.exists_outer found free
    refine ⟨shared, previous, next, previousEq, nextEq, live.texts row member _ _ left,
      live.texts row member _ _ right, ?_, ?_⟩
    · rw [← live.fragment, ← home]
      exact live.planned.parent?_of_slot live.wellFormed member left (by simp [PartGraph.slotNodes])
    · rw [← live.fragment, ← home]
      exact live.planned.parent?_of_slot live.wellFormed member right (by simp [PartGraph.slotNodes])

/-- As long as only its parts are written to, every region of an instance is in place. -/
theorem inPlace_of_writing {document : Document} (wellFormed : document.WellFormed) (config : Config)
    (template : NodeId) (writing : Writing (instantiate document config template) scene) :
    scene.InPlace (instantiate document config template) := by
  obtain ⟨slots, rows, made⟩ := exists_instantiated wellFormed config template
  exact (writing.live made.live).inPlace

def layeredSource : Document :=
  Document.new.edit (.read "\x7b\x7bx\x7d\x7d<p>\x7b\x7by\x7d\x7d</p>")

@[irreducible]
def layeredInstance : Scene :=
  instantiate layeredSource .standard ⟨1⟩

def markedInstance : Scene :=
  (layeredInstance.write 0 (.markup "<i></i>and")).2

def extendedInstance : Scene :=
  ⟨markedInstance.document.edit (.create (.comment "note")), markedInstance.graph⟩

theorem inPlace_of_layered :
    ∃ result, extendedInstance.write 1 (.items [.text "with", .node ⟨14⟩]) = (.ok (), result) ∧
      Writing layeredInstance result ∧ result.InPlace layeredInstance := by
  have wellFormed : layeredSource.WellFormed :=
    Document.wellFormed_edit Document.wellFormed_new trivial
  obtain ⟨result, written⟩ : ∃ result,
      extendedInstance.write 1 (.items [.text "with", .node ⟨14⟩]) = (.ok (), result) :=
    exists_next (by decide +kernel)
  have marked : Writing layeredInstance markedInstance :=
    Writing.of_textual .start 0 rfl
  have extended : Writing layeredInstance extendedInstance :=
    @Writing.edit _ _ (.create (.comment "note")) marked trivial rfl
  have size : 14 < extendedInstance.document.size := by decide +kernel
  have startSize : layeredInstance.document.size ≤ 14 := by decide +kernel
  have parent : extendedInstance.document.parent? ⟨14⟩ = none := by decide +kernel
  have writing : Writing layeredInstance result := by
    have brought : (Write.items [.text "with", .node ⟨14⟩]).nodes = [⟨14⟩] := rfl
    refine .write extended (brought ▸ List.nodup_singleton _) ?_ written
    intro id member
    rw [brought] at member
    rw [List.mem_singleton.mp member]
    exact ⟨size, Nat.not_lt.mpr startSize, parent⟩
  refine ⟨result, written, writing, ?_⟩
  rw [layeredInstance] at writing ⊢
  exact inPlace_of_writing wellFormed .standard ⟨1⟩ writing

end Scene

end LiveTemplate
