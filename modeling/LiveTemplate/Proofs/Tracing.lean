import LiveTemplate.Proofs.OrderPreservation
import LiveTemplate.Proofs.Seats

/-! Under which parent a region without a recorded one is found. A missing anchor counts as in place
everywhere, so a region with one anchor may follow a rendered node instead of it, and one without
anchors follows nothing else. -/

namespace LiveTemplate

namespace Region

def Anchors (region : Region) (anchor : NodeId) : Prop :=
  region.previous? = some anchor ∨ region.next? = some anchor

def Sole (region : Region) (anchor : NodeId) : Prop :=
  region.previous? = some anchor ∧ region.next? = none ∨
    region.previous? = none ∧ region.next? = some anchor

def standIn? (region : Region) : Option NodeId :=
  match region.previous?, region.next? with
  | some _, none => region.rendered.head?
  | none, some _ => region.rendered.getLast?
  | _, _ => none

/-- Nothing leads a search to another parent first: without anchors, the first rendered node that
stands anywhere stands there, and with one anchor, a rendered node there comes before all nodes beside
the one that stands in for the anchor. -/
structure PointsTo (region : Region) (document : Document) (parent : NodeId) : Prop where
  unframed : region.previous? = none → region.next? = none →
    (region.rendered.filterMap document.parent?).head? = some parent
  framed : ∀ id other, region.standIn? = some id → document.parent? id = some other →
    (region.rendered.filterMap document.parent?).find? (fun known => known = parent ∨ known = other) =
      some parent

variable {region : Region} {document : Document} {parent holder anchor known : NodeId} {span : Span}

theorem parent_of_spanUnder? (wellFormed : document.WellFormed)
    (found : region.spanUnder? document parent = some span) : span.parent = parent := by
  rw [spanUnder?_eq, Option.filter_eq_some_iff] at found
  exact (linked_of_candidate? wellFormed found.1).1

theorem find?_parents (wellFormed : document.WellFormed) (found : region.span? document = some span) :
    (region.parents document).find? (fun known => (region.spanUnder? document known).isSome) =
      some span.parent := by
  obtain ⟨before, first, after, split, under, skipped⟩ := List.findSome?_eq_some_iff.mp found
  rw [List.find?_eq_some_iff_append, parent_of_spanUnder? wellFormed under]
  refine ⟨by simp [under], before, after, split, ?_⟩
  intro id member
  simp [skipped id member]

theorem isSome_spanUnder? (sole : region.Sole anchor) :
    (region.spanUnder? document known).isSome = true ↔
      document.parent? anchor = some known ∨ region.standIn?.bind document.parent? = some known := by
  rw [← document.isChild_iff]
  cases stays : document.isChild anchor known with
  | true =>
      rcases sole with ⟨previous, next⟩ | ⟨previous, next⟩ <;>
        simp [spanUnder?_eq, candidate?, previous, next, stays, Span.isOrdered]
  | false =>
      rcases sole with ⟨previous, next⟩ | ⟨previous, next⟩
      · cases head : region.rendered.head? with
        | none => simp [spanUnder?_eq, candidate?, previous, next, stays, standIn?, head]
        | some first =>
            have standIn : region.standIn? = some first := by simp [standIn?, previous, next, head]
            rw [standIn, Option.bind_some, ← document.isChild_iff]
            cases linked : document.isChild first known <;>
              simp [spanUnder?_eq, candidate?, previous, next, stays, head, Span.isOrdered,
                Option.filter, linked]
      · cases final : region.rendered.getLast? with
        | none => simp [spanUnder?_eq, candidate?, previous, next, stays, standIn?, final]
        | some last =>
            have standIn : region.standIn? = some last := by simp [standIn?, previous, next, final]
            rw [standIn, Option.bind_some, ← document.isChild_iff]
            cases linked : document.isChild last known <;>
              simp [spanUnder?_eq, candidate?, previous, next, stays, final, Span.isOrdered,
                Option.filter, linked]

theorem mem_rendered_of_standIn {id : NodeId} (standIn : region.standIn? = some id) :
    id ∈ region.rendered := by
  rw [standIn?] at standIn
  split at standIn
  · exact List.mem_of_head? standIn
  · exact List.mem_of_getLast? standIn
  · cases standIn

/-- A region with one anchor is found where that is, as long as it points there. -/
theorem parent_eq_iff_pointsTo (wellFormed : document.WellFormed) (outer : region.parent? = none)
    (sole : region.Sole anchor) (held : document.parent? anchor = some holder)
    (found : region.span? document = some span) :
    span.parent = holder ↔ region.PointsTo document holder := by
  -- The parent of the anchor is tried last, so a rendered node may lead elsewhere before.
  have parentsEq : region.parents document =
      region.rendered.filterMap document.parent? ++ [holder] := by
    rcases sole with ⟨previous, next⟩ | ⟨previous, next⟩ <;>
      simp [parents, outer, previous, next, held]
  have unframed : ¬ (region.previous? = none ∧ region.next? = none) := by
    rcases sole with ⟨previous, next⟩ | ⟨previous, next⟩ <;> simp [previous, next]
  have first := find?_parents wellFormed found
  have searched : (fun known => (region.spanUnder? document known).isSome) =
      fun known => decide (known = holder ∨ region.standIn?.bind document.parent? = some known) := by
    funext known
    rw [Bool.eq_iff_iff, isSome_spanUnder? sole, held, decide_eq_true_eq, Option.some.injEq,
      eq_comm (a := holder)]
  rw [searched] at first
  cases beside : region.standIn?.bind document.parent? with
  | none =>
      have here : span.parent = holder := by simpa [beside] using List.find?_some first
      refine ⟨fun _ => ⟨fun previous next => (unframed ⟨previous, next⟩).elim, ?_⟩, fun _ => here⟩
      intro id other standIn linked
      simp [standIn, linked] at beside
  | some other =>
      obtain ⟨id, standIn, linked⟩ := Option.bind_eq_some_iff.mp beside
      have listed : other ∈ region.rendered.filterMap document.parent? :=
        List.mem_filterMap.mpr ⟨id, mem_rendered_of_standIn standIn, linked⟩
      have chosen : (region.rendered.filterMap document.parent?).find?
          (fun known => known = holder ∨ known = other) = some span.parent := by
        simp only [beside, Option.some.injEq, eq_comm (a := other)] at first
        have rendered : ((region.rendered.filterMap document.parent?).find?
            (fun known => known = holder ∨ known = other)).isSome = true :=
          List.find?_isSome.mpr ⟨other, listed, by simp⟩
        rwa [parentsEq, List.find?_append, Option.or_of_isSome rendered] at first
      constructor
      · rintro rfl
        refine ⟨fun previous next => (unframed ⟨previous, next⟩).elim, ?_⟩
        intro shown known shownStandIn shownLinked
        cases standIn.symm.trans shownStandIn
        cases linked.symm.trans shownLinked
        exact chosen
      · intro points
        exact Option.some.inj (chosen.symm.trans (points.framed id other standIn linked))

theorem spanUnder?_of_span? (wellFormed : document.WellFormed)
    (found : region.span? document = some span) :
    region.spanUnder? document span.parent = some span := by
  obtain ⟨known, _, under⟩ := List.exists_of_findSome?_eq_some found
  rwa [parent_of_spanUnder? wellFormed under]

theorem sole_or_framed (anchors : region.Anchors anchor) :
    region.Sole anchor ∨
      ∃ first second, region.previous? = some first ∧ region.next? = some second := by
  rcases anchors with previous | next
  · cases next : region.next? with
    | none => exact Or.inl (Or.inl ⟨previous, next⟩)
    | some second => exact Or.inr ⟨anchor, second, previous, rfl⟩
  · cases previous : region.previous? with
    | none => exact Or.inl (Or.inr ⟨previous, next⟩)
    | some first => exact Or.inr ⟨first, anchor, rfl, next⟩

theorem anchors_or_unframed (region : Region) :
    (∃ anchor, region.Anchors anchor) ∨ region.previous? = none ∧ region.next? = none := by
  cases previous : region.previous? with
  | some first => exact Or.inl ⟨first, Or.inl previous⟩
  | none =>
      cases next : region.next? with
      | some second => exact Or.inl ⟨second, Or.inr next⟩
      | none => exact Or.inr ⟨rfl, rfl⟩

theorem pointsTo_of_framed {first second : NodeId} (previous : region.previous? = some first)
    (next : region.next? = some second) : region.PointsTo document parent where
  unframed := by
    intro missing
    rw [previous] at missing
    cases missing
  framed := by
    intro id other standIn
    simp [standIn?, previous, next] at standIn

theorem exists_anchor_of_framed (wellFormed : document.WellFormed) {first second : NodeId}
    (previous : region.previous? = some first) (next : region.next? = some second)
    (found : region.span? document = some span) :
    ∃ anchor, region.Anchors anchor ∧ document.parent? anchor = some span.parent := by
  have under := spanUnder?_of_span? wellFormed found
  rw [spanUnder?_eq, Option.filter_eq_some_iff, candidate?] at under
  by_cases before : document.isChild first span.parent = true
  · exact ⟨first, Or.inl previous, (document.isChild_iff _ _).mp before⟩
  · by_cases behind : document.isChild second span.parent = true
    · exact ⟨second, Or.inr next, (document.isChild_iff _ _).mp behind⟩
    · simp [previous, next, before, behind] at under

/-- A region that still has an anchor somewhere is found where an anchor is, exactly if it points
there. -/
theorem exists_anchor_iff_pointsTo (wellFormed : document.WellFormed) (outer : region.parent? = none)
    (anchors : region.Anchors anchor) (held : document.parent? anchor = some holder)
    (found : region.span? document = some span) :
    (∃ anchor, region.Anchors anchor ∧ document.parent? anchor = some span.parent) ↔
      region.PointsTo document holder := by
  rcases sole_or_framed anchors with sole | ⟨first, second, previous, next⟩
  · rw [← parent_eq_iff_pointsTo wellFormed outer sole held found]
    constructor
    · rintro ⟨other, otherAnchors, linked⟩
      have same : other = anchor := by
        rcases sole with ⟨previous, next⟩ | ⟨previous, next⟩ <;>
          simpa [Anchors, previous, next, eq_comm] using otherAnchors
      rw [same, held] at linked
      exact (Option.some.inj linked).symm
    · intro here
      exact ⟨anchor, anchors, here ▸ held⟩
  · exact iff_of_true (exists_anchor_of_framed wellFormed previous next found)
      (pointsTo_of_framed previous next)

/-- A region whose anchors are in place under a parent is found there, exactly if it points there. -/
theorem span?_iff_pointsTo (wellFormed : document.WellFormed) (outer : region.parent? = none)
    (under : region.spanUnder? document parent =
      some ⟨parent, region.previous?, region.next?⟩) :
    region.span? document = some ⟨parent, region.previous?, region.next?⟩ ↔
      region.PointsTo document parent := by
  rcases region.anchors_or_unframed with ⟨anchor, anchors⟩ | ⟨previous, next⟩
  · have candidate := (Option.filter_eq_some_iff.mp (region.spanUnder?_eq document parent ▸ under)).1
    obtain ⟨_, previousLinked, nextLinked⟩ := linked_of_candidate? wellFormed candidate
    have held (other : NodeId) (anchors : region.Anchors other) :
        document.parent? other = some parent :=
      anchors.elim (previousLinked other) (nextLinked other)
    have listed : parent ∈ region.parents document := by
      rw [parents, outer]
      refine List.mem_filterMap.mpr ⟨anchor, ?_, held anchor anchors⟩
      rcases anchors with previous | next
      · simp [previous]
      · simp [next]
    obtain ⟨span, found⟩ := Option.isSome_iff_exists.mp
      (List.findSome?_isSome_iff.mpr ⟨parent, listed, Option.isSome_of_eq_some under⟩)
    rw [← exists_anchor_iff_pointsTo wellFormed outer anchors (held anchor anchors) found]
    constructor
    · intro here
      cases found.symm.trans here
      exact ⟨anchor, anchors, held anchor anchors⟩
    · rintro ⟨other, otherAnchors, linked⟩
      have same : span.parent = parent := Option.some.inj (linked.symm.trans (held other otherAnchors))
      have again := spanUnder?_of_span? wellFormed found
      rw [same, under] at again
      exact found.trans again.symm
  -- Without anchors any parent has a span, and the first one that is tried counts.
  · have everywhere (known : NodeId) : region.spanUnder? document known = some ⟨known, none, none⟩ := by
      simp [spanUnder?_eq, candidate?, previous, next, Span.isOrdered]
    have parentsEq : region.parents document = region.rendered.filterMap document.parent? := by
      simp [parents, outer, previous, next]
    have standIn : region.standIn? = none := by
      simp [standIn?, previous, next]
    rw [span?, parentsEq, previous, next]
    constructor
    · intro found
      refine ⟨fun _ _ => ?_, fun id other shown => by simp [standIn] at shown⟩
      cases rendered : region.rendered.filterMap document.parent? with
      | nil => simp [rendered] at found
      | cons first rest => simpa [rendered, everywhere] using found
    · intro points
      obtain ⟨rest, rendered⟩ := List.head?_eq_some_iff.mp (points.unframed previous next)
      simp [rendered, everywhere]

/-- As long as all that was rendered is there, a region points there unless it records nothing at all. -/
theorem pointsTo_iff_of_shown (shown : ∀ id ∈ region.rendered, document.parent? id = some parent) :
    region.PointsTo document parent ↔ (∃ anchor, region.Anchors anchor) ∨ region.rendered ≠ [] := by
  have head (nonempty : region.rendered ≠ []) :
      ∃ rest, region.rendered.filterMap document.parent? = parent :: rest := by
    obtain ⟨first, rest, rendered⟩ := List.exists_cons_of_ne_nil nonempty
    exact ⟨rest.filterMap document.parent?, by simp [rendered, shown first (by simp [rendered])]⟩
  constructor
  · intro points
    rcases region.anchors_or_unframed with anchored | ⟨previous, next⟩
    · exact Or.inl anchored
    · refine Or.inr fun empty => ?_
      have first := points.unframed previous next
      simp [empty] at first
  · intro recorded
    constructor
    · intro previous next
      obtain ⟨rest, rendered⟩ := head (recorded.resolve_left (by simp [Anchors, previous, next]))
      rw [rendered, List.head?_cons]
    · intro id other standIn linked
      have member := mem_rendered_of_standIn standIn
      obtain ⟨rest, rendered⟩ := head (List.ne_nil_of_mem member)
      rw [rendered]
      simp

end Region

namespace Scene

variable {scene result : Scene} {index number : Nat} {content : List NodeId}
  {nested? : Option Nested} {write : Write} {latest : Nat → List NodeId} {span : Span}
  {anchor holder : NodeId} {allowed : Write → Prop}

structure Fills (first document : Document) (result : Scene) (number : Nat) (region : Region)
    (span : Span) : Prop where
  wellFormed : document.WellFormed
  has : document.Has span.parent
  isAbove_iff : ∀ id, document.IsAbove id span.parent ↔ first.IsAbove id span.parent
  cuts : ∃ before between after, span.Cuts (document.children span.parent) before between after
  kind : ∀ id ∈ result.graph.nodesOf region, document.kind id ≠ .fragment
  document_eq : result.document = document.fill span (result.graph.nodesOf region)
  settled : result.graph.regions[number]? = some (region.settle span (result.graph.nodesOf region))

section
variable {region : Region} {document : Document} {nodes : List NodeId} (sound : scene.Sound)
  (target : scene.graph.parts[index]?.map Part.target = some (.nodes number content nested?))
  (prepared : scene.Prepares number content write document nodes)
  (found : scene.graph.regions[number]? = some region)
  (written : scene.write index write = (.ok (), result))

include sound target prepared found written

theorem fills_of_place (placed : region.place? scene.document = some span) :
    Fills scene.document document result number region span := by
  obtain ⟨reconciled, kind⟩ := reconcileRegion_of_place sound target prepared found placed
  have resultEq := (write_of_prepares target prepared written).trans reconciled
  obtain ⟨bound, cuts⟩ := Region.exists_cuts_of_place? sound.wellFormed (sound.known found) placed
  have shown : result.graph.nodesOf region =
      (scene.graph.setTarget index (.nodes number nodes nested?)).nodesOf region := by
    rw [resultEq, PartGraph.nodesOf_setRegion]
  refine ⟨prepared.wellFormed sound.wellFormed, prepared.links.has bound,
    prepared.links.isAbove_iff sound.wellFormed bound, ?_, shown ▸ kind, ?_, ?_⟩
  · rwa [prepared.links.children_eq _ bound]
  · rw [shown, resultEq]
  · rw [shown, resultEq, PartGraph.regions_setRegion, if_pos rfl]
    exact congrArg (Option.map _) found

theorem detached_of_not_place (nowhere : region.place? scene.document = none) :
    result.document = document ∧
      result.graph.regions[number]? = some { region with detached := true } := by
  have nextFound : (⟨document, scene.graph.setTarget index (.nodes number nodes nested?)⟩ :
      Scene).graph.regions[number]? = some region := found
  rw [write_of_prepares target prepared written, reconcileRegion_eq _ nextFound,
    Region.place?_keepsLinks prepared.links sound.wellFormed (prepared.wellFormed sound.wellFormed)
      (sound.known found), nowhere]
  refine ⟨rfl, ?_⟩
  rw [PartGraph.regions_setRegion, if_pos rfl, nextFound]
  rfl

end

/-- A write takes children away from no parent but the one that the region is found under, apart from
what the region shows. -/
theorem kept_or_shown (sound : scene.Sound)
    (target : scene.graph.parts[index]?.map Part.target = some (.nodes number content nested?))
    {region : Region} (found : scene.graph.regions[number]? = some region)
    (written : scene.write index write = (.ok (), result)) {other child : NodeId}
    (elsewhere : ∀ span, region.place? scene.document = some span → other ≠ span.parent)
    (member : child ∈ scene.document.children other) :
    child ∈ result.document.children other ∨ child ∈ result.graph.nodesOf region := by
  obtain ⟨nodes, gives⟩ := exists_gives written
  rw [Gives, target] at gives
  obtain ⟨document, prepared⟩ := gives
  have linked := (sound.wellFormed.linked other child).mp member
  have still : child ∈ document.children other := by
    rwa [prepared.links.children_eq _ (sound.wellFormed.has_parent linked)]
  cases placed : region.place? scene.document with
  | none =>
      rw [(detached_of_not_place sound target prepared found written placed).1]
      exact Or.inl still
  | some span =>
      have fills := fills_of_place sound target prepared found written placed
      obtain ⟨before, between, after, cuts⟩ := fills.cuts
      obtain ⟨listed, regrouped, _, origin⟩ :=
        Document.fill_regrouped fills.wellFormed fills.has cuts fills.kind
      rw [fills.document_eq, regrouped.children, if_neg (elsewhere span placed), List.mem_filter]
      by_cases shown : child ∈ listed
      · refine Or.inr ((origin child shown).resolve_left fun there => elsewhere span placed ?_)
        rw [fills.wellFormed.linked] at still there
        exact Option.some.inj (still.symm.trans there)
      · exact Or.inl ⟨still, by simpa using shown⟩

/-- A write to a region without a recorded parent, of which an anchor still stands somewhere, finds
it where an anchor is, exactly if the region points there. No other parent loses children, apart from
what the region shows. -/
theorem beside_anchor_iff {document : Document} (wellFormed : document.WellFormed) (config : Config)
    (template : NodeId) {region : Region}
    (run : Run allowed (instantiate document config template) latest scene)
    (target : scene.graph.parts[index]?.map Part.target = some (.nodes number content nested?))
    (found : scene.graph.regions[number]? = some region) (outer : region.parent? = none)
    (spanFound : region.span? scene.document = some span)
    (anchors : region.Anchors anchor) (held : scene.document.parent? anchor = some holder)
    (written : scene.write index write = (.ok (), result)) :
    ((∃ anchor, region.Anchors anchor ∧ scene.document.parent? anchor = some span.parent) ↔
        region.PointsTo scene.document holder) ∧
      ∀ other, other ≠ span.parent → ∀ child ∈ scene.document.children other,
        child ∈ result.document.children other ∨ child ∈ result.graph.nodesOf region := by
  obtain ⟨slots, rows, made⟩ := exists_instantiated wellFormed config template
  have sound := run.sound made.unwritten.toSound
  refine ⟨Region.exists_anchor_iff_pointsTo sound.wellFormed outer anchors held spanFound,
    fun other elsewhere child member => kept_or_shown sound target found written ?_ member⟩
  intro place placed
  rw [Region.place?, outer, spanFound] at placed
  split at placed <;> cases placed
  exact elsewhere

def looseSource : Document :=
  Document.new.edit (.read "\x7b\x7bx\x7d\x7d")

@[irreducible]
def looseInstance : Scene :=
  instantiate looseSource .standard ⟨1⟩

def letteredInstance : Scene :=
  looseInstance.setValue 0 (some "X")

def openInstance : Scene :=
  ⟨((letteredInstance.document.edit (.create (.element "body" []))).edit (.insert ⟨8⟩ ⟨3⟩ none)).edit
    (.remove ⟨6⟩), letteredInstance.graph⟩

def recoveredInstance : Scene :=
  openInstance.setValue 0 (some "Y")

def strayedInstance : Scene :=
  ⟨(recoveredInstance.document.edit (.read "<aside><b></b></aside>")).edit
    (.insert ⟨10⟩ ⟨7⟩ (some ⟨11⟩)), recoveredInstance.graph⟩

theorem run_strayed : ∃ latest, Run Write.Textual looseInstance latest strayedInstance := by
  have shown : ∃ latest, Run Write.Textual looseInstance latest letteredInstance :=
    Run.exists_value (some "X") ⟨_, .start⟩ rfl
  have made := Run.exists_edit (.create (.element "body" [])) shown rfl
  have size : 8 < (letteredInstance.document.edit (.create (.element "body" []))).size := by
    decide +kernel
  have mounted := Run.exists_edit (.insert ⟨8⟩ ⟨3⟩ none) made ⟨size, Nat.lt_trans (by decide) size⟩
  have opened : ∃ latest, Run Write.Textual looseInstance latest openInstance :=
    Run.exists_edit (.remove ⟨6⟩) mounted trivial
  have recovered : ∃ latest, Run Write.Textual looseInstance latest recoveredInstance :=
    Run.exists_value (some "Y") opened rfl
  have read := Run.exists_edit (.read "<aside><b></b></aside>") recovered trivial
  have readSize : 10 < (recoveredInstance.document.edit (.read "<aside><b></b></aside>")).size := by
    decide +kernel
  have moved := Run.exists_edit (.insert ⟨10⟩ ⟨7⟩ (some ⟨11⟩)) read
    ⟨readSize, Nat.lt_trans (by decide) readSize⟩
  exact moved

theorem not_beside_anchor_of_strayed :
    ∃ latest result region, Run Write.Textual looseInstance latest strayedInstance ∧
      strayedInstance.write 0 (.value (some "Z")) = (.ok (), result) ∧
      strayedInstance.graph.regions[0]? = some region ∧
      (∃ anchor, region.Anchors anchor ∧ strayedInstance.document.parent? anchor = some ⟨8⟩) ∧
      (¬ ∃ anchor, region.Anchors anchor ∧ strayedInstance.document.parent? anchor = some ⟨10⟩) ∧
      strayedInstance.document.children ⟨10⟩ = [⟨7⟩, ⟨11⟩] ∧
      result.document.children ⟨10⟩ = [⟨7⟩] := by
  have wellFormed : looseSource.WellFormed :=
    Document.wellFormed_edit Document.wellFormed_new trivial
  obtain ⟨latest, run⟩ := run_strayed
  have fromSource := run
  rw [looseInstance] at fromSource
  have target : strayedInstance.graph.parts[0]?.map Part.target = some (.nodes 0 [⟨7⟩] none) := by
    decide +kernel
  have found : strayedInstance.graph.regions[0]? =
      some ⟨none, some ⟨5⟩, none, false, [.part 0], [⟨7⟩], false⟩ := by
    decide +kernel
  have held : strayedInstance.document.parent? ⟨5⟩ = some ⟨8⟩ := by decide +kernel
  have linked : strayedInstance.document.parent? ⟨7⟩ = some ⟨10⟩ := by decide +kernel
  have spanFound : Region.span? ⟨none, some ⟨5⟩, none, false, [.part 0], [⟨7⟩], false⟩
      strayedInstance.document = some ⟨⟨10⟩, none, none⟩ := by
    decide +kernel
  refine ⟨latest, _, _, run, rfl, found, ⟨⟨5⟩, Or.inl rfl, held⟩, ?_, by decide +kernel, by decide +kernel⟩
  intro beside
  have points := (beside_anchor_iff wellFormed .standard ⟨1⟩ fromSource target found rfl spanFound
    (Or.inl rfl) held (rfl : strayedInstance.write 0 (.value (some "Z")) = (.ok (), _))).1.mp beside
  have first := points.framed ⟨7⟩ ⟨10⟩ rfl linked
  simp [linked] at first

end Scene

end LiveTemplate
