import LiveTemplate.Proofs.Instances
import LiveTemplate.Proofs.Runs

/-! Writes to a part whose region cannot be found: they touch no node that was there before. -/

namespace LiveTemplate.Scene

inductive Accepted (index : Nat) : Scene → List Write → Scene → Prop
  | nil {scene} : Accepted index scene [] scene
  | cons {scene next result write rest} : scene.write index write = (.ok (), next) →
      Accepted index next rest result → Accepted index scene (write :: rest) result

variable {scene result : Scene} {index number : Nat} {content : List NodeId} {nested? : Option Nested}
  {region : Region}

theorem Prepares.extends {write : Write} {document : Document} {nodes : List NodeId}
    (prepared : scene.Prepares number content write document nodes)
    (dead : scene.isLive number = false) : document.Extends scene.document := by
  cases prepared with
  | overwrite _ _ live =>
      rw [dead] at live
      cases live
  | text _ => exact Document.extends_create _ _
  | items _ => exact extends_realizeAll scene _
  | markup read =>
      obtain ⟨trees, _, _, rfl⟩ := exists_graft read
      exact Document.extends_graft _ _

theorem span?_eq_none_iff (region : Region) (document : Document) : region.span? document = none ↔
    ∀ parent ∈ region.parents document, region.spanUnder? document parent = none := by
  rw [Region.span?, List.findSome?_eq_none_iff]

theorem write_of_lost (sound : scene.Sound)
    (target : scene.graph.parts[index]?.map Part.target = some (.nodes number content nested?))
    (found : scene.graph.regions[number]? = some region) (shared : region.owning = false)
    (lost : region.span? scene.document = none) {write : Write}
    (written : scene.write index write = (.ok (), result)) :
    result.document.Extends scene.document ∧ ∃ nodes, result.graph =
      (scene.graph.setTarget index (.nodes number nodes nested?)).setRegion number
        { region with detached := true } := by
  have dead : scene.isLive number = false := by
    simp [isLive, found, Region.isLive, shared, lost]
  rcases write_cases scene target write with ⟨error, refused⟩ | ⟨document, nodes, prepared, accepted⟩
  · rw [refused] at written
    cases written
  · have extended := prepared.extends dead
    have wellFormed := prepared.wellFormed sound.wellFormed
    have nowhere : region.place? document = none := by
      rw [Region.place?_keepsLinks extended.keepsLinks sound.wellFormed wellFormed (sound.known found),
        Region.place?, shared]
      exact lost
    have shown : (⟨document, scene.graph.setTarget index (.nodes number nodes nested?)⟩ :
        Scene).graph.regions[number]? = some region := found
    rw [accepted, reconcileRegion_eq _ shown, nowhere] at written
    cases written
    exact ⟨extended, nodes, rfl⟩

theorem run_of_lost {writes : List Write} (accepted : Accepted index scene writes result)
    (sound : scene.Sound)
    (target : scene.graph.parts[index]?.map Part.target = some (.nodes number content nested?))
    (found : scene.graph.regions[number]? = some region) (shared : region.owning = false)
    (lost : region.span? scene.document = none) :
    result.document.Extends scene.document ∧ (writes ≠ [] → ∃ nodes, result.graph =
      (scene.graph.setTarget index (.nodes number nodes nested?)).setRegion number
        { region with detached := true }) := by
  induction accepted generalizing content region with
  | nil => exact ⟨.refl _, fun nonempty => (nonempty rfl).elim⟩
  | @cons scene next result write rest written accepted ih =>
      obtain ⟨extended, nodes, graph⟩ := write_of_lost sound target found shared lost written
      have nextSound : next.Sound := by
        have kept := sound_write sound index write
        rwa [written] at kept
      have nextTarget : next.graph.parts[index]?.map Part.target =
          some (.nodes number nodes nested?) := by
        rw [graph]
        exact PartGraph.target_setTarget_self target _
      have nextFound : next.graph.regions[number]? = some { region with detached := true } := by
        have groupFound : (scene.graph.setTarget index (.nodes number nodes nested?)).regions[number]? =
            some region := found
        rw [graph, PartGraph.regions_setRegion, if_pos rfl, groupFound]
        rfl
      have nextLost : Region.span? { region with detached := true } next.document = none := by
        have same := Region.span?_keepsLinks extended.keepsLinks sound.wellFormed
          nextSound.wellFormed (sound.known found)
        exact same.trans lost
      obtain ⟨laterExtended, later⟩ := ih nextSound nextTarget nextFound shared nextLost
      refine ⟨laterExtended.trans extended, fun _ => ?_⟩
      cases accepted with
      | nil => exact ⟨nodes, graph⟩
      | cons _ _ =>
          obtain ⟨laterNodes, laterGraph⟩ := later (List.cons_ne_nil _ _)
          refine ⟨laterNodes, ?_⟩
          have swapped (region later : Region) :
              (((scene.graph.setTarget index (.nodes number nodes nested?)).setRegion number
                region).setTarget index (.nodes number laterNodes nested?)).setRegion number later =
              (((scene.graph.setTarget index (.nodes number nodes nested?)).setTarget index
                (.nodes number laterNodes nested?)).setRegion number region).setRegion number later :=
            rfl
          rw [laterGraph, graph, swapped, PartGraph.setTarget_setTarget,
            PartGraph.setRegion_setRegion]

/-- A part of a region that no parent holds any more: writes to it, however many are accepted, leave
every node as it was. They mark the region as detached, whose anchors, group and rendered nodes stay,
and change the nodes of the part that was written. -/
theorem accepted_of_lost {document : Document} (wellFormed : document.WellFormed) (config : Config)
    (template : NodeId) {latest : Nat → List NodeId} {write : Write} {writes : List Write}
    (run : Run (fun _ => True) (instantiate document config template) latest scene)
    (target : scene.graph.parts[index]?.map Part.target = some (.nodes number content nested?))
    (found : scene.graph.regions[number]? = some region) (shared : region.owning = false)
    (lost : ∀ parent ∈ region.parents scene.document,
      region.spanUnder? scene.document parent = none)
    (accepted : Accepted index scene (write :: writes) result) :
    (∀ id, scene.document.Has id → result.document.node id = scene.document.node id) ∧
      ∃ nodes, result.graph =
        (scene.graph.setTarget index (.nodes number nodes nested?)).setRegion number
          { region with detached := true } := by
  obtain ⟨slots, rows, made⟩ := exists_instantiated wellFormed config template
  have sound := run.sound made.unwritten.toSound
  obtain ⟨extended, graph⟩ := run_of_lost accepted sound target found shared
    ((span?_eq_none_iff region scene.document).mpr lost)
  exact ⟨extended.node_eq, graph (List.cons_ne_nil _ _)⟩

def framedSource : Document :=
  Document.new.edit (.read "<p><i></i>\x7b\x7bx\x7d\x7d<b></b></p>")

@[irreducible]
def framedInstance : Scene :=
  instantiate framedSource .standard ⟨1⟩

def shownInstance : Scene :=
  framedInstance.setValue 0 (some "old")

def tornInstance : Scene :=
  ⟨(shownInstance.document.edit (.remove ⟨8⟩)).edit (.remove ⟨10⟩), shownInstance.graph⟩

theorem run_torn : ∃ latest, Run (fun _ => True) framedInstance latest tornInstance :=
  Run.exists_edit (.remove ⟨10⟩) (Run.exists_edit (.remove ⟨8⟩)
    (Run.exists_value (some "old") ⟨_, .start⟩ trivial) trivial) trivial

theorem accepted_of_torn :
    ∃ result, Accepted 0 tornInstance [.value (some "new"), .markup "<u></u>"] result ∧
      (∀ id, tornInstance.document.Has id →
        result.document.node id = tornInstance.document.node id) ∧
      ∃ nodes, result.graph = (tornInstance.graph.setTarget 0 (.nodes 0 nodes none)).setRegion 0
        ⟨some ⟨7⟩, some ⟨8⟩, some ⟨10⟩, false, [.part 0], [⟨11⟩], true⟩ := by
  have wellFormed : framedSource.WellFormed :=
    Document.wellFormed_edit Document.wellFormed_new trivial
  have run := run_torn
  rw [framedInstance] at run
  obtain ⟨latest, run⟩ := run
  obtain ⟨result, markup⟩ : ∃ result, (tornInstance.setValue 0 (some "new")).write 0
      (.markup "<u></u>") = (.ok (), result) := exists_next (by decide +kernel)
  have accepted : Accepted 0 tornInstance [.value (some "new"), .markup "<u></u>"] result :=
    .cons rfl (.cons markup .nil)
  have target : tornInstance.graph.parts[0]?.map Part.target = some (.nodes 0 [⟨11⟩] none) := by
    decide +kernel
  have found : tornInstance.graph.regions[0]? =
      some ⟨some ⟨7⟩, some ⟨8⟩, some ⟨10⟩, false, [.part 0], [⟨11⟩], false⟩ := by
    decide +kernel
  exact ⟨result, accepted, accepted_of_lost wellFormed .standard ⟨1⟩ run target found rfl
    (by decide +kernel) accepted⟩

end LiveTemplate.Scene
