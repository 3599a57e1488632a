import LiveTemplate.Proofs.Instances
import LiveTemplate.Proofs.Runs

/-! What the region of a part shows after a write, in a document that others edit: all its literals and
what was last written to all its parts, in order, as long as no node of these has become an anchor of
the region or an ancestor of its place. -/

namespace LiveTemplate

def Write.Textual (write : Write) : Prop :=
  write.nodes = []

def Region.written (region : Region) (latest : Nat → List NodeId) : List NodeId :=
  region.group.flatMap fun piece =>
    match piece with
    | .literal id => [id]
    | .part index => latest index

namespace Scene

variable {scene result : Scene} {index number : Nat} {content nodes : List NodeId}
  {nested? : Option Nested} {write : Write} {document : Document} {latest : Nat → List NodeId}

structure Tracked (latest : Nat → List NodeId) (scene : Scene) : Prop where
  sound : scene.Sound
  content : ∀ part, scene.graph.contentOf part = latest part
  unique : ∀ {index : Nat} {region : Region}, scene.graph.regions[index]? = some region →
    (scene.graph.nodesOf region).Nodup

theorem nodesOf_eq_written {graph : PartGraph} (same : ∀ part, graph.contentOf part = latest part)
    (region : Region) : graph.nodesOf region = region.written latest := by
  apply List.flatMap_congr
  rintro (id | part) _
  · rfl
  · exact same part

theorem Tracked.contentOf_setTarget (tracked : scene.Tracked latest)
    (target : scene.graph.parts[index]?.map Part.target = some (.nodes number content nested?))
    (nodes : List NodeId) (part : Nat) :
    (scene.graph.setTarget index (.nodes number nodes nested?)).contentOf part =
      Function.update latest index nodes part := by
  rw [PartGraph.contentOf_setTarget target]
  by_cases same : index = part
  · subst same
    rw [if_pos rfl, Function.update_self]
    rfl
  · rw [if_neg same, Function.update_of_ne (Ne.symm same)]
    exact tracked.content part

theorem Tracked.nodup_written (tracked : scene.Tracked latest)
    (target : scene.graph.parts[index]?.map Part.target = some (.nodes number content nested?))
    {region : Region} (found : scene.graph.regions[number]? = some region)
    (prepared : scene.Prepares number content write document nodes) (textual : write.Textual) :
    ((scene.graph.setTarget index (.nodes number nodes nested?)).nodesOf region).Nodup := by
  obtain ⟨before, after, shown, split⟩ := tracked.sound.linked.exists_split target found
  have unique := tracked.unique found
  have present := tracked.sound.has_of_shown found
  rw [split]
  rw [shown] at unique present
  have nothing (id : NodeId) : id ∉ write.nodes := by
    rw [textual]
    exact List.not_mem_nil
  rcases prepared.eq_or_new tracked.sound.wellFormed (textual ▸ List.nodup_nil)
    (fun id member => (nothing id member).elim) with rfl | ⟨nodesUnique, origin⟩
  · exact unique
  · refine nodup_exchange unique nodesUnique ?_
    intro id member
    have new := (origin id member).resolve_left (nothing id)
    exact ⟨fun left => new (present id (by simp [left])), fun right => new (present id (by simp [right]))⟩

theorem Tracked.of_write (tracked : scene.Tracked latest) (textual : write.Textual)
    (written : scene.write index write = (.ok (), result)) (gives : scene.Gives index write nodes) :
    result.Tracked (Function.update latest index nodes) := by
  have sound : result.Sound := by
    have kept := sound_write tracked.sound index write
    rwa [written] at kept
  -- A part of an attribute shows no nodes, so that its last write gave it none.
  by_cases shows : ∃ number content nested?,
      scene.graph.parts[index]?.map Part.target = some (.nodes number content nested?)
  · obtain ⟨number, content, nested?, target⟩ := shows
    rw [Gives, target] at gives
    obtain ⟨document, prepared⟩ := gives
    have resultEq := write_of_prepares target prepared written
    refine ⟨sound, ?_, ?_⟩
    · intro part
      rw [resultEq, contentOf_reconcileRegion]
      exact tracked.contentOf_setTarget target nodes part
    · intro other region found
      rw [resultEq] at found
      obtain ⟨old, oldFound, group⟩ := (sameShape_reconcileRegion _ _).exists_region found
      have oldFound : scene.graph.regions[other]? = some old := oldFound
      have nodesEq : result.graph.nodesOf region =
          (scene.graph.setTarget index (.nodes number nodes nested?)).nodesOf old := by
        rw [PartGraph.nodesOf, PartGraph.nodesOf, group, resultEq]
        apply List.flatMap_congr
        rintro (id | part) _
        · rfl
        · exact contentOf_reconcileRegion _ _ part
      rw [nodesEq]
      by_cases same : other = number
      · subst same
        exact tracked.nodup_written target oldFound prepared textual
      · rw [tracked.sound.linked.nodesOf_other target oldFound same]
        exact tracked.unique oldFound
  · push Not at shows
    have quiet := quiet_write scene shows write
    rw [written] at quiet
    have nothing : nodes = [] := by
      rw [Gives] at gives
      split at gives
      · rename_i number content nested? target
        exact (shows number content nested? target).elim
      · exact gives
    have unshown : scene.graph.contentOf index = [] := by
      rw [PartGraph.contentOf_eq]
      cases target : scene.graph.parts[index]?.map Part.target with
      | none => rfl
      | some known =>
          rcases known with ⟨binding, value?⟩ | ⟨number, content, nested?⟩
          · rfl
          · exact (shows number content nested? target).elim
    refine ⟨sound, ?_, ?_⟩
    · intro part
      rw [quiet.content, nothing]
      by_cases same : part = index
      · rw [same, Function.update_self, unshown]
      · rw [Function.update_of_ne same]
        exact tracked.content part
    · intro other region found
      rw [quiet.regions] at found
      rw [PartGraph.nodesOf_congr region fun part _ => quiet.content part]
      exact tracked.unique found

/-- Every run of writes that bring no nodes along keeps track of them. -/
theorem Run.tracked {start : Scene} (run : Run Write.Textual start latest scene)
    (tracked : start.Tracked fun _ => []) : scene.Tracked latest := by
  induction run with
  | start => exact tracked
  | edit _ edited ih =>
      exact ⟨ih.sound.of_document (Document.wellFormed_edit ih.sound.wellFormed edited)
        (Document.keepsKinds_edit ih.sound.wellFormed edited), ih.content, ih.unique⟩
  | write _ textual written gives ih => exact ih.of_write textual written gives
  | refused _ _ written ih =>
      rw [eq_of_refused written]
      exact ih

theorem Unwritten.tracked (unwritten : scene.Unwritten) : scene.Tracked fun _ => [] where
  sound := unwritten.toSound
  content := unwritten.empty
  unique := fun found => PartGraph.nodup_of_empty (unwritten.linked.unique found) unwritten.empty

/-- A write that leaves the region of its part attached gives it new anchors and lets it record all
its literals and what was last written to all its parts. It shows them between the anchors exactly
if none of them has become an anchor or stands above the parent. -/
theorem shows_written_iff {document : Document} (wellFormed : document.WellFormed) (config : Config)
    (template : NodeId) {region : Region}
    (run : Run Write.Textual (instantiate document config template) latest scene)
    (target : scene.graph.parts[index]?.map Part.target = some (.nodes number content nested?))
    (found : scene.graph.regions[number]? = some region) (shared : region.owning = false)
    (textual : write.Textual) (written : scene.write index write = (.ok (), result))
    (gives : scene.Gives index write nodes)
    (attached : result.graph.regions[number]?.map Region.detached = some false) :
    ∃ span, region.span? scene.document = some span ∧
      result.graph.regions[number]? = some
        { region with
          previous? := span.previous?
          next? := span.next?
          rendered := region.written (Function.update latest index nodes)
          detached := false } ∧
      ((∃ before after, span.Cuts (result.document.children span.parent) before
          (region.written (Function.update latest index nodes)) after) ↔
        ∀ id ∈ region.written (Function.update latest index nodes),
          span.previous? ≠ some id ∧ span.next? ≠ some id ∧
            ¬ scene.document.IsAbove id span.parent) := by
  obtain ⟨slots, rows, made⟩ := exists_instantiated wellFormed config template
  have tracked := run.tracked made.unwritten.tracked
  have later := tracked.of_write textual written gives
  rw [Gives, target] at gives
  obtain ⟨next, prepared⟩ := gives
  have sound := tracked.sound.of_prepares target prepared
  have known := tracked.sound.known found
  have place : region.place? next = region.span? scene.document := by
    rw [Region.place?_keepsLinks prepared.links tracked.sound.wellFormed sound.wellFormed known,
      Region.place?, shared]
    rfl
  have resultEq := write_of_prepares target prepared written
  have nextFound : (⟨next, scene.graph.setTarget index (.nodes number nodes nested?)⟩ :
      Scene).graph.regions[number]? = some region := found
  have shown := nodesOf_eq_written (tracked.contentOf_setTarget target nodes) region
  rw [reconcileRegion_eq _ nextFound, place] at resultEq
  cases spanFound : region.span? scene.document with
  | none =>
      rw [spanFound] at resultEq
      rw [resultEq, PartGraph.regions_setRegion, if_pos rfl, nextFound] at attached
      cases attached
  | some span =>
      rw [spanFound] at resultEq
      dsimp only at resultEq
      rw [shown] at resultEq
      obtain ⟨parentBound, before, between, after, cuts⟩ :=
        Region.exists_cuts_of_span? tracked.sound.wellFormed known spanFound
      rw [← prepared.links.children_eq _ parentBound] at cuts
      refine ⟨span, rfl, ?_, ?_⟩
      · rw [resultEq, PartGraph.regions_setRegion, if_pos rfl, nextFound, Region.settle, shared]
        rfl
      · have unique := tracked.nodup_written target found prepared textual
        have kind := sound.shown nextFound
        rw [shown] at unique kind
        rw [resultEq, Document.fill_cuts_iff sound.wellFormed (prepared.links.has parentBound) cuts
          unique kind]
        simp only [prepared.links.isAbove_iff tracked.sound.wellFormed parentBound]
        refine ⟨?_, fun safe => ⟨fun id member => (safe id member).1,
          fun id member => (safe id member).2.1, fun id member => (safe id member).2.2⟩⟩
        rintro ⟨notPrevious, notNext, notAbove⟩ id member
        exact ⟨notPrevious id member, notNext id member, notAbove id member⟩

def pairedSource : Document :=
  Document.new.edit (.read "<p>A\x7b\x7bx\x7d\x7dB<b></b></p>")

@[irreducible]
def pairedInstance : Scene :=
  instantiate pairedSource .standard ⟨1⟩

def filledInstance : Scene :=
  pairedInstance.setValue 0 (some "X")

def swappedInstance : Scene :=
  ⟨(filledInstance.document.edit (.remove ⟨8⟩)).edit (.insert ⟨6⟩ ⟨10⟩ (some ⟨9⟩)),
    filledInstance.graph⟩

theorem run_swapped : ∃ latest, Run Write.Textual pairedInstance latest swappedInstance := by
  have shown : ∃ latest, Run Write.Textual pairedInstance latest filledInstance :=
    Run.exists_value (some "X") ⟨_, .start⟩ rfl
  have removed := Run.exists_edit (.remove ⟨8⟩) shown trivial
  have size : 10 < (filledInstance.document.edit (.remove ⟨8⟩)).size := by decide +kernel
  exact Run.exists_edit (.insert ⟨6⟩ ⟨10⟩ (some ⟨9⟩)) removed ⟨Nat.lt_trans (by decide) size, size⟩

theorem not_shown_of_swapped :
    ∃ latest result, Run Write.Textual pairedInstance latest swappedInstance ∧
      swappedInstance.write 0 (.value (some "Y")) = (.ok (), result) ∧
      result.graph.regions[0]? = some
        ⟨some ⟨6⟩, none, some ⟨9⟩, false, [.literal ⟨9⟩, .part 0, .literal ⟨10⟩],
          [⟨9⟩, ⟨11⟩, ⟨10⟩], false⟩ ∧
      ¬ ∃ before after, Span.Cuts ⟨⟨6⟩, none, some ⟨9⟩⟩ (result.document.children ⟨6⟩) before
        [⟨9⟩, ⟨11⟩, ⟨10⟩] after := by
  have wellFormed : pairedSource.WellFormed :=
    Document.wellFormed_edit Document.wellFormed_new trivial
  obtain ⟨latest, run⟩ := run_swapped
  have fromSource := run
  rw [pairedInstance] at fromSource
  have textual : Write.Textual (.value (some "Y")) := rfl
  have target : swappedInstance.graph.parts[0]?.map Part.target = some (.nodes 0 [⟨11⟩] none) := by
    decide +kernel
  have found : swappedInstance.graph.regions[0]? =
      some ⟨some ⟨6⟩, none, some ⟨8⟩, false, [.literal ⟨9⟩, .part 0, .literal ⟨10⟩],
        [⟨9⟩, ⟨11⟩, ⟨10⟩], false⟩ := by
    decide +kernel
  have gives : swappedInstance.Gives 0 (.value (some "Y")) [⟨11⟩] := by
    rw [Gives, target]
    exact ⟨_, .overwrite rfl (by decide +kernel) (by decide +kernel)⟩
  obtain ⟨span, spanFound, recorded, shows⟩ := shows_written_iff wellFormed .standard ⟨1⟩ fromSource
    target found rfl textual rfl gives (by decide +kernel)
  have spanEq : span = ⟨⟨6⟩, none, some ⟨9⟩⟩ := by
    refine Option.some.inj (spanFound.symm.trans ?_)
    decide +kernel
  have shown : Region.written ⟨some ⟨6⟩, none, some ⟨8⟩, false,
      [.literal ⟨9⟩, .part 0, .literal ⟨10⟩], [⟨9⟩, ⟨11⟩, ⟨10⟩], false⟩
        (Function.update latest 0 [⟨11⟩]) = [⟨9⟩, ⟨11⟩, ⟨10⟩] := by
    simp [Region.written]
  rw [shown, spanEq] at recorded shows
  refine ⟨latest, _, run, rfl, recorded, ?_⟩
  intro displayed
  exact (shows.mp displayed ⟨9⟩ (by simp)).2.1 rfl

end Scene

end LiveTemplate
