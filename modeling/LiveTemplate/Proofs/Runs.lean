import LiveTemplate.Proofs.Writes

/-! Runs: writes to the parts of an instance, interleaved with any other changes of the document.
Every scene that a run reaches is sound if its first one is. -/

namespace LiveTemplate

inductive Edit where
  | create (content : Content)
  | read (markup : String)
  | clone (id : NodeId) (deep : Bool)
  | insert (parent id : NodeId) (reference? : Option NodeId)
  | remove (id : NodeId)
  | setData (id : NodeId) (data : String)
  | setAttribute (id : NodeId) (name : AttributeName) (value : String)
  | removeAttribute (id : NodeId) (name : AttributeName)

namespace Document

variable {document : Document}

def edit (document : Document) : Edit → Document
  | .create content => (document.create content).2
  | .read markup =>
    match document.read? markup with
    | some (_, result) => result
    | none => document
  | .clone id deep => (document.clone id deep).2
  | .insert parent id reference? => document.insertBefore parent id reference?
  | .remove id => document.detach id
  | .setData id data => document.setData id data
  | .setAttribute id name value => document.setAttribute id name value
  | .removeAttribute id name => document.removeAttribute id name

def Allows (document : Document) : Edit → Prop
  | .create content => content.attributes = []
  | .clone id _ => document.Has id
  | .insert parent id _ => document.Has parent ∧ document.Has id
  | _ => True

theorem plantable_clone (wellFormed : document.WellFormed) (id : NodeId) (deep : Bool) :
    Plantable (if deep then document.tree id else .node (document.content id) []) := by
  split
  · rw [wellFormed.tree_eq, ← wellFormed.forest_eq]
    exact wellFormed.plantable_forest (wellFormed.names id) id
  · exact plantable_leaf (wellFormed.names id)

theorem wellFormed_edit (wellFormed : document.WellFormed) {edit : Edit}
    (allowed : document.Allows edit) : (document.edit edit).WellFormed := by
  cases edit with
  | create content => exact wellFormed_create wellFormed allowed
  | read markup =>
      simp only [Document.edit]
      split
      · rename_i fragment result read
        obtain ⟨trees, treesRead, _, rfl⟩ := Scene.Prepares.exists_graft read
        exact wellFormed_graft wellFormed (Markup.plantable_read treesRead)
      · exact wellFormed
  | clone id deep => exact wellFormed_graft wellFormed (plantable_clone wellFormed id deep)
  | insert parent id reference? =>
      exact wellFormed_insertBefore wellFormed allowed.1 allowed.2 reference?
  | remove id => exact wellFormed_detach wellFormed id
  | setData id data => exact wellFormed_setData wellFormed id data
  | setAttribute id name value => exact wellFormed_setAttribute wellFormed id name value
  | removeAttribute id name => exact wellFormed_removeAttribute wellFormed id name

theorem keepsKinds_edit (wellFormed : document.WellFormed) {edit : Edit}
    (allowed : document.Allows edit) : (document.edit edit).KeepsKinds document := by
  have mapped (id : NodeId) (change : List Attribute → List Attribute) :
      (document.setContent id ((document.content id).mapAttributes change)).KeepsKinds document := by
    apply keepsKinds_setContent
    rw [kind]
    cases document.content id <;> rfl
  cases edit with
  | create content => exact (extends_create document content).keepsKinds
  | read markup =>
      simp only [Document.edit]
      split
      · rename_i fragment result read
        obtain ⟨trees, _, _, rfl⟩ := Scene.Prepares.exists_graft read
        exact (extends_graft document _).keepsKinds
      · exact KeepsKinds.refl document
  | clone id deep => exact (extends_graft document _).keepsKinds
  | insert parent id reference? =>
      by_cases above : document.IsAbove id parent
      · simp only [Document.edit]
        rw [insertBefore_of_isAbove wellFormed above]
        exact KeepsKinds.refl document
      · exact (insertBefore_regrouped wellFormed allowed.1 allowed.2 above reference?).keepsKinds
  | remove id =>
      exact ⟨fun bound => by simpa only [Has, Document.edit, size_detach] using bound,
        fun _ => by simp only [kind, Document.edit, content_detach]⟩
  | setData id data =>
      apply keepsKinds_setContent
      rw [kind]
      cases document.content id <;> rfl
  | setAttribute id name value => exact mapped id _
  | removeAttribute id name => exact mapped id _

end Document

namespace Scene

def Gives (scene : Scene) (index : Nat) (write : Write) (nodes : List NodeId) : Prop :=
  match scene.graph.parts[index]?.map Part.target with
  | some (.nodes region content _) => ∃ document, scene.Prepares region content write document nodes
  | _ => nodes = []

theorem exists_gives {scene result : Scene} {index : Nat} {write : Write}
    (written : scene.write index write = (.ok (), result)) : ∃ nodes, scene.Gives index write nodes := by
  simp only [Gives]
  cases target : scene.graph.parts[index]?.map Part.target with
  | none => exact ⟨[], rfl⟩
  | some known =>
      rcases known with ⟨binding, value?⟩ | ⟨region, content, nested?⟩
      · exact ⟨[], rfl⟩
      · rcases write_cases scene target write with ⟨error, refused⟩ | ⟨document, nodes, prepared, _⟩
        · rw [refused] at written
          cases written
        · exact ⟨nodes, document, prepared⟩

theorem eq_of_refused {scene result : Scene} {index : Nat} {write : Write} {error : PartError}
    (refused : scene.write index write = (.error error, result)) : result = scene := by
  cases write with
  | value value? => cases refused
  | boolean present =>
      simp only [Scene.write, setBoolean] at refused
      split at refused <;> cases refused
      rfl
  | items items =>
      simp only [Scene.write, replace] at refused
      split at refused <;> cases refused
      rfl
  | markup text =>
      simp only [Scene.write, replaceMarkup] at refused
      split at refused <;> cases refused
      rfl

inductive Run (allowed : Write → Prop) (start : Scene) : (Nat → List NodeId) → Scene → Prop
  | start : Run allowed start (fun _ => []) start
  | edit {latest : Nat → List NodeId} {scene : Scene} {edit : Edit} :
      Run allowed start latest scene → scene.document.Allows edit →
      Run allowed start latest { scene with document := scene.document.edit edit }
  | write {latest : Nat → List NodeId} {scene result : Scene} {index : Nat} {write : Write}
      {nodes : List NodeId} :
      Run allowed start latest scene → allowed write → scene.write index write = (.ok (), result) →
      scene.Gives index write nodes → Run allowed start (Function.update latest index nodes) result
  | refused {latest : Nat → List NodeId} {scene result : Scene} {index : Nat} {write : Write}
      {error : PartError} :
      Run allowed start latest scene → allowed write →
      scene.write index write = (.error error, result) → Run allowed start latest result

theorem Run.sound {allowed : Write → Prop} {start scene : Scene} {latest : Nat → List NodeId}
    (run : Run allowed start latest scene) (sound : start.Sound) : scene.Sound := by
  induction run with
  | start => exact sound
  | edit _ edited ih =>
      exact ih.of_document (Document.wellFormed_edit ih.wellFormed edited)
        (Document.keepsKinds_edit ih.wellFormed edited)
  | @write _ _ _ index write _ _ _ written _ ih =>
      have kept := sound_write ih index write
      rwa [written] at kept
  | @refused _ _ _ index write _ _ _ written ih =>
      have kept := sound_write ih index write
      rwa [written] at kept

theorem Run.exists_edit {allowed : Write → Prop} {start scene : Scene} (edit : Edit)
    (run : ∃ latest, Run allowed start latest scene) (safe : scene.document.Allows edit) :
    ∃ latest, Run allowed start latest { scene with document := scene.document.edit edit } :=
  run.imp fun _ known => .edit known safe

theorem Run.exists_value {allowed : Write → Prop} {start scene : Scene} {index : Nat}
    (value? : Option String) (run : ∃ latest, Run allowed start latest scene) (safe : allowed (.value value?)) :
    ∃ latest, Run allowed start latest (scene.setValue index value?) := by
  obtain ⟨latest, known⟩ := run
  have written : scene.write index (.value value?) = (.ok (), scene.setValue index value?) := rfl
  obtain ⟨nodes, gives⟩ := exists_gives written
  exact ⟨_, .write known safe rfl gives⟩

theorem exists_next {scene : Scene} {index : Nat} {write : Write}
    (accepted : (scene.write index write).1.isOk = true) : ∃ next, scene.write index write = (.ok (), next) := by
  generalize scene.write index write = outcome at *
  obtain ⟨error | done, next⟩ := outcome
  · cases accepted
  · exact ⟨next, rfl⟩

end Scene

end LiveTemplate
