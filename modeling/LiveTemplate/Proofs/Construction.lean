import LiveTemplate.Proofs.Growing
import LiveTemplate.Proofs.Moves
import LiveTemplate.Proofs.Outlines

/-! Building an instance is a run of small steps: what relates the scenes before and after every step of
making parts relates those before and after building. -/

namespace LiveTemplate.Scene

structure Adds (result scene : Scene) : Prop where
  part : ∀ {index : Nat} {part}, scene.graph.parts[index]? = some part →
    result.graph.parts[index]? = some part
  bindings : result.graph.bindings = scene.graph.bindings
  has : ∀ id, scene.document.Has id → result.document.Has id
  content : ∀ id, scene.document.Has id → result.document.content id = scene.document.content id

inductive Makes (area : NodeId → Prop) : Scene → Scene → Prop
  | anchor (scene : Scene) (needed : Bool) : Makes area scene (scene.addAnchor needed).2
  | region (scene : Scene) {level : Level} (previous? next? : Option NodeId) (id : NodeId)
      (source : Source) : (level.owning = true → level.parent?.isSome = true) →
      Makes area scene (scene.addRegion level previous? next? id source).2
  | bindings (scene : Scene) {id : NodeId} : area id → Makes area scene (scene.addBindings id)
  | arrange (scene : Scene) (parent : NodeId) (ids : List NodeId) :
      Makes area scene { scene with document := scene.document.arrange parent ids }

section
variable {area : NodeId → Prop}

theorem making_buildBelow (config : Config) (id : NodeId) (former : List NodeId)
    (fill : Level → Scene → List NodeId × Scene)
    (filled : ∀ (level : Level) (scene : Scene), (level.owning = true → level.parent?.isSome = true) →
      Relation.ReflTransGen (Makes area) scene (fill level scene).2) (scene : Scene) :
    Relation.ReflTransGen (Makes area) scene (buildBelow config id former fill scene) :=
  (filled ⟨some id, _⟩ scene fun _ => rfl).tail (.arrange _ _ _)

mutual

theorem making_build (config : Config) (level : Level) (previous? : Option NodeId) (framed : Bool)
    (following : List NodeId) (scene : Scene) (inner : level.owning = true → level.parent?.isSome = true) :
    ∀ tree : Tree NodeId, (∀ id ∈ tree.preorder, area id) →
      Relation.ReflTransGen (Makes area) scene
        (build config level previous? framed following scene tree).2
  | .node id children, inside => by
      rw [Tree.preorder, List.forall_mem_cons] at inside
      have below := @making_buildBelow area config id (children.map Tree.label)
        (fun level scene => buildAll config level none false scene children)
        (fun level scene inner => making_buildAll config level none false scene inner children inside.2)
      rw [build]
      split
      · exact (below _).head (.bindings scene inside.1)
      · rename_i source _
        have made (leads trails : Bool) (previous? next? : Option NodeId) :
            Relation.ReflTransGen (Makes area) scene (((scene.addAnchor leads).2.addAnchor trails).2.addRegion
              level previous? next? id source).2 :=
          ((Relation.ReflTransGen.single (.anchor scene leads)).tail (.anchor _ trails)).tail
            (.region _ previous? next? id source inner)
        cases source with
        | inline tokens => exact (made _ _ _ _).trans (below _)
        | nested expression directive? => exact made _ _ _ _

theorem making_buildAll (config : Config) (level : Level) (previous? : Option NodeId) (framed : Bool)
    (scene : Scene) (inner : level.owning = true → level.parent?.isSome = true) :
    ∀ trees : List (Tree NodeId), (∀ id ∈ Tree.preorderForest trees, area id) →
      Relation.ReflTransGen (Makes area) scene (buildAll config level previous? framed scene trees).2
  | [], _ => by
      rw [buildAll]
  | tree :: rest, inside => by
      rw [Tree.preorderForest, List.forall_mem_append] at inside
      have first := making_build config level previous? framed (rest.map Tree.label) scene inner tree
        inside.1
      rw [buildAll]
      exact first.trans (making_buildAll config level _ _ _ inner rest inside.2)

end

theorem making_instantiate (document : Document) (config : Config) (template : NodeId) :
    let copy := document.graft (.node .fragment (document.forest template))
    (∀ id ∈ Tree.preorderForest (copy.2.layout copy.1).children, area id) →
      Relation.ReflTransGen (Makes area) ⟨copy.2, .empty copy.1⟩ (instantiate document config template) := by
  intro copy inside
  have built := making_buildAll config .outer none false ⟨copy.2, .empty copy.1⟩ (by rintro ⟨⟩) _ inside
  exact built.tail (.arrange _ _ _)

end

section
variable (scene : Scene)

theorem adds_addAnchor (needed : Bool) : (scene.addAnchor needed).2.Adds scene := by
  cases needed with
  | false => exact ⟨id, rfl, fun _ => id, fun _ _ => rfl⟩
  | true =>
      have extended := Document.extends_create scene.document (.text "")
      exact ⟨id, rfl, fun _ => extended.has, fun _ => extended.content_eq⟩

theorem adds_addRegion (level : Level) (previous? next? : Option NodeId) (id : NodeId)
    (source : Source) : (scene.addRegion level previous? next? id source).2.Adds scene := by
  obtain ⟨nested?, pieced⟩ := pieced_addPieces scene id source
  exact ⟨pieced.parted.old, pieced.parted.bindings_eq, fun _ => pieced.extended.has,
    fun _ => pieced.extended.content_eq⟩

theorem adds_arrange (parent : NodeId) (ids : List NodeId) :
    Adds { scene with document := scene.document.arrange parent ids } scene where
  part := id
  bindings := rfl
  has := by
    intro id has
    rwa [Document.Has, Document.size_arrange]
  content := fun _ _ => Document.content_arrange _ _ _ _

end

structure Constructive (area : NodeId → Prop) (holds : Scene → Scene → Prop) : Prop where
  refl : ∀ scene, holds scene scene
  trans : ∀ {first second third}, holds third second → holds second first → holds third first
  adds : ∀ {scene result : Scene}, result.Adds scene → holds result scene
  binds : ∀ (scene : Scene) (id : NodeId), area id → holds (scene.addBindings id) scene

namespace Constructive

variable {area : NodeId → Prop} {holds : Scene → Scene → Prop}

theorem makes (constructive : Constructive area holds) {scene result : Scene}
    (makes : Makes area scene result) : holds result scene := by
  cases makes with
  | anchor needed => exact constructive.adds (adds_addAnchor scene needed)
  | region previous? next? id source _ =>
      exact constructive.adds (adds_addRegion scene _ previous? next? id source)
  | bindings inside => exact constructive.binds scene _ inside
  | arrange parent ids => exact constructive.adds (adds_arrange scene parent ids)

theorem making (constructive : Constructive area holds) {scene result : Scene}
    (making : Relation.ReflTransGen (Makes area) scene result) : holds result scene := by
  induction making with
  | refl => exact constructive.refl scene
  | tail _ step ih => exact constructive.trans (constructive.makes step) ih

/-- What is kept by every step relates a new instance to the copy of its template. -/
theorem instantiate (constructive : Constructive area holds) (document : Document) (config : Config)
    (template : NodeId) :
    let copy := document.graft (.node .fragment (document.forest template))
    (∀ id ∈ Tree.preorderForest (copy.2.layout copy.1).children, area id) →
      holds (Scene.instantiate document config template) ⟨copy.2, .empty copy.1⟩ :=
  fun inside => constructive.making (making_instantiate document config template inside)

end Constructive

end LiveTemplate.Scene
