import LiveTemplate.Proofs.Growing

/-! The parents that regions record: nodes of the template that have others below them. -/

namespace LiveTemplate

namespace Tree

variable {α β : Type}

mutual

def Nests (allowed : α → Prop) : Tree α → Prop
  | node label children => (children ≠ [] → allowed label) ∧ NestsAll allowed children

def NestsAll (allowed : α → Prop) : List (Tree α) → Prop
  | [] => True
  | tree :: rest => Nests allowed tree ∧ NestsAll allowed rest

end

mutual

instance decidableNests (allowed : α → Prop) [DecidablePred allowed] :
    ∀ tree : Tree α, Decidable (tree.Nests allowed)
  | node label children =>
    haveI := decidableNestsAll allowed children
    decidable_of_iff ((children ≠ [] → allowed label) ∧ NestsAll allowed children) (by rw [Nests])

instance decidableNestsAll (allowed : α → Prop) [DecidablePred allowed] :
    ∀ trees : List (Tree α), Decidable (NestsAll allowed trees)
  | [] => .isTrue trivial
  | tree :: rest =>
    haveI := decidableNests allowed tree
    haveI := decidableNestsAll allowed rest
    decidable_of_iff (tree.Nests allowed ∧ NestsAll allowed rest) (by rw [NestsAll])

end

mutual

theorem nests_map {allowed : β → Prop} {f : α → β} :
    ∀ tree : Tree α, (tree.map f).Nests allowed → tree.Nests fun label => allowed (f label)
  | node label children, nests => by
      rw [map, Nests] at nests
      rw [Nests]
      refine ⟨fun below => nests.1 ?_, nestsAll_map children nests.2⟩
      cases children with
      | nil => exact (below rfl).elim
      | cons tree rest => exact List.cons_ne_nil _ _

theorem nestsAll_map {allowed : β → Prop} {f : α → β} :
    ∀ trees : List (Tree α), NestsAll allowed (mapForest f trees) →
      NestsAll (fun label => allowed (f label)) trees
  | [], _ => trivial
  | tree :: rest, nests => ⟨nests_map tree nests.1, nestsAll_map rest nests.2⟩

end

mutual

theorem Nests.and {allowed other : α → Prop} :
    ∀ tree : Tree α, tree.Nests allowed → (∀ label ∈ tree.preorder, other label) →
      tree.Nests fun label => allowed label ∧ other label
  | node label children, nests, all => by
      rw [Nests] at nests ⊢
      rw [preorder, List.forall_mem_cons] at all
      exact ⟨fun below => ⟨nests.1 below, all.1⟩, NestsAll.and children nests.2 all.2⟩

theorem NestsAll.and {allowed other : α → Prop} :
    ∀ trees : List (Tree α), NestsAll allowed trees → (∀ label ∈ preorderForest trees, other label) →
      NestsAll (fun label => allowed label ∧ other label) trees
  | [], _, _ => trivial
  | tree :: rest, nests, all => by
      rw [preorderForest] at all
      exact ⟨Nests.and tree nests.1 fun label member => all label (List.mem_append_left _ member),
        NestsAll.and rest nests.2 fun label member => all label (List.mem_append_right _ member)⟩

end

end Tree

namespace Scene

def Within (scene : Scene) (allowed : NodeId → Prop) : Prop :=
  ∀ region ∈ scene.graph.regions, ∀ parent, region.parent? = some parent → allowed parent

variable {scene : Scene} {allowed : NodeId → Prop}

theorem Within.of_regions {result : Scene} (within : scene.Within allowed)
    (same : result.graph.regions = scene.graph.regions) : result.Within allowed := by
  rw [Within, same]
  exact within

theorem regions_addBinding (scene : Scene) (id : NodeId) (entry : Attribute) :
    (scene.addBinding id entry).graph.regions = scene.graph.regions := by
  cases templated : Token.templated? entry.value with
  | none => rw [addBinding, templated]
  | some tokens =>
      obtain ⟨pieces, later, parted, _, made⟩ := scene.exists_addBinding id templated
      rw [made]
      exact parted.regions_eq

theorem regions_addBindings (scene : Scene) (id : NodeId) :
    (scene.addBindings id).graph.regions = scene.graph.regions := by
  rw [addBindings]
  generalize (scene.document.content id).attributes = entries
  induction entries generalizing scene with
  | nil => rfl
  | cons entry rest ih => exact (ih _).trans (regions_addBinding scene id entry)

theorem regions_addAnchor (scene : Scene) (needed : Bool) :
    (scene.addAnchor needed).2.graph.regions = scene.graph.regions := by
  cases needed <;> rfl

theorem within_addRegion (within : scene.Within allowed) (level : Level)
    (inner : ∀ parent, level.parent? = some parent → allowed parent) (previous? next? : Option NodeId)
    (id : NodeId) (source : Source) :
    (scene.addRegion level previous? next? id source).2.Within allowed := by
  obtain ⟨nested?, pieced⟩ := pieced_addPieces scene id source
  intro region member
  rcases Array.mem_push.mp member with older | rfl
  · exact within region (pieced.parted.regions_eq ▸ older)
  · exact inner

/-- What is made below a node records that node only if there is something below it. -/
theorem within_buildBelow {config : Config} {id : NodeId} {children : List (Tree NodeId)}
    (within : scene.Within allowed) (above : children ≠ [] → allowed id)
    (fill : ∀ (level : Level) (scene : Scene), scene.Within allowed →
      (children ≠ [] → ∀ parent, level.parent? = some parent → allowed parent) →
        (buildAll config level none false scene children).2.Within allowed) :
    (buildBelow config id (children.map Tree.label)
      (fun level scene => buildAll config level none false scene children) scene).Within allowed := by
  refine fill ⟨some id, _⟩ scene within ?_
  intro below parent same
  cases same
  exact above below

mutual

theorem within_build (config : Config) (level : Level) (previous? : Option NodeId) (framed : Bool)
    (following : List NodeId) (scene : Scene) (within : scene.Within allowed)
    (inner : ∀ parent, level.parent? = some parent → allowed parent) :
    ∀ tree : Tree NodeId, tree.Nests allowed →
      (build config level previous? framed following scene tree).2.Within allowed
  | .node id children, nests => by
      rw [Tree.Nests] at nests
      have below (scene : Scene) (within : scene.Within allowed) :=
        @within_buildBelow _ _ config _ _ within nests.1 fun level scene within inner =>
          within_buildAll config level none false scene within children inner nests.2
      rw [build]
      split
      · exact below _ (within.of_regions (regions_addBindings scene id))
      · rename_i source _
        have made {first second : Scene} (anchors : second.graph.regions = first.graph.regions)
            (start : first.graph.regions = scene.graph.regions) (previous? next? : Option NodeId) :=
          within_addRegion (within.of_regions (anchors.trans start)) level inner previous? next? id
            source
        cases source with
        | inline tokens =>
            exact below _ (made (regions_addAnchor _ _) (regions_addAnchor _ _) _ _)
        | nested expression directive? =>
            exact made (regions_addAnchor _ _) (regions_addAnchor _ _) _ _

theorem within_buildAll (config : Config) (level : Level) (previous? : Option NodeId) (framed : Bool)
    (scene : Scene) (within : scene.Within allowed) :
    ∀ trees : List (Tree NodeId),
      (trees ≠ [] → ∀ parent, level.parent? = some parent → allowed parent) →
      Tree.NestsAll allowed trees →
        (buildAll config level previous? framed scene trees).2.Within allowed
  | [], _, _ => by
      rw [buildAll]
      exact within
  | tree :: rest, inner, nests => by
      have inner := inner (List.cons_ne_nil _ _)
      have first := within_build config level previous? framed (rest.map Tree.label) scene within inner
        tree nests.1
      rw [buildAll]
      exact within_buildAll config level _ _ _ first rest (fun _ => inner) nests.2

end

end Scene

end LiveTemplate
