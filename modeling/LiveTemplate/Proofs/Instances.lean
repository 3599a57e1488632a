import LiveTemplate.Proofs.Building

/-! New instances: what stands where once a template has been copied and its parts have been made. -/

namespace LiveTemplate

theorem Document.Copied.nestsAll {document copy : Document} {template root : NodeId}
    {trees : List (Tree NodeId)} (copied : document.Copied template copy root trees)
    {allowed : Content → Prop} (nests : Tree.NestsAll allowed (document.forest template)) :
    Tree.NestsAll (fun id => allowed (copy.content id)) trees := by
  rw [← copied.below, ← Tree.mapForest_eq_map] at nests
  exact Tree.nestsAll_map trees nests

namespace Scene

theorem unwritten_empty {document : Document} (wellFormed : document.WellFormed)
    (fragment : NodeId) : Unwritten ⟨document, .empty fragment⟩ := by
  have nothing {α : Type} {index : Nat} {item : α} (found : (#[] : Array α)[index]? = some item) :
      False := by
    simp at found
  refine ⟨⟨wellFormed, ⟨?_, ?_, ?_⟩, ?_, ?_⟩, fun _ => ?_, ?_, ⟨?_, ?_, ?_⟩, ?_⟩
  · intro index region content nested? found
    simp [PartGraph.empty] at found
  · exact fun found => (nothing found).elim
  · exact fun found => (nothing found).elim
  · exact fun found => (nothing found).elim
  · exact fun found => (nothing found).elim
  · simp [PartGraph.contentOf, PartGraph.empty]
  · exact fun found => (nothing found).elim
  · intro index binding value? found
    simp [PartGraph.empty] at found
  · exact fun found => (nothing found).elim
  · exact fun found => (nothing found).elim
  · intro index binding value? found
    simp [PartGraph.empty] at found

theorem ready_of_copied {document copy : Document} {template root : NodeId} {trees : List (Tree NodeId)}
    (copied : document.Copied template copy root trees) (config : Config) :
    Ready config copy.content .outer none none false ⟨copy, .empty root⟩ trees := by
  have unique := copied.unique
  rw [Tree.preorder, List.nodup_cons] at unique
  refine ⟨unwritten_empty copied.wellFormed root, copied.outlined.2.2, unique.2, fun _ _ => rfl, ?_, ?_,
    ?_, ?_, ?_, ?_⟩
  · intro index binding found
    simp [PartGraph.empty] at found
  · rintro _ ⟨⟩
  · rintro _ ⟨⟩
  · rintro ⟨⟩
  · exact fun _ _ _ _ => ⟨trivial, by rintro _ ⟨⟩⟩
  · rintro ⟨⟩

structure Instantiated (document : Document) (config : Config) (template : NodeId) (scene : Scene)
    (slots : List Slot) (rows : List Row) : Prop where
  unwritten : scene.Unwritten
  planned : scene.Planned (⟨scene.graph.fragment, none, slots⟩ :: rows)
  shows : ∀ row ∈ (⟨scene.graph.fragment, none, slots⟩ :: rows : List Row), ∀ slot ∈ row.slots,
    scene.Shows slot
  mirrors : Mirrors config rows false (document.forest template) slots
  kinds : scene.document.KeepsKinds document
  fragment : scene.document.kind scene.graph.fragment = .fragment
  within : ∀ allowed : NodeKind → Prop,
    Tree.NestsAll (fun content => allowed content.kind) (document.forest template) →
      scene.Within fun id => allowed (scene.document.kind id)
  hangs : Tree.NestsAll (fun content => content.kind ≠ .text) (document.forest template) →
    ∀ row ∈ rows, row.regions ≠ [] → Hangs rows slots row.home
  spares : scene.document.Spares document [] []
  new : ∀ row ∈ (⟨scene.graph.fragment, none, slots⟩ :: rows : List Row), ¬ document.Has row.home
  copied : scene.document.KeepsKinds
    (document.graft (.node .fragment (document.forest template))).2

theorem exists_instantiated {document : Document} (wellFormed : document.WellFormed)
    (config : Config) (template : NodeId) :
    ∃ slots rows, Instantiated document config template (instantiate document config template) slots
      rows := by
  obtain ⟨root, copy, trees, grafted, copied⟩ := wellFormed.exists_copied template
  rw [instantiate, grafted]
  dsimp only
  rw [copied.layout, Tree.children]
  obtain ⟨bound, children, outlined⟩ := copied.outlined
  have unique := copied.unique
  rw [Tree.preorder, List.nodup_cons] at unique
  obtain ⟨slots, rows, built⟩ := buildable config copy.content trees _ _ _ _ _ (ready_of_copied copied config)
  have within (allowed : NodeKind → Prop)
      (nests : Tree.NestsAll (fun content => allowed content.kind) (document.forest template)) :
      (buildAll config .outer none false ⟨copy, .empty root⟩ trees).2.Within fun id =>
        allowed (copy.kind id) ∧ copy.Has id := by
    refine within_buildAll config .outer none false _ ?_ trees (by rintro _ _ ⟨⟩)
      (Tree.NestsAll.and trees (copied.nestsAll nests) outlined.has)
    intro region member
    simp [PartGraph.empty] at member
  generalize buildAll config .outer none false ⟨copy, .empty root⟩ trees = made at *
  obtain ⟨ids, scene⟩ := made
  dsimp only at built ⊢
  have fragment : scene.graph.fragment = root := built.grown.grows.fragment
  obtain ⟨grown, housed, content⟩ :=
    built.arranged bound children unique.1 built.framed copied.wellFormed
  refine ⟨slots, rows, {
    unwritten := grown.unwritten
    planned := ?_
    shows := ?_
    mirrors := copied.below ▸ built.mirrors
    kinds := grown.spares.kinds.trans copied.extended.keepsKinds
    fragment := ?_
    within := ?_
    hangs := fun nests => built.hangs (copied.nestsAll nests)
    spares := ?_
    new := ?_
    copied := grafted ▸ grown.spares.kinds
  }⟩
  · rw [fragment]
    exact {
      laid := housed.laid
      framed := housed.framed
      homes := housed.homes
      has := fun row member => (housed.home row member).1
      recorded := List.forall_mem_cons.mpr
        ⟨Or.inr ⟨rfl, fragment.symm⟩, fun row member => Or.inl (built.recorded row member)⟩
      counts := built.counts
    }
  · rw [fragment]
    exact housed.shows
  · rw [fragment]
    exact (grown.spares.kinds.kind_eq bound).trans copied.kind
  · intro allowed nests region member parent same
    obtain ⟨known, has⟩ := within allowed nests region member parent same
    exact (grown.spares.kinds.kind_eq has) ▸ known
  · refine (grown.spares.trans (copied.extended.spares [] [])).weaken ?_ ?_
    · exact fun id member old => (copied.new id member old).elim
    · exact fun id member old => (copied.new id (List.mem_cons_of_mem _ member) old).elim
  · rw [fragment]
    intro row member old
    rcases (housed.home row member).2 with inside | outside
    · exact copied.new _ inside old
    · exact outside (copied.extended.has old)

end Scene

end LiveTemplate
