import LiveTemplate.Proofs.Ancestry

/-! The trees of a well-formed document, and the documents that adding a whole tree gives: they stay
well-formed, keep what was there, and hold the tree below its new root. -/

namespace LiveTemplate

namespace Tree

variable {α β : Type}

theorem mapForest_eq_map (f : α → β) (trees : List (Tree α)) :
    mapForest f trees = trees.map (map f) := by
  induction trees with
  | nil => rfl
  | cons tree rest ih => rw [mapForest, ih, List.map_cons]

theorem preorderForest_eq_flatMap (trees : List (Tree α)) :
    preorderForest trees = trees.flatMap preorder := by
  induction trees with
  | nil => rfl
  | cons tree rest ih => rw [preorderForest, ih, List.flatMap_cons]

mutual

theorem preorder_map (f : α → β) : ∀ tree : Tree α, (map f tree).preorder = tree.preorder.map f
  | node label children => by
      rw [map, preorder, preorder, List.map_cons, preorderForest_mapForest f children]

theorem preorderForest_mapForest (f : α → β) : ∀ trees : List (Tree α),
    preorderForest (mapForest f trees) = (preorderForest trees).map f
  | [] => rfl
  | tree :: rest => by
      rw [mapForest, preorderForest, preorderForest, List.map_append, preorder_map f tree,
        preorderForest_mapForest f rest]

end

theorem size_pos : ∀ tree : Tree α, 0 < tree.size
  | node _ _ => by rw [size]; omega

end Tree

namespace Document

/-! Unfolding the trees of a document. -/

namespace WellFormed

variable {document : Document}

theorem lineage_length_of_parent? (wellFormed : document.WellFormed) {parent id : NodeId}
    (linked : document.parent? id = some parent) :
    (document.lineage id).length = (document.lineage parent).length + 1 := by
  obtain ⟨chain, ascends⟩ := wellFormed.exists_ascends parent
  rw [ascends.lineage_eq wellFormed, (Ascends.step linked ascends).lineage_eq wellFormed]
  rfl

theorem lineage_length_le (wellFormed : document.WellFormed) {id : NodeId}
    (bound : document.Has id) : (document.lineage id).length ≤ document.size := by
  obtain ⟨chain, ascends⟩ := wellFormed.exists_ascends id
  rw [ascends.lineage_eq wellFormed]
  exact ascends.length_le_size wellFormed bound

/-- The lineages of the nodes get longer downwards, but not longer than the table of nodes. -/
theorem downward (wellFormed : document.WellFormed) :
    WellFounded fun child parent => child ∈ document.children parent := by
  refine Subrelation.wf ?_
    (measure fun id => document.size + 1 - (document.lineage id).length).wf
  intro child parent member
  have linked := (wellFormed.linked parent child).mp member
  have longer := wellFormed.lineage_length_of_parent? linked
  have bounded := wellFormed.lineage_length_le (has_of_parent? linked)
  change document.size + 1 - (document.lineage child).length <
    document.size + 1 - (document.lineage parent).length
  omega

/-- A layout that goes down as many levels as can be left below a node is complete. -/
theorem layoutUpTo_succ (wellFormed : document.WellFormed) (limit : Nat) (id : NodeId)
    (enough : document.size ≤ limit + (document.lineage id).length) :
    document.layoutUpTo (limit + 1) id = document.layoutUpTo limit id := by
  induction limit generalizing id with
  | zero =>
      have childless : document.children id = [] := by
        rw [List.eq_nil_iff_forall_not_mem]
        intro child member
        have linked := (wellFormed.linked id child).mp member
        have length := wellFormed.lineage_length_of_parent? linked
        have bounded := wellFormed.lineage_length_le (has_of_parent? linked)
        omega
      simp [layoutUpTo, childless]
  | succ limit ih =>
      rw [layoutUpTo, layoutUpTo]
      congr 1
      apply List.map_congr_left
      intro child member
      have length := wellFormed.lineage_length_of_parent? ((wellFormed.linked id child).mp member)
      exact ih child (by omega)

theorem layout_eq (wellFormed : document.WellFormed) (id : NodeId) :
    document.layout id = .node id ((document.children id).map document.layout) := by
  rw [layout, ← wellFormed.layoutUpTo_succ document.size id (Nat.le_add_right _ _)]
  rfl

theorem tree_eq (wellFormed : document.WellFormed) (id : NodeId) :
    document.tree id = .node (document.content id) ((document.children id).map document.tree) := by
  rw [tree, wellFormed.layout_eq, Tree.map, Tree.mapForest_eq_map, List.map_map]
  rfl

theorem forest_eq (wellFormed : document.WellFormed) (id : NodeId) :
    document.forest id = (document.children id).map document.tree := by
  rw [forest, wellFormed.tree_eq]
  rfl

/-- What holds of the forest of a node and is handed down to the children of its trees holds of the
forests of all nodes below it. -/
theorem forest_of_isAbove (wellFormed : document.WellFormed) (holds : List (Tree Content) → Prop)
    (inner : ∀ trees, holds trees → ∀ tree ∈ trees, holds tree.children) {root id : NodeId}
    (above : document.IsAbove root id) (start : holds (document.forest root)) :
    holds (document.forest id) := by
  induction above with
  | refl => exact start
  | @tail parent child _ linked ih =>
      rw [wellFormed.forest_eq parent] at ih
      exact inner _ ih _ (List.mem_map_of_mem ((wellFormed.linked parent child).mpr linked))

theorem isAbove_of_mem_layoutUpTo (wellFormed : document.WellFormed) {limit : Nat}
    {id other : NodeId} (member : other ∈ (document.layoutUpTo limit id).preorder) :
    document.IsAbove id other := by
  induction limit generalizing id with
  | zero =>
      have same : other = id := by simpa [layoutUpTo, Tree.preorder, Tree.preorderForest] using member
      exact same ▸ Relation.ReflTransGen.refl
  | succ limit ih =>
      rw [layoutUpTo, Tree.preorder, Tree.preorderForest_eq_flatMap, List.flatMap_map,
        List.mem_cons, List.mem_flatMap] at member
      rcases member with rfl | ⟨child, childMember, below⟩
      · exact Relation.ReflTransGen.refl
      · exact Relation.ReflTransGen.head ((wellFormed.linked id child).mp childMember) (ih below)

end WellFormed

theorem label_tree (document : Document) (id : NodeId) :
    (document.tree id).label = document.content id := by
  rw [tree, layout]
  cases document.size <;> rfl

theorem WellFormed.parent?_of_isAbove {document : Document} {parent child id : NodeId}
    (linked : document.parent? child = some parent) (above : document.IsAbove child id) :
    ∃ upper, document.parent? id = some upper := by
  rcases Relation.ReflTransGen.cases_tail above with rfl | ⟨upper, _, upperLinked⟩
  · exact ⟨parent, linked⟩
  · exact ⟨upper, upperLinked⟩

/-! Adding a tree. -/

structure Plantable (tree : Tree Content) : Prop where
  names : ∀ content ∈ tree.preorder, content.attributes.Pairwise fun first second =>
    first.name.agrees second.name = false
  fragments : ∀ content ∈ Tree.preorderForest tree.children, content.kind ≠ .fragment

theorem WellFormed.plantable_forest {document : Document} (wellFormed : document.WellFormed)
    {content : Content} (distinct : content.attributes.Pairwise fun first second =>
      first.name.agrees second.name = false) (id : NodeId) :
    Plantable (.node content (document.forest id)) := by
  have origin : ∀ label ∈ Tree.preorderForest (document.forest id),
      ∃ child, document.content child = label ∧ ∃ upper, document.parent? child = some upper := by
    intro label member
    rw [wellFormed.forest_eq, Tree.preorderForest_eq_flatMap, List.flatMap_map,
      List.mem_flatMap] at member
    obtain ⟨child, childMember, below⟩ := member
    rw [tree, Tree.preorder_map, List.mem_map] at below
    obtain ⟨other, otherMember, rfl⟩ := below
    exact ⟨other, rfl, parent?_of_isAbove ((wellFormed.linked id child).mp childMember)
      (wellFormed.isAbove_of_mem_layoutUpTo otherMember)⟩
  constructor
  · intro label member
    rcases List.mem_cons.mp member with rfl | below
    · exact distinct
    · obtain ⟨child, rfl, _⟩ := origin label below
      exact wellFormed.names child
  · intro label member isFragment
    obtain ⟨child, rfl, upper, linked⟩ := origin label member
    exact wellFormed.kind_of_parent? linked isFragment

mutual

def Stores (document : Document) (first : Nat) (parent? : Option NodeId) : Tree Content → Prop
  | .node content children =>
    document.node ⟨first⟩ = ⟨content, parent?, roots (first + 1) children⟩ ∧
      StoresAll document (first + 1) (some ⟨first⟩) children

def StoresAll (document : Document) (first : Nat) (parent? : Option NodeId) :
    List (Tree Content) → Prop
  | [] => True
  | tree :: rest =>
    Stores document first parent? tree ∧ StoresAll document (first + tree.size) parent? rest

end

mutual

theorem length_entries : ∀ (first : Nat) (parent? : Option NodeId) (tree : Tree Content),
    (entries first parent? tree).length = tree.size
  | first, _, .node _ children => by
      rw [entries, List.length_cons, length_entriesAll (first + 1) (some ⟨first⟩) children,
        Tree.size, Nat.add_comm]

theorem length_entriesAll : ∀ (first : Nat) (parent? : Option NodeId) (trees : List (Tree Content)),
    (entriesAll first parent? trees).length = Tree.sizeForest trees
  | _, _, [] => rfl
  | first, parent?, tree :: rest => by
      rw [entriesAll, List.length_append, length_entries first parent? tree,
        length_entriesAll (first + tree.size) parent? rest, Tree.sizeForest]

end

mutual

theorem stores_of_entries {document : Document} : ∀ (first : Nat) (parent? : Option NodeId)
    (tree : Tree Content),
    (∀ (index : Nat) (entry : Node), (entries first parent? tree)[index]? = some entry →
      document.node ⟨first + index⟩ = entry) → document.Stores first parent? tree
  | first, parent?, .node content children, entered => by
      refine ⟨entered 0 _ (by rw [entries]; rfl), ?_⟩
      apply storesAll_of_entriesAll
      intro index entry found
      have shifted := entered (index + 1) entry (by rwa [entries, List.getElem?_cons_succ])
      rwa [Nat.add_assoc, Nat.add_comm 1 index]

theorem storesAll_of_entriesAll {document : Document} : ∀ (first : Nat) (parent? : Option NodeId)
    (trees : List (Tree Content)),
    (∀ (index : Nat) (entry : Node), (entriesAll first parent? trees)[index]? = some entry →
      document.node ⟨first + index⟩ = entry) → document.StoresAll first parent? trees
  | _, _, [], _ => trivial
  | first, parent?, tree :: rest, entered => by
      constructor
      · apply stores_of_entries
        intro index entry found
        apply entered index entry
        obtain ⟨bound, _⟩ := List.getElem?_eq_some_iff.mp found
        rwa [entriesAll, List.getElem?_append_left bound]
      · apply storesAll_of_entriesAll
        intro index entry found
        rw [Nat.add_assoc]
        apply entered
        rw [entriesAll, List.getElem?_append_right (by rw [length_entries]; omega), length_entries,
          Nat.add_sub_cancel_left]
        exact found

end

theorem toList_graft (document : Document) (tree : Tree Content) :
    (document.graft tree).2.nodes.toList = document.nodes.toList ++ entries document.size none tree :=
  Array.toList_appendList

theorem node_eq_toList (document : Document) (id : NodeId) :
    document.node id = document.nodes.toList[id.index]?.getD ⟨.fragment, none, []⟩ := by
  simp [node, Array.getD_eq_getD_getElem?]

theorem size_graft (document : Document) (tree : Tree Content) :
    (document.graft tree).2.size = document.size + tree.size := by
  rw [size, ← Array.length_toList, toList_graft, List.length_append, length_entries,
    Array.length_toList, size]

theorem has_graft (document : Document) (tree : Tree Content) :
    (document.graft tree).2.Has (document.graft tree).1 := by
  have size := size_graft document tree
  have positive := tree.size_pos
  simp only [Has, graft] at size ⊢
  omega

theorem extends_graft (document : Document) (tree : Tree Content) :
    (document.graft tree).2.Extends document where
  size_le := by
    rw [size_graft]
    exact Nat.le_add_right _ _
  node_eq := by
    intro id bound
    have bound : id.index < document.nodes.toList.length := bound
    rw [node_eq_toList, node_eq_toList, toList_graft, List.getElem?_append_left bound]

theorem stores_graft (document : Document) (tree : Tree Content) :
    (document.graft tree).2.Stores document.size none tree := by
  apply stores_of_entries
  intro index entry found
  have outside : document.nodes.toList.length ≤ document.size + index := Nat.le_add_right _ _
  have place : document.size + index - document.nodes.toList.length = index :=
    Nat.add_sub_cancel_left _ _
  rw [node_eq_toList, toList_graft, List.getElem?_append_right outside, place, found,
    Option.getD_some]

mutual

theorem Stores.tree_eq {document : Document} (wellFormed : document.WellFormed) :
    ∀ (first : Nat) (parent? : Option NodeId) (tree : Tree Content),
      document.Stores first parent? tree → document.tree ⟨first⟩ = tree
  | first, parent?, .node content children, ⟨root, below⟩ => by
      rw [wellFormed.tree_eq, Document.content, Document.children, root]
      simp only [Tree.node.injEq, true_and]
      exact StoresAll.trees_eq wellFormed (first + 1) (some ⟨first⟩) children below

theorem StoresAll.trees_eq {document : Document} (wellFormed : document.WellFormed) :
    ∀ (first : Nat) (parent? : Option NodeId) (trees : List (Tree Content)),
      document.StoresAll first parent? trees → (roots first trees).map document.tree = trees
  | _, _, [], _ => rfl
  | first, parent?, tree :: rest, ⟨head, later⟩ => by
      rw [roots, List.map_cons, Stores.tree_eq wellFormed first parent? tree head,
        StoresAll.trees_eq wellFormed (first + tree.size) parent? rest later]

end

structure Ranged (document : Document) (first last : Nat) (parent? : Option NodeId)
    (tops : List NodeId) (labels : List Content) : Prop where
  top : ∀ id ∈ tops, first ≤ id.index ∧ id.index < last ∧ document.parent? id = parent?
  unique : tops.Nodup
  below : ∀ id, first ≤ id.index → id.index < last → id ∈ tops ∨
    ∃ parent, first ≤ parent.index ∧ parent.index < id.index ∧
      document.parent? id = some parent ∧ id ∈ document.children parent
  child : ∀ id, first ≤ id.index → id.index < last → ∀ child ∈ document.children id,
    id.index < child.index ∧ child.index < last ∧ document.parent? child = some id
  childUnique : ∀ id, first ≤ id.index → id.index < last → (document.children id).Nodup
  label : ∀ id, first ≤ id.index → id.index < last → document.content id ∈ labels

mutual

theorem Stores.ranged {document : Document} : ∀ (first : Nat) (parent? : Option NodeId)
    (tree : Tree Content), document.Stores first parent? tree →
      document.Ranged first (first + tree.size) parent? [⟨first⟩] tree.preorder
  | first, parent?, .node content children, ⟨root, below⟩ => by
      have inner := StoresAll.ranged (first + 1) (some ⟨first⟩) children below
      have childrenEq : document.children ⟨first⟩ = roots (first + 1) children := by
        rw [Document.children, root]
      have last : first + (Tree.node content children).size =
          first + 1 + Tree.sizeForest children := by
        rw [Tree.size, Nat.add_assoc]
      rw [last]
      -- The root has the first number and everything else belongs to the forest below it.
      have cases_root (id : NodeId) (lower : first ≤ id.index) :
          id = ⟨first⟩ ∨ first + 1 ≤ id.index := by
        rcases Nat.eq_or_lt_of_le lower with same | greater
        · exact Or.inl (by rw [same])
        · exact Or.inr greater
      constructor
      · intro id member
        rw [List.mem_singleton.mp member, Document.parent?, root]
        exact ⟨Nat.le_refl _, by simp only; omega, rfl⟩
      · simp
      · intro id lower upper
        rcases cases_root id lower with rfl | later
        · exact Or.inl (by simp)
        · right
          rcases inner.below id later upper with top | ⟨parent, bounds⟩
          · exact ⟨⟨first⟩, Nat.le_refl _, later, (inner.top id top).2.2, childrenEq ▸ top⟩
          · exact ⟨parent, by omega, bounds.2⟩
      · intro id lower upper child member
        rcases cases_root id lower with rfl | later
        · rw [childrenEq] at member
          have top := inner.top child member
          exact ⟨by simp only; omega, top.2⟩
        · exact inner.child id later upper child member
      · intro id lower upper
        rcases cases_root id lower with rfl | later
        · rw [childrenEq]
          exact inner.unique
        · exact inner.childUnique id later upper
      · intro id lower upper
        rw [Tree.preorder]
        rcases cases_root id lower with rfl | later
        · rw [Document.content, root]
          exact List.mem_cons_self
        · exact List.mem_cons_of_mem _ (inner.label id later upper)

theorem StoresAll.ranged {document : Document} : ∀ (first : Nat) (parent? : Option NodeId)
    (trees : List (Tree Content)), document.StoresAll first parent? trees →
      document.Ranged first (first + Tree.sizeForest trees) parent? (roots first trees)
        (Tree.preorderForest trees)
  | first, parent?, [], _ => by
      constructor <;> intros <;> simp_all [roots, Tree.sizeForest] <;> omega
  | first, parent?, tree :: rest, ⟨head, later⟩ => by
      have left := Stores.ranged first parent? tree head
      have right := StoresAll.ranged (first + tree.size) parent? rest later
      have positive := tree.size_pos
      have last : first + Tree.sizeForest (tree :: rest) =
          first + tree.size + Tree.sizeForest rest := by
        rw [Tree.sizeForest, Nat.add_assoc]
      rw [last, roots, Tree.preorderForest]
      -- The numbers of the first tree end where those of the others begin.
      constructor
      · intro id member
        rcases List.mem_cons.mp member with rfl | other
        · have top := left.top _ (List.mem_singleton.mpr rfl)
          exact ⟨top.1, by omega, top.2.2⟩
        · have top := right.top id other
          exact ⟨by omega, top.2⟩
      · refine List.nodup_cons.mpr ⟨?_, right.unique⟩
        intro member
        have top := right.top _ member
        simp only at top
        omega
      · intro id lower upper
        by_cases early : id.index < first + tree.size
        · exact (left.below id lower early).imp_left
            fun top => List.mem_cons.mpr (Or.inl (List.mem_singleton.mp top))
        · rcases right.below id (by omega) upper with top | ⟨parent, bounds⟩
          · exact Or.inl (List.mem_cons_of_mem _ top)
          · exact Or.inr ⟨parent, by omega, bounds.2⟩
      · intro id lower upper child member
        by_cases early : id.index < first + tree.size
        · have inner := left.child id lower early child member
          exact ⟨inner.1, by omega, inner.2.2⟩
        · exact right.child id (by omega) upper child member
      · intro id lower upper
        by_cases early : id.index < first + tree.size
        · exact left.childUnique id lower early
        · exact right.childUnique id (by omega) upper
      · intro id lower upper
        by_cases early : id.index < first + tree.size
        · exact List.mem_append_left _ (left.label id lower early)
        · exact List.mem_append_right _ (right.label id (by omega) upper)

end

section

variable {document : Document} {tree : Tree Content}

theorem ranged_graft (document : Document) (tree : Tree Content) :
    (document.graft tree).2.Ranged document.size (document.size + tree.size) none
      [⟨document.size⟩] tree.preorder :=
  Stores.ranged document.size none tree (stores_graft document tree)

theorem linked_graft (wellFormed : document.WellFormed) (parent child : NodeId) :
    child ∈ (document.graft tree).2.children parent ↔
      (document.graft tree).2.parent? child = some parent := by
  have extended := extends_graft document tree
  have ranged := ranged_graft document tree
  have size := size_graft document tree
  generalize (document.graft tree).2 = result at extended ranged size ⊢
  have bound_of_member (id : NodeId) (member : child ∈ result.children id) :
      id.index < document.size + tree.size := size ▸ has_of_mem_children member
  by_cases old : document.Has child
  · by_cases parentOld : document.Has parent
    · rw [extended.children_eq parentOld, extended.parent?_eq old, wellFormed.linked]
    · constructor
      · intro member
        have later := ranged.child parent (Nat.le_of_not_lt parentOld) (bound_of_member parent member)
          child member
        exact absurd (Nat.lt_trans later.1 old) parentOld
      · intro linked
        rw [extended.parent?_eq old] at linked
        exact absurd (wellFormed.has_parent linked) parentOld
  · constructor
    · intro member
      by_cases parentOld : document.Has parent
      · rw [extended.children_eq parentOld] at member
        exact absurd (wellFormed.has_child member) old
      · exact (ranged.child parent (Nat.le_of_not_lt parentOld) (bound_of_member parent member)
          child member).2.2
    · intro linked
      have bound : child.index < document.size + tree.size := size ▸ has_of_parent? linked
      rcases ranged.below child (Nat.le_of_not_lt old) bound with top | ⟨upper, _, _, upperLinked, member⟩
      · simp [(ranged.top child top).2.2] at linked
      · rw [linked, Option.some.injEq] at upperLinked
        exact upperLinked ▸ member

theorem founded_graft (wellFormed : document.WellFormed) :
    WellFounded (document.graft tree).2.IsParent := by
  have extended := extends_graft document tree
  have ranged := ranged_graft document tree
  have size := size_graft document tree
  generalize (document.graft tree).2 = result at extended ranged size ⊢
  have grounded : ∀ id, document.Has id → Acc result.IsParent id := by
    intro id
    induction id using wellFormed.founded.induction with
    | _ id ih =>
        intro old
        constructor
        intro upper upperLinked
        have upperLinked : result.parent? id = some upper := upperLinked
        rw [extended.parent?_eq old] at upperLinked
        exact ih upper upperLinked (wellFormed.has_parent upperLinked)
  constructor
  rintro ⟨index⟩
  -- The parents of new nodes are new and have smaller numbers.
  induction index using Nat.strongRecOn with
  | ind index ih =>
      by_cases old : document.Has ⟨index⟩
      · exact grounded ⟨index⟩ old
      · constructor
        rintro ⟨upper⟩ upperLinked
        have upperLinked : result.parent? ⟨index⟩ = some ⟨upper⟩ := upperLinked
        rcases ranged.below ⟨index⟩ (Nat.le_of_not_lt old) (size ▸ has_of_parent? upperLinked) with
          top | ⟨parent, _, earlier, parentLinked, _⟩
        · simp [(ranged.top _ top).2.2] at upperLinked
        · rw [upperLinked, Option.some.injEq] at parentLinked
          exact ih upper (by rw [← parentLinked] at earlier; exact earlier)

theorem wellFormed_graft (wellFormed : document.WellFormed) (plantable : Plantable tree) :
    (document.graft tree).2.WellFormed := by
  have extended := extends_graft document tree
  have ranged := ranged_graft document tree
  have size := size_graft document tree
  have inner : ∀ id, document.size < id.index → id.index < document.size + tree.size →
      (document.graft tree).2.content id ∈ Tree.preorderForest tree.children := by
    have stored := stores_graft document tree
    obtain ⟨content, children⟩ := tree
    intro id lower upper
    have below := StoresAll.ranged (document.size + 1) (some ⟨document.size⟩) children stored.2
    exact below.label id lower (by rw [Tree.size] at upper; omega)
  refine {
    linked := linked_graft wellFormed
    unique := ?_
    founded := founded_graft wellFormed
    fragments := ?_
    names := ?_
  }
  · intro parent
    by_cases old : document.Has parent
    · rw [extended.children_eq old]
      exact wellFormed.unique parent
    · by_cases bound : (document.graft tree).2.Has parent
      · exact ranged.childUnique parent (Nat.le_of_not_lt old) (size ▸ bound)
      · simp [children, node_of_not_has bound]
  · intro id isFragment
    by_cases old : document.Has id
    · rw [extended.kind_eq old] at isFragment
      rw [extended.parent?_eq old]
      exact wellFormed.fragments id isFragment
    · by_cases bound : (document.graft tree).2.Has id
      · rcases Nat.eq_or_lt_of_le (Nat.le_of_not_lt old) with same | later
        · exact (ranged.top id (by simp [same])).2.2
        · exact absurd isFragment (plantable.fragments _ (inner id later (size ▸ bound)))
      · simp [parent?, node_of_not_has bound]
  · intro id
    by_cases old : document.Has id
    · rw [extended.content_eq old]
      exact wellFormed.names id
    · by_cases bound : (document.graft tree).2.Has id
      · exact plantable.names _ (ranged.label id (Nat.le_of_not_lt old) (size ▸ bound))
      · simp [content, node_of_not_has bound, Content.attributes]

theorem tree_graft (wellFormed : document.WellFormed) (plantable : Plantable tree) :
    (document.graft tree).2.tree (document.graft tree).1 = tree :=
  Stores.tree_eq (wellFormed_graft wellFormed plantable) document.size none tree
    (stores_graft document tree)

end

theorem create_eq_graft (document : Document) (content : Content) :
    document.create content = document.graft (.node content []) := by
  rw [create, graft, entries, roots, entriesAll]
  congr 2

theorem plantable_leaf {content : Content} (distinct : content.attributes.Pairwise
    fun first second => first.name.agrees second.name = false) : Plantable (.node content []) where
  names := by
    intro label member
    have same : label = content := by simpa [Tree.preorder, Tree.preorderForest] using member
    exact same ▸ distinct
  fragments := by
    intro label member
    simp [Tree.children, Tree.preorderForest] at member

theorem wellFormed_create {document : Document} (wellFormed : document.WellFormed)
    {content : Content} (plain : content.attributes = []) :
    (document.create content).2.WellFormed := by
  rw [create_eq_graft]
  exact wellFormed_graft wellFormed (plantable_leaf (plain ▸ List.Pairwise.nil))

theorem extends_create (document : Document) (content : Content) :
    (document.create content).2.Extends document := by
  rw [create_eq_graft]
  exact extends_graft document _

theorem has_create_iff (document : Document) (content : Content) {id : NodeId} :
    (document.create content).2.Has id ↔ document.Has id ∨ id = (document.create content).1 := by
  have size : (document.create content).2.size = document.size + 1 := Array.size_push _
  rw [Has, Has, size, Nat.lt_succ_iff_lt_or_eq]
  refine or_congr_right ⟨congrArg NodeId.mk, ?_⟩
  rintro rfl
  rfl

theorem node_create (document : Document) (content : Content) :
    (document.create content).2.node (document.create content).1 = ⟨content, none, []⟩ := by
  rw [create_eq_graft]
  exact (stores_graft document (.node content [])).1

theorem node_create_of_ne (document : Document) (content : Content) {id : NodeId}
    (differ : id ≠ (document.create content).1) :
    (document.create content).2.node id = document.node id := by
  by_cases bound : document.Has id
  · exact (extends_create document content).node_eq id bound
  · rw [node_of_not_has bound, node_of_not_has]
    rw [has_create_iff, not_or]
    exact ⟨bound, differ⟩

theorem content_create (document : Document) (content : Content) (id : NodeId) :
    (document.create content).2.content id =
      if id = (document.create content).1 then content else document.content id := by
  split
  · rename_i same
    rw [same, Document.content, node_create]
  · rename_i differ
    rw [Document.content, node_create_of_ne document content differ, Document.content]

theorem node_created (document : Document) (content : Content) :
    document.node (document.create content).1 = ⟨.fragment, none, []⟩ :=
  node_of_not_has (Nat.lt_irrefl _)

theorem children_create (document : Document) (content : Content) (id : NodeId) :
    (document.create content).2.children id = document.children id := by
  by_cases same : id = (document.create content).1
  · rw [same, children, children, node_create, node_created]
  · rw [children, children, node_create_of_ne document content same]

end Document

end LiveTemplate
