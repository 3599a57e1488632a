import LiveTemplate.Proofs.Planting
import LiveTemplate.Proofs.Growing

/-! The layout of a document as a tree of its own, which a step keeps as long as it spares the nodes
in it. -/

namespace LiveTemplate

namespace Tree

variable {α β : Type}

mutual

theorem map_congr {first second : α → β} : ∀ tree : Tree α,
    (∀ label ∈ tree.preorder, first label = second label) → map first tree = map second tree
  | node label children, same => by
      rw [preorder] at same
      rw [map, map, same label (List.mem_cons_self ..), mapForest_congr children fun other member =>
        same other (List.mem_cons_of_mem _ member)]

theorem mapForest_congr {first second : α → β} : ∀ trees : List (Tree α),
    (∀ label ∈ preorderForest trees, first label = second label) →
      mapForest first trees = mapForest second trees
  | [], _ => rfl
  | tree :: rest, same => by
      rw [preorderForest] at same
      rw [mapForest, mapForest, map_congr tree fun label member =>
          same label (List.mem_append_left _ member),
        mapForest_congr rest fun label member => same label (List.mem_append_right _ member)]

end

theorem label_mem_preorder (tree : Tree α) : tree.label ∈ tree.preorder := by
  cases tree with
  | node label _ =>
      rw [preorder]
      exact List.mem_cons_self ..

theorem preorder_subset_forest {tree : Tree α} {trees : List (Tree α)} (member : tree ∈ trees) :
    ∀ label ∈ tree.preorder, label ∈ preorderForest trees := by
  intro label inside
  rw [preorderForest_eq_flatMap]
  exact List.mem_flatMap.mpr ⟨tree, member, inside⟩

theorem preorderForest_singleton (tree : Tree α) : preorderForest [tree] = tree.preorder := by
  rw [preorderForest, preorderForest, List.append_nil]

theorem below_subset_preorder (tree : Tree α) :
    ∀ label ∈ preorderForest tree.children, label ∈ tree.preorder := by
  cases tree with
  | node label _ =>
      intro other below
      rw [preorder]
      exact List.mem_cons_of_mem _ below

theorem below_subset_forest {trees : List (Tree α)} :
    ∀ label ∈ trees.flatMap (fun tree => preorderForest tree.children),
      label ∈ preorderForest trees := by
  intro label below
  obtain ⟨tree, member, inside⟩ := List.mem_flatMap.mp below
  exact preorder_subset_forest member label (below_subset_preorder tree label inside)

theorem label_map (f : α → β) (tree : Tree α) : (tree.map f).label = f tree.label := by
  cases tree with
  | node label _ => rfl

end Tree

namespace Document

mutual

def Outlined (document : Document) : Tree NodeId → Prop
  | .node id children =>
    document.Has id ∧ document.children id = children.map Tree.label ∧ OutlinedAll document children

def OutlinedAll (document : Document) : List (Tree NodeId) → Prop
  | [] => True
  | tree :: rest => Outlined document tree ∧ OutlinedAll document rest

end

theorem label_layout {document : Document} (wellFormed : document.WellFormed) (id : NodeId) :
    (document.layout id).label = id := by
  rw [wellFormed.layout_eq]
  rfl

mutual

theorem outlined_of_layout {document : Document} (wellFormed : document.WellFormed) :
    ∀ (tree : Tree NodeId) (id : NodeId), document.layout id = tree → document.Has id →
      document.Outlined tree
  | .node label children, id, same, bound => by
      rw [wellFormed.layout_eq] at same
      cases same
      refine ⟨bound, ?_, ?_⟩
      · rw [List.map_map]
        exact (List.map_id _).symm.trans (List.map_congr_left fun child _ =>
          (label_layout wellFormed child).symm)
      · exact outlinedAll_of_layout wellFormed _ (document.children label) rfl fun child member =>
          wellFormed.has_child member

theorem outlinedAll_of_layout {document : Document} (wellFormed : document.WellFormed) :
    ∀ (trees : List (Tree NodeId)) (ids : List NodeId), ids.map document.layout = trees →
      (∀ id ∈ ids, document.Has id) → document.OutlinedAll trees
  | [], _, _, _ => trivial
  | tree :: rest, [], same, _ => by cases same
  | tree :: rest, id :: ids, same, bound => by
      rw [List.map_cons, List.cons.injEq] at same
      exact ⟨outlined_of_layout wellFormed tree id same.1 (bound id (List.mem_cons_self ..)),
        outlinedAll_of_layout wellFormed rest ids same.2 fun other member =>
          bound other (List.mem_cons_of_mem _ member)⟩

end

mutual

theorem Outlined.has {document : Document} : ∀ tree : Tree NodeId, document.Outlined tree →
    ∀ id ∈ tree.preorder, document.Has id
  | .node label children, outlined, id, member => by
      rw [Tree.preorder] at member
      rcases List.mem_cons.mp member with rfl | below
      · exact outlined.1
      · exact OutlinedAll.has children outlined.2.2 id below

theorem OutlinedAll.has {document : Document} : ∀ trees : List (Tree NodeId),
    document.OutlinedAll trees → ∀ id ∈ Tree.preorderForest trees, document.Has id
  | [], _, _, member => by cases member
  | tree :: rest, outlined, id, member => by
      rw [Tree.preorderForest] at member
      rcases List.mem_append.mp member with first | later
      · exact Outlined.has tree outlined.1 id first
      · exact OutlinedAll.has rest outlined.2 id later

end

mutual

theorem Outlined.spares {document result : Document} {changed moved : List NodeId}
    (spares : result.Spares document changed moved) : ∀ tree : Tree NodeId,
      document.Outlined tree → (∀ id ∈ tree.preorder, id ∉ changed) → result.Outlined tree
  | .node label children, outlined, apart => by
      rw [Tree.preorder] at apart
      refine ⟨spares.kinds.has outlined.1, ?_, ?_⟩
      · rw [spares.children_eq label outlined.1 (apart label (List.mem_cons_self ..))]
        exact outlined.2.1
      · exact OutlinedAll.spares spares children outlined.2.2 fun id member =>
          apart id (List.mem_cons_of_mem _ member)

theorem OutlinedAll.spares {document result : Document} {changed moved : List NodeId}
    (spares : result.Spares document changed moved) : ∀ trees : List (Tree NodeId),
      document.OutlinedAll trees → (∀ id ∈ Tree.preorderForest trees, id ∉ changed) →
        result.OutlinedAll trees
  | [], _, _ => trivial
  | tree :: rest, outlined, apart => by
      rw [Tree.preorderForest] at apart
      exact ⟨Outlined.spares spares tree outlined.1 fun id member =>
          apart id (List.mem_append_left _ member),
        OutlinedAll.spares spares rest outlined.2 fun id member =>
          apart id (List.mem_append_right _ member)⟩

end

theorem IsAbove.total {document : Document} {first second id : NodeId}
    (left : document.IsAbove first id) (right : document.IsAbove second id) :
    document.IsAbove first second ∨ document.IsAbove second first := by
  have unique : Relator.RightUnique (Function.swap document.IsParent) := by
    intro child one other oneParent otherParent
    exact Option.some.inj (oneParent.symm.trans otherParent)
  rcases Relation.ReflTransGen.total_of_right_unique unique
    (Relation.reflTransGen_swap.mpr left) (Relation.reflTransGen_swap.mpr right) with above | above
  · exact Or.inr (Relation.reflTransGen_swap.mp above)
  · exact Or.inl (Relation.reflTransGen_swap.mp above)

theorem WellFormed.isAbove_siblings {document : Document} (wellFormed : document.WellFormed)
    {parent first second : NodeId} (firstMember : first ∈ document.children parent)
    (secondMember : second ∈ document.children parent) (above : document.IsAbove first second) :
    first = second := by
  rcases Relation.ReflTransGen.cases_tail above with same | ⟨upper, aboveUpper, linked⟩
  · exact same.symm
  · have upperEq : upper = parent :=
      Option.some.inj (linked.symm.trans ((wellFormed.linked parent second).mp secondMember))
    rw [upperEq] at aboveUpper
    exact (wellFormed.not_isAbove_of_child firstMember aboveUpper).elim

mutual

theorem Outlined.nodup {document : Document} (wellFormed : document.WellFormed) :
    ∀ tree : Tree NodeId, document.Outlined tree →
      tree.preorder.Nodup ∧ ∀ id ∈ tree.preorder, document.IsAbove tree.label id
  | .node label children, outlined => by
      have listed : ∀ child ∈ children, child.label ∈ document.children label := by
        intro child member
        rw [outlined.2.1]
        exact List.mem_map_of_mem member
      obtain ⟨unique, covered⟩ := OutlinedAll.nodup wellFormed children outlined.2.2 label listed
        (outlined.2.1 ▸ wellFormed.unique label)
      rw [Tree.preorder]
      constructor
      · refine List.nodup_cons.mpr ⟨?_, unique⟩
        intro member
        obtain ⟨child, childMember, above⟩ := covered label member
        exact wellFormed.not_isAbove_of_child (listed child childMember) above
      · intro id member
        rcases List.mem_cons.mp member with rfl | below
        · exact Relation.ReflTransGen.refl
        · obtain ⟨child, childMember, above⟩ := covered id below
          exact Relation.ReflTransGen.head
            ((wellFormed.linked label _).mp (listed child childMember)) above

theorem OutlinedAll.nodup {document : Document} (wellFormed : document.WellFormed) :
    ∀ trees : List (Tree NodeId), document.OutlinedAll trees → ∀ parent : NodeId,
      (∀ tree ∈ trees, tree.label ∈ document.children parent) → (trees.map Tree.label).Nodup →
        (Tree.preorderForest trees).Nodup ∧
          ∀ id ∈ Tree.preorderForest trees, ∃ tree ∈ trees, document.IsAbove tree.label id
  | [], _, _, _, _ => ⟨List.nodup_nil, fun _ member => by cases member⟩
  | tree :: rest, outlined, parent, listed, labels => by
      obtain ⟨headUnique, headCovered⟩ := Outlined.nodup wellFormed tree outlined.1
      obtain ⟨fresh, restLabels⟩ := List.nodup_cons.mp labels
      obtain ⟨restUnique, restCovered⟩ := OutlinedAll.nodup wellFormed rest outlined.2 parent
        (fun other member => listed other (List.mem_cons_of_mem _ member)) restLabels
      rw [Tree.preorderForest]
      constructor
      · refine List.nodup_append'.mpr ⟨headUnique, restUnique, ?_⟩
        intro id member later
        obtain ⟨other, otherMember, otherAbove⟩ := restCovered id later
        have first := listed tree (List.mem_cons_self ..)
        have second := listed other (List.mem_cons_of_mem _ otherMember)
        have same : tree.label = other.label := by
          rcases (headCovered id member).total otherAbove with above | above
          · exact wellFormed.isAbove_siblings first second above
          · exact (wellFormed.isAbove_siblings second first above).symm
        exact fresh (same ▸ List.mem_map_of_mem otherMember)
      · intro id member
        rcases List.mem_append.mp member with inside | later
        · exact ⟨tree, List.mem_cons_self .., headCovered id inside⟩
        · obtain ⟨other, otherMember, above⟩ := restCovered id later
          exact ⟨other, List.mem_cons_of_mem _ otherMember, above⟩

end

namespace WellFormed

variable {document : Document}

theorem layoutUpTo_eq (wellFormed : document.WellFormed) {limit : Nat} (enough : document.size ≤ limit)
    (id : NodeId) : document.layoutUpTo limit id = document.layout id := by
  induction limit, enough using Nat.le_induction with
  | base => rfl
  | succ limit enough ih => rw [wellFormed.layoutUpTo_succ limit id (by omega), ih]

theorem tree_congr {result : Document} (wellFormed : document.WellFormed)
    (resultWellFormed : result.WellFormed) {root : NodeId} (same : ∀ id, document.IsAbove root id →
      result.content id = document.content id ∧ result.children id = document.children id) :
    result.tree root = document.tree root := by
  have layouts : ∀ limit id, document.IsAbove root id →
      result.layoutUpTo limit id = document.layoutUpTo limit id := by
    intro limit
    induction limit with
    | zero => exact fun _ _ => rfl
    | succ limit ih =>
        intro id below
        rw [layoutUpTo, layoutUpTo, (same id below).2]
        congr 1
        refine List.map_congr_left fun child member => ih child ?_
        exact Relation.ReflTransGen.tail below ((wellFormed.linked id child).mp member)
  rw [tree, tree, ← wellFormed.layoutUpTo_eq (Nat.le_max_left document.size result.size),
    ← resultWellFormed.layoutUpTo_eq (Nat.le_max_right document.size result.size),
    layouts _ root Relation.ReflTransGen.refl]
  exact Tree.map_congr _ fun id member => (same id (wellFormed.isAbove_of_mem_layoutUpTo member)).1

end WellFormed

structure Copied (document : Document) (template : NodeId) (copy : Document) (root : NodeId)
    (trees : List (Tree NodeId)) : Prop where
  wellFormed : copy.WellFormed
  extended : copy.Extends document
  layout : copy.layout root = .node root trees
  outlined : copy.Outlined (.node root trees)
  unique : (Tree.node root trees).preorder.Nodup
  new : ∀ id ∈ (Tree.node root trees).preorder, ¬ document.Has id
  kind : copy.kind root = .fragment
  below : trees.map (Tree.map copy.content) = document.forest template

theorem WellFormed.exists_copied {document : Document} (wellFormed : document.WellFormed)
    (template : NodeId) :
    ∃ root copy trees, document.graft (.node .fragment (document.forest template)) = (root, copy) ∧
      document.Copied template copy root trees := by
  have plantable : Plantable (.node .fragment (document.forest template)) :=
    wellFormed.plantable_forest List.Pairwise.nil template
  have extended := extends_graft document (.node .fragment (document.forest template))
  have copied := wellFormed_graft wellFormed plantable
  have planted := tree_graft wellFormed plantable
  have missing : ¬ document.Has (document.graft (.node .fragment (document.forest template))).1 :=
    Nat.lt_irrefl _
  have bound : (document.graft (.node .fragment (document.forest template))).2.Has
      (document.graft (.node .fragment (document.forest template))).1 := by
    rw [Has, size_graft]
    exact Nat.lt_add_of_pos_right (Tree.size_pos _)
  generalize document.graft (.node .fragment (document.forest template)) = graft at *
  obtain ⟨root, copy⟩ := graft
  dsimp only at extended copied planted missing bound
  have outlined := outlined_of_layout copied _ root rfl bound
  have label := label_layout copied root
  have new : ∀ id ∈ (copy.layout root).preorder, ¬ document.Has id := by
    intro id member old
    have above := copied.isAbove_of_mem_layoutUpTo member
    rw [extended.keepsLinks.isAbove_iff wellFormed old] at above
    exact missing (wellFormed.has_of_isAbove above old)
  rw [tree] at planted
  cases layout : copy.layout root with
  | node top trees =>
      rw [layout] at outlined label new planted
      have same : top = root := label
      subst same
      rw [Tree.map, Tree.mapForest_eq_map, Tree.node.injEq] at planted
      exact ⟨top, copy, trees, rfl, copied, extended, layout, outlined,
        (Outlined.nodup copied _ outlined).1, new, congrArg Content.kind planted.1, planted.2⟩

end Document

end LiveTemplate
