import LiveTemplate.Proofs.Outlines
import LiveTemplate.Proofs.Separation
import LiveTemplate.Proofs.TreeOrder

/-! Copying a node makes a tree of new nodes that corresponds to the copied one node by node, and
what is done to one of the two trees afterwards does not reach the other. -/

namespace LiveTemplate

namespace Tree

variable {α β γ : Type}

mutual

theorem exists_twin [DecidableEq α] [Inhabited β] {first : α → γ} {second : β → γ} :
    ∀ (tree : Tree α) (copy : Tree β), tree.map first = copy.map second → tree.preorder.Nodup →
      ∃ twin, tree.map twin = copy
  | node label children, node other copies, alike, unique => by
      rw [map, map, node.injEq] at alike
      rw [preorder, List.nodup_cons] at unique
      obtain ⟨twin, found⟩ := exists_twinForest children copies alike.2 unique.2
      refine ⟨Function.update twin label other, ?_⟩
      rw [map, Function.update_self, ← found]
      congr 1
      refine mapForest_congr children fun below member => Function.update_of_ne ?_ ..
      rintro rfl
      exact unique.1 member

theorem exists_twinForest [DecidableEq α] [Inhabited β] {first : α → γ} {second : β → γ} :
    ∀ (trees : List (Tree α)) (copies : List (Tree β)),
      mapForest first trees = mapForest second copies → (preorderForest trees).Nodup →
        ∃ twin, mapForest twin trees = copies
  | [], [], _, _ => ⟨fun _ => default, rfl⟩
  | tree :: rest, copy :: copies, alike, unique => by
      rw [mapForest, mapForest, List.cons.injEq] at alike
      rw [preorderForest, List.nodup_append'] at unique
      obtain ⟨left, leftFound⟩ := exists_twin tree copy alike.1 unique.1
      obtain ⟨right, rightFound⟩ := exists_twinForest rest copies alike.2 unique.2.1
      refine ⟨fun label => if label ∈ tree.preorder then left label else right label, ?_⟩
      rw [mapForest, ← leftFound, ← rightFound]
      congr 1
      · exact map_congr tree fun label member => if_pos member
      · exact mapForest_congr rest fun label member => if_neg fun inside =>
          unique.2.2 inside member

end

end Tree

namespace Document

structure Isomorphic (document : Document) (root : NodeId) (result : Document) (copy : NodeId)
    (twin : NodeId → NodeId) : Prop where
  root_eq : twin root = copy
  once : ∀ first second, document.IsAbove root first → document.IsAbove root second →
    twin first = twin second → first = second
  onto : ∀ id, result.IsAbove copy id ↔ ∃ origin, document.IsAbove root origin ∧ twin origin = id
  content : ∀ id, document.IsAbove root id → result.content (twin id) = document.content id
  children : ∀ id, document.IsAbove root id →
    result.children (twin id) = (document.children id).map twin

/-- What copying a node gives. Later operations that are not given nodes of the copy leave the copy
alone, and those that are given only new nodes leave everything else alone. -/
structure DisjointCopy (document : Document) (id : NodeId) (deep : Bool) (copy : NodeId)
    (result : Document) : Prop where
  wellFormed : result.WellFormed
  kept : ∀ other, document.Has other → result.node other = document.node other
  topmost : result.parent? copy = none
  fresh : ∀ other, result.IsAbove copy other → ¬ document.Has other ∧ result.Has other
  whole : deep = true → (∃ twin, document.Isomorphic id result copy twin) ∧
    result.outerMarkup copy = document.outerMarkup id ∧ result.text copy = document.text id
  single : deep = false → result.content copy = document.content id ∧ result.children copy = []
  copySpared : ∀ later, LeadsWithin (fun other => ¬ result.IsAbove copy other) result later →
    ∀ other, result.IsAbove copy other → later.node other = result.node other
  originalSpared : ∀ later, LeadsWithin (fun other => ¬ document.Has other) result later →
    ∀ other, document.Has other → later.node other = document.node other

variable {document result : Document} {twin : NodeId → NodeId}

mutual

theorem Outlined.children_map : ∀ tree : Tree NodeId, document.Outlined tree →
    result.Outlined (tree.map twin) → ∀ id ∈ tree.preorder,
      result.children (twin id) = (document.children id).map twin
  | .node label children, outlined, copied, id, member => by
      rw [Tree.map] at copied
      rw [Tree.preorder] at member
      rcases List.mem_cons.mp member with rfl | below
      · rw [outlined.2.1, copied.2.1, Tree.mapForest_eq_map, List.map_map, List.map_map]
        exact List.map_congr_left fun child _ => Tree.label_map twin child
      · exact OutlinedAll.children_map children outlined.2.2 copied.2.2 id below

theorem OutlinedAll.children_map : ∀ trees : List (Tree NodeId), document.OutlinedAll trees →
    result.OutlinedAll (Tree.mapForest twin trees) → ∀ id ∈ Tree.preorderForest trees,
      result.children (twin id) = (document.children id).map twin
  | [], _, _, _, member => by cases member
  | tree :: rest, outlined, copied, id, member => by
      rw [Tree.mapForest] at copied
      rw [Tree.preorderForest] at member
      rcases List.mem_append.mp member with first | later
      · exact Outlined.children_map tree outlined.1 copied.1 id first
      · exact OutlinedAll.children_map rest outlined.2 copied.2 id later

end

theorem exists_isomorphic (wellFormed : document.WellFormed) (resultWellFormed : result.WellFormed)
    {root copy : NodeId} (bound : document.Has root) (copyBound : result.Has copy)
    (alike : result.tree copy = document.tree root) :
    ∃ twin, document.Isomorphic root result copy twin := by
  have listed (id : NodeId) : id ∈ (document.layout root).preorder ↔ document.IsAbove root id :=
    wellFormed.mem_listing_iff root id
  have copied (id : NodeId) : id ∈ (result.layout copy).preorder ↔ result.IsAbove copy id :=
    resultWellFormed.mem_listing_iff copy id
  have once : (result.layout copy).preorder.Nodup := resultWellFormed.nodup_listing copy
  have outlined := outlined_of_layout wellFormed _ root rfl bound
  have copyOutlined := outlined_of_layout resultWellFormed _ copy rfl copyBound
  obtain ⟨twin, found⟩ := Tree.exists_twin (document.layout root) (result.layout copy) alike.symm
    (wellFormed.nodup_listing root)
  have labels : (result.layout copy).preorder = (document.layout root).preorder.map twin := by
    rw [← found, Tree.preorder_map]
  have contents : (document.layout root).preorder.map (result.content ∘ twin) =
      (document.layout root).preorder.map document.content := by
    rw [← List.map_map, ← labels, ← Tree.preorder_map, ← Tree.preorder_map]
    exact congrArg Tree.preorder alike
  rw [← found] at copyOutlined
  refine ⟨twin, ?_, ?_, ?_, ?_, ?_⟩
  · rw [← label_layout resultWellFormed copy, ← found, Tree.label_map, label_layout wellFormed]
  · intro first second aboveFirst aboveSecond same
    rw [labels] at once
    exact List.inj_on_of_nodup_map once ((listed first).mpr aboveFirst)
      ((listed second).mpr aboveSecond) same
  · intro id
    rw [← copied, labels, List.mem_map]
    exact exists_congr fun origin => and_congr_left' (listed origin)
  · intro id above
    exact List.map_inj_left.mp contents id ((listed id).mpr above)
  · intro id above
    exact Outlined.children_map _ outlined copyOutlined id ((listed id).mpr above)

theorem parent?_graft (document : Document) (tree : Tree Content) :
    (document.graft tree).2.parent? (document.graft tree).1 = none :=
  ((ranged_graft document tree).top _ (List.mem_singleton.mpr rfl)).2.2

theorem has_of_isAbove {root id : NodeId} (above : document.IsAbove root id)
    (bound : document.Has root) : document.Has id := by
  rcases Relation.ReflTransGen.cases_tail above with rfl | ⟨parent, _, linked⟩
  · exact bound
  · exact has_of_parent? linked

/-- No link leads out of a tree whose root has no parent. -/
theorem secludes_not_isAbove {root : NodeId} (bound : document.Has root)
    (topmost : document.parent? root = none) :
    document.Secludes fun other => ¬ document.IsAbove root other where
  linked := by
    intro parent child linked
    refine not_congr ⟨fun above => above.tail linked, fun above => ?_⟩
    rcases Relation.ReflTransGen.cases_tail above with rfl | ⟨upper, aboveUpper, upperLinked⟩
    · rw [topmost] at linked
      cases linked
    · exact Option.some.inj (upperLinked.symm.trans linked) ▸ aboveUpper
  fresh := fun _ missing above => missing (has_of_isAbove above bound)

theorem secludes_not_has (extended : result.Extends document) (wellFormed : document.WellFormed)
    (resultWellFormed : result.WellFormed) : result.Secludes fun other => ¬ document.Has other where
  linked := fun _ _ linked =>
    not_congr (extended.has_iff_of_linked wellFormed resultWellFormed linked)
  fresh := fun _ missing => mt extended.has missing

theorem Extends.not_has_of_isAbove (extended : result.Extends document)
    (wellFormed : document.WellFormed) (resultWellFormed : result.WellFormed) {root id : NodeId}
    (fresh : ¬ document.Has root) (above : result.IsAbove root id) : ¬ document.Has id := by
  induction above with
  | refl => exact fresh
  | tail _ linked ih =>
      exact mt (extended.has_iff_of_linked wellFormed resultWellFormed linked).mpr ih

theorem disjointCopy_graft (wellFormed : document.WellFormed) {id : NodeId}
    (bound : document.Has id) (deep : Bool) {source : Tree Content} (plantable : Plantable source)
    (whole : deep = true → source = document.tree id)
    (single : deep = false → source = .node (document.content id) []) :
    document.DisjointCopy id deep (document.graft source).1 (document.graft source).2 := by
  have extended := extends_graft document source
  have formed := wellFormed_graft wellFormed plantable
  have alike := tree_graft wellFormed plantable
  have topmost := parent?_graft document source
  have copyBound := has_graft document source
  have copyNew : ¬ document.Has (document.graft source).1 := Nat.lt_irrefl _
  have root := stores_graft document source
  generalize document.graft source = made at *
  obtain ⟨copy, result⟩ := made
  refine ⟨formed, fun other old => extended.node_eq other old, topmost, ?_, ?_, ?_, ?_, ?_⟩
  · intro other above
    exact ⟨extended.not_has_of_isAbove wellFormed formed copyNew above,
      has_of_isAbove above copyBound⟩
  · intro isDeep
    have alike : result.tree copy = document.tree id := alike.trans (whole isDeep)
    refine ⟨exists_isomorphic wellFormed formed bound copyBound alike, ?_, ?_⟩
    · rw [outerMarkup, alike, outerMarkup]
    · rw [text, alike, text]
  · intro isShallow
    have shape := (formed.tree_eq copy).symm.trans (alike.trans (single isShallow))
    rw [Tree.node.injEq, List.map_eq_nil_iff] at shape
    exact shape
  · intro later leads other above
    have spared := leads.sparesOutside formed (secludes_not_isAbove copyBound topmost)
    exact spared.same other (not_not.mpr above)
  · intro later leads other old
    have spared := leads.sparesOutside formed (secludes_not_has extended wellFormed formed)
    exact (spared.same other (not_not.mpr old)).trans (extended.node_eq other old)

/-- A copy is a tree of new nodes that looks like the original, and operations on one of the two
never reach the other. -/
theorem disjointCopy_clone (wellFormed : document.WellFormed) {id : NodeId}
    (bound : document.Has id) (deep : Bool) :
    document.DisjointCopy id deep (document.clone id deep).1 (document.clone id deep).2 := by
  refine disjointCopy_graft wellFormed bound deep (plantable_clone wellFormed id deep) ?_ ?_
  · rintro rfl
    rfl
  · rintro rfl
    rfl

def listDocument : Document :=
  ((Document.new.assemble "li" [("class", "x"), ("id", "y")] []).2.assemble "ul" [] [⟨1⟩]).2

def copiedList : Document :=
  (listDocument.clone ⟨2⟩ true).2

def emptiedList : Document :=
  (copiedList.edit (.setAttribute ⟨4⟩ (.plain "id") "z")).edit (.remove ⟨4⟩)

theorem wellFormed_list : listDocument.WellFormed := by
  have leads : Document.new.Leads listDocument := by
    refine .tail (.tail .refl (.assemble (by simp))) (.assemble ?_)
    intro child member
    rw [List.mem_singleton.mp member]
    change 1 < _
    decide +kernel
  exact (leads.kept wellFormed_new).1

theorem disjointCopy_list :
    listDocument.WellFormed ∧ listDocument.Has ⟨2⟩ ∧
      listDocument.DisjointCopy ⟨2⟩ true ⟨3⟩ copiedList ∧
      listDocument.DisjointCopy ⟨2⟩ false ⟨3⟩ (listDocument.clone ⟨2⟩ false).2 ∧
      LeadsWithin (fun other => ¬ listDocument.Has other) copiedList emptiedList ∧
      emptiedList.children ⟨3⟩ = [] ∧ emptiedList.node ⟨2⟩ = listDocument.node ⟨2⟩ ∧
      LeadsWithin (fun other => ¬ copiedList.IsAbove ⟨3⟩ other) copiedList
        (copiedList.edit (.remove ⟨1⟩)) ∧
      (copiedList.edit (.remove ⟨1⟩)).children ⟨2⟩ = [] ∧
      (copiedList.edit (.remove ⟨1⟩)).node ⟨3⟩ = copiedList.node ⟨3⟩ := by
  have old : listDocument.Has ⟨1⟩ ∧ listDocument.Has ⟨2⟩ ∧ ¬ listDocument.Has ⟨4⟩ := by
    change 1 < _ ∧ 2 < _ ∧ ¬ 4 < _
    decide +kernel
  have root : (⟨listDocument.size⟩ : NodeId) = ⟨3⟩ := by decide +kernel
  have whole := disjointCopy_clone wellFormed_list old.2.1 true
  have single := disjointCopy_clone wellFormed_list old.2.1 false
  change listDocument.DisjointCopy ⟨2⟩ true ⟨listDocument.size⟩ copiedList at whole
  change listDocument.DisjointCopy ⟨2⟩ false ⟨listDocument.size⟩ _ at single
  rw [root] at whole single
  have apart : ¬ copiedList.IsAbove ⟨3⟩ ⟨1⟩ := fun above => (whole.fresh ⟨1⟩ above).1 old.1
  have emptying : LeadsWithin (fun other => ¬ listDocument.Has other) copiedList emptiedList := by
    refine .tail (.tail .refl (@StepWithin.edit _ _ (.setAttribute ⟨4⟩ (.plain "id") "z") trivial
      ?_)) (@StepWithin.edit _ _ (.remove ⟨4⟩) trivial ?_)
    · exact fun other member => List.mem_singleton.mp member ▸ old.2.2
    · exact fun other member => List.mem_singleton.mp member ▸ old.2.2
  have removing : LeadsWithin (fun other => ¬ copiedList.IsAbove ⟨3⟩ other) copiedList
      (copiedList.edit (.remove ⟨1⟩)) := by
    refine .tail .refl (@StepWithin.edit _ _ (.remove ⟨1⟩) trivial ?_)
    exact fun other member => List.mem_singleton.mp member ▸ apart
  exact ⟨wellFormed_list, old.2.1, whole, single, emptying, by decide +kernel,
    whole.originalSpared _ emptying ⟨2⟩ old.2.1, removing, by decide +kernel,
    whole.copySpared _ removing ⟨3⟩ Relation.ReflTransGen.refl⟩

end Document

end LiveTemplate
