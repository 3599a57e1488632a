import LiveTemplate.Proofs.Moves
import LiveTemplate.Proofs.Planting
import Mathlib.Data.List.TakeWhile

/-! Inserting before a reference: where the moved nodes come to stand among the children of the parent,
and that nothing else changes but for the nodes that moved away. -/

namespace LiveTemplate.Document

/-- Where nodes are put among the siblings that stay: before the reference, before the first sibling
behind it that stays when it moves itself, and at the end when there is no such place. -/
structure Gap (siblings moved : List NodeId) (reference? : Option NodeId) (left right : List NodeId) :
    Prop where
  split : siblings.filter (fun id => id ∉ moved) = left ++ right
  staying : ∀ reference, reference? = some reference → reference ∈ siblings → reference ∉ moved →
    right.head? = some reference
  moving : ∀ reference before after, reference? = some reference → reference ∈ moved →
    siblings = before ++ reference :: after → right.head? = after.find? fun id => id ∉ moved
  absent : (∀ reference, reference? = some reference → reference ∉ siblings) → right = []

structure Inserted (document : Document) (parent : NodeId) (moved : List NodeId)
    (reference? : Option NodeId) (result : Document) : Prop where
  size : result.size = document.size
  content : ∀ id, result.content id = document.content id
  children : ∃ left right, Gap (document.children parent) moved reference? left right ∧
    result.children parent = left ++ moved ++ right
  others : ∀ id, id ≠ parent →
    result.children id = (document.children id).filter fun child => child ∉ moved
  placed : ∀ id ∈ moved, result.parent? id = some parent
  kept : ∀ id, id ∉ moved → result.parent? id = document.parent? id

section
variable {siblings moved before after : List NodeId} {reference : NodeId}

theorem exists_gap (unique : siblings.Nodup) (reference? : Option NodeId) :
    ∃ left right, Gap siblings moved reference? left right ∧
      place moved reference? siblings = left ++ moved ++ right := by
  have stays : (fun id => !moved.contains id) = fun id => decide (id ∉ moved) := by
    funext id
    simp
  cases reference? with
  | none =>
      refine ⟨siblings.filter fun id => id ∉ moved, [], ⟨?_, ?_, ?_, fun _ => rfl⟩, ?_⟩
      · rw [List.append_nil]
      · rintro _ ⟨⟩
      · rintro _ _ _ ⟨⟩
      · rw [place_none, stays, List.append_nil]
  | some reference =>
      refine ⟨(siblings.takeWhile (· != reference)).filter fun id => id ∉ moved,
        (siblings.dropWhile (· != reference)).filter fun id => id ∉ moved, ⟨?_, ?_, ?_, ?_⟩, ?_⟩
      · rw [← List.filter_append, List.takeWhile_append_dropWhile]
      · rintro _ ⟨⟩ member outside
        obtain ⟨before, after, rfl⟩ := List.append_of_mem member
        rw [dropWhile_split (notMem_of_nodup_split unique)]
        simp [outside]
      · rintro _ before after ⟨⟩ inside rfl
        rw [dropWhile_split (notMem_of_nodup_split unique), List.filter_cons_of_neg (by simpa using inside),
          List.head?_filter]
      · intro absent
        rw [dropWhile_absent (absent reference rfl), List.filter_nil]
      · rw [place, stays]

end

variable {document : Document} {parent id : NodeId}

theorem inserted_of_regrouped {result : Document} {moved : List NodeId} {reference? : Option NodeId}
    (wellFormed : document.WellFormed)
    (regrouped : document.Regrouped parent (place moved reference? (document.children parent)) result) :
    document.Inserted parent moved reference? result where
  size := regrouped.size
  content := regrouped.content
  children := by
    obtain ⟨left, right, gap, placed⟩ := exists_gap (wellFormed.unique parent) reference?
    exact ⟨left, right, gap, by rw [regrouped.children, if_pos rfl, placed]⟩
  others := by
    intro other differ
    rw [regrouped.children, if_neg differ]
    refine List.filter_congr fun child member => ?_
    have away : child ∉ document.children parent := by
      rw [wellFormed.linked] at member ⊢
      rw [member]
      exact fun same => differ (Option.some.inj same)
    simp [mem_place, away]
  placed := by
    intro child member
    rw [regrouped.parent?, if_pos (mem_place.mpr (Or.inl member))]
  kept := by
    intro child outside
    rw [regrouped.parent?]
    by_cases old : document.parent? child = some parent <;>
      simp [mem_place, wellFormed.linked, outside, old]

/-- One after another, nodes go where they all would go at once, unless one of them is the reference. -/
theorem foldl_insertBefore_absent {reference : NodeId} (wellFormed : document.WellFormed)
    (parentBound : document.Has parent) {nodes : List NodeId}
    (adoptable : document.Adoptable parent nodes) (absent : reference ∉ document.children parent)
    (foreign : reference ∉ nodes) :
    nodes.foldl (fun document node => document.insertBefore parent node (some reference)) document =
      nodes.foldl (fun document node => document.insertBefore parent node none) document := by
  induction nodes generalizing document with
  | nil => rfl
  | cons node rest ih =>
      obtain ⟨apart, foreign⟩ := List.ne_and_not_mem_of_not_mem_cons foreign
      have bound := adoptable.bound node (by simp)
      have notAbove := adoptable.notAbove node (by simp)
      have first := insertBefore_regrouped wellFormed parentBound bound notAbove none
      have firstAdoptable := adoptable_place wellFormed (adoptable_carried wellFormed bound notAbove) none
      rw [List.foldl_cons, List.foldl_cons, insertBefore_of_notMem node absent]
      refine ih (first.wellFormed wellFormed firstAdoptable) ((first.has_iff parent).mpr parentBound)
        ((first.adoptable_iff wellFormed firstAdoptable).mpr adoptable.tail) ?_ foreign
      rw [first.children, if_pos rfl, mem_place, carried, if_neg (adoptable.kind node (by simp))]
      simpa [apart] using absent

theorem foldl_insertBefore_place (wellFormed : document.WellFormed)
    (parentBound : document.Has parent) {nodes : List NodeId}
    (adoptable : document.Adoptable parent nodes) {reference? : Option NodeId}
    (foreign : ∀ reference, reference? = some reference → reference ∉ nodes) :
    document.Regrouped parent (place nodes reference? (document.children parent))
      (nodes.foldl (fun document node => document.insertBefore parent node reference?) document) := by
  have before (left right : List NodeId) (split : document.children parent = left ++ right)
      (apart : ∀ id, right.head? = some id → id ∉ nodes) :
      document.Regrouped parent (place nodes right.head? (document.children parent))
        (nodes.foldl (fun document node => document.insertBefore parent node right.head?) document) := by
    obtain ⟨listed, regrouped, _⟩ :=
      foldl_insertBefore_regrouped wellFormed parentBound right.head? adoptable.kind
    have children := children_foldl_insertBefore wellFormed parentBound split adoptable apart
    rw [regrouped.children, if_pos rfl] at children
    have unique := wellFormed.unique parent
    rw [split] at unique ⊢
    rw [place_split unique]
    simpa [children] using regrouped
  have atEnd := before (document.children parent) [] (by simp) (by simp)
  cases reference? with
  | none => exact atEnd
  | some reference =>
      by_cases member : reference ∈ document.children parent
      · obtain ⟨left, right, split⟩ := List.append_of_mem member
        exact before left (reference :: right) split fun id same => foreign id same
      · rw [place_absent member,
          foldl_insertBefore_absent wellFormed parentBound adoptable member (foreign reference rfl)]
        exact atEnd

/-- A node that is not above the parent goes there before the reference, and a fragment sends its
children in its place, which is to insert them one by one unless one of them is the reference. -/
theorem inserted_insertBefore (wellFormed : document.WellFormed) (parentBound : document.Has parent)
    (bound : document.Has id) (reference? : Option NodeId) :
    (document.IsAbove id parent → document.insertBefore parent id reference? = document) ∧
    (¬ document.IsAbove id parent →
      document.Inserted parent (if document.kind id = .fragment then document.children id else [id])
        reference? (document.insertBefore parent id reference?) ∧
      (document.kind id = .fragment →
        (document.insertBefore parent id reference?).children id = [] ∧
        ((∀ reference, reference? = some reference → reference ∉ document.children id) →
          document.insertBefore parent id reference? = (document.children id).foldl
            (fun document child => document.insertBefore parent child reference?) document))) := by
  refine ⟨fun above => insertBefore_of_isAbove wellFormed above reference?, fun notAbove => ?_⟩
  have regrouped := insertBefore_regrouped wellFormed parentBound bound notAbove reference?
  have inserted := inserted_of_regrouped wellFormed regrouped
  refine ⟨inserted, fun fragment => ⟨?_, fun foreign => ?_⟩⟩
  · have differ : id ≠ parent := by
      rintro rfl
      exact notAbove Relation.ReflTransGen.refl
    rw [inserted.others id differ, carried, if_pos fragment, List.filter_eq_nil_iff]
    simp
  · have adoptable := adoptable_carried wellFormed bound notAbove
    rw [carried, if_pos fragment] at regrouped adoptable
    exact regrouped.unique (foldl_insertBefore_place wellFormed parentBound adoptable foreign)

def queuedDocument : Document :=
  let letters := (Document.new.graft (.node (.element "p" [])
    [.node (.text "a") [], .node (.text "b") [], .node (.text "c") []])).2
  (letters.graft (.node .fragment [.node (.text "x") [], .node (.text "y") []])).2

theorem inserted_queued :
    queuedDocument.Inserted ⟨1⟩ [⟨6⟩, ⟨7⟩] (some ⟨3⟩)
        (queuedDocument.insertBefore ⟨1⟩ ⟨5⟩ (some ⟨3⟩)) ∧
      (queuedDocument.insertBefore ⟨1⟩ ⟨5⟩ (some ⟨3⟩)).children ⟨5⟩ = [] ∧
      queuedDocument.insertBefore ⟨1⟩ ⟨5⟩ (some ⟨3⟩) =
        (queuedDocument.insertBefore ⟨1⟩ ⟨6⟩ (some ⟨3⟩)).insertBefore ⟨1⟩ ⟨7⟩ (some ⟨3⟩) ∧
      queuedDocument.Inserted ⟨1⟩ [⟨3⟩] (some ⟨3⟩)
        (queuedDocument.insertBefore ⟨1⟩ ⟨3⟩ (some ⟨3⟩)) := by
  have wellFormed : queuedDocument.WellFormed := by
    refine wellFormed_graft (wellFormed_graft wellFormed_new ⟨?_, ?_⟩) ⟨?_, ?_⟩ <;>
      simp [Tree.preorder, Tree.preorderForest, Tree.children, Content.attributes, Content.kind]
  have has (index : Nat) (bound : index < 8) : queuedDocument.Has ⟨index⟩ := by
    have size : queuedDocument.size = 8 := by decide +kernel
    rwa [Has, size]
  have apart (id : NodeId) (known : queuedDocument.isInclusiveAncestor id ⟨1⟩ = false) :
      ¬ queuedDocument.IsAbove id ⟨1⟩ := by
    rw [← wellFormed.isInclusiveAncestor_iff, known]
    exact Bool.false_ne_true
  obtain ⟨carried, sent⟩ := (inserted_insertBefore wellFormed (has 1 (by decide)) (has 5 (by decide))
    (some ⟨3⟩)).2 (apart ⟨5⟩ (by decide +kernel))
  obtain ⟨emptied, together⟩ := sent (by decide +kernel)
  obtain ⟨single, _⟩ := (inserted_insertBefore wellFormed (has 1 (by decide)) (has 3 (by decide))
    (some ⟨3⟩)).2 (apart ⟨3⟩ (by decide +kernel))
  have letters : queuedDocument.children ⟨5⟩ = [⟨6⟩, ⟨7⟩] := by decide +kernel
  rw [letters] at together
  rw [if_pos (by decide +kernel), letters] at carried
  rw [if_neg (by decide +kernel)] at single
  refine ⟨carried, emptied, together ?_, single⟩
  rintro _ ⟨⟩
  decide

end LiveTemplate.Document
