import LiveTemplate.Proofs.Ancestry
import LiveTemplate.Template.Scene

/-! Moving nodes: inserting, arranging and filling a span regroup the children of one parent, and
a filled span shows exactly its nodes when they can stand there. -/

namespace LiveTemplate.Document

structure Detached (document : Document) (ids : List NodeId) (result : Document) : Prop where
  size : result.size = document.size
  content : ∀ id, result.content id = document.content id
  parent? : ∀ id, result.parent? id = if id ∈ ids then none else document.parent? id
  children : ∀ id, result.children id = (document.children id).filter fun child => child ∉ ids

theorem foldl_detach_detached {document : Document} (wellFormed : document.WellFormed)
    (ids : List NodeId) : document.Detached ids (ids.foldl detach document) := by
  induction ids generalizing document with
  | nil => exact ⟨rfl, fun _ => rfl, fun _ => by simp, fun _ => by simp⟩
  | cons first rest ih =>
      have later := ih (wellFormed_detach wellFormed first)
      rw [List.foldl_cons]
      constructor
      · rw [later.size, size_detach]
      · intro id
        rw [later.content, content_detach]
      · intro id
        rw [later.parent?, parent?_detach wellFormed]
        by_cases member : id ∈ rest
        · simp [member]
        · by_cases same : id = first <;> simp [member, same]
      · intro id
        rw [later.children, children_detach wellFormed, List.filter_filter]
        apply List.filter_congr
        intro child _
        by_cases same : child = first <;> simp [same]

theorem Detached.regrouped {document result : Document} {ids : List NodeId} {parent : NodeId}
    (detached : document.Detached ids result) (wellFormed : document.WellFormed)
    (subset : ∀ id ∈ ids, id ∈ document.children parent) :
    document.Regrouped parent ((document.children parent).filter fun child => child ∉ ids) result
    where
  size := detached.size
  content := detached.content
  parent? := by
    intro id
    rw [detached.parent?]
    by_cases member : id ∈ ids
    · simp [member, (wellFormed.linked parent id).mp (subset id member)]
    · by_cases old : document.parent? id = some parent <;>
        simp [member, wellFormed.linked, old]
  children := by
    intro id
    rw [detached.children]
    split
    · rename_i same
      rw [same]
    · rename_i different
      apply List.filter_congr
      intro child member
      have outside : child ∉ document.children parent := by
        rw [wellFormed.linked] at member ⊢
        rw [member]
        exact fun same => different (Option.some.inj same)
      have kept : child ∉ ids := fun listed => outside (subset child listed)
      simp [outside, kept]

theorem adoptable_place {document : Document} (wellFormed : document.WellFormed) {parent : NodeId}
    {moved : List NodeId} (adoptable : document.Adoptable parent moved)
    (reference? : Option NodeId) :
    document.Adoptable parent (place moved reference? (document.children parent)) := by
  have old := wellFormed.adoptable_of_subset (wellFormed.unique parent) (fun _ member => member)
  constructor
  · exact nodup_place adoptable.unique (wellFormed.unique parent)
  · intro id member
    exact (mem_place.mp member).elim (adoptable.bound id) (old.bound id)
  · intro id member
    exact (mem_place.mp member).elim (adoptable.kind id) (old.kind id)
  · intro id member
    exact (mem_place.mp member).elim (adoptable.notAbove id) (old.notAbove id)

/-- What an insertion carries can stand below the parent, unless the inserted node is above it. -/
theorem adoptable_carried {document : Document} (wellFormed : document.WellFormed)
    {parent id : NodeId} (bound : document.Has id) (notAbove : ¬ document.IsAbove id parent) :
    document.Adoptable parent (document.carried id) := by
  rw [carried]
  split
  · have linked (child : NodeId) (member : child ∈ document.children id) :=
      (wellFormed.linked id child).mp member
    refine ⟨wellFormed.unique id, fun child member => wellFormed.has_child member,
      fun child member => wellFormed.kind_of_parent? (linked child member), ?_⟩
    intro child member above
    exact notAbove (Relation.ReflTransGen.head (linked child member) above)
  · rename_i other
    exact ⟨by simp, by simpa using bound, by simpa using other, by simpa using notAbove⟩

theorem insertBefore_of_isAbove {document : Document} (wellFormed : document.WellFormed)
    {parent id : NodeId} (above : document.IsAbove id parent) (reference? : Option NodeId) :
    document.insertBefore parent id reference? = document := by
  simp [insertBefore, (wellFormed.isInclusiveAncestor_iff id parent).mpr above]

theorem insertBefore_regrouped {document : Document} (wellFormed : document.WellFormed)
    {parent id : NodeId} (parentBound : document.Has parent) (bound : document.Has id)
    (notAbove : ¬ document.IsAbove id parent) (reference? : Option NodeId) :
    document.Regrouped parent (place (document.carried id) reference? (document.children parent))
      (document.insertBefore parent id reference?) := by
  have adoptable := adoptable_carried wellFormed bound notAbove
  have refused : ¬ document.isInclusiveAncestor id parent = true := by
    rwa [wellFormed.isInclusiveAncestor_iff]
  rw [insertBefore, if_neg refused]
  dsimp only
  have freed := foldl_detach_detached wellFormed (document.carried id)
  generalize document.carried id = moved at adoptable freed ⊢
  generalize moved.foldl detach document = middle at freed ⊢
  have middleParent : middle.Has parent := by rwa [Has, freed.size]
  have movedBound : ∀ child ∈ moved,
      (middle.setChildren parent (place moved reference? (document.children parent))).Has child := by
    intro child member
    rw [Has, size_setChildren, freed.size]
    exact adoptable.bound child member
  constructor
  · rw [size_foldl_setParent, size_setChildren, freed.size]
  · intro other
    rw [content_foldl_setParent, content_setChildren, freed.content]
  · intro other
    rw [parent?_foldl_setParent movedBound, parent?_setChildren, freed.parent?]
    by_cases member : other ∈ moved
    · simp [mem_place, member]
    · by_cases old : document.parent? other = some parent <;>
        simp [mem_place, member, wellFormed.linked, old]
  · intro other
    rw [children_foldl_setParent, children_setChildren middleParent, freed.children]
    split
    · rfl
    · rename_i different
      apply List.filter_congr
      intro child member
      rw [wellFormed.linked] at member
      simp [mem_place, wellFormed.linked, member, different]

theorem wellFormed_insertBefore {document : Document} (wellFormed : document.WellFormed)
    {parent id : NodeId} (parentBound : document.Has parent) (bound : document.Has id)
    (reference? : Option NodeId) : (document.insertBefore parent id reference?).WellFormed := by
  by_cases above : document.IsAbove id parent
  · rwa [insertBefore_of_isAbove wellFormed above]
  · exact (insertBefore_regrouped wellFormed parentBound bound above reference?).wellFormed wellFormed
      (adoptable_place wellFormed (adoptable_carried wellFormed bound above) reference?)

theorem size_arrange (document : Document) (parent : NodeId) (ids : List NodeId) :
    (document.arrange parent ids).size = document.size := by
  rw [arrange, size_foldl_setParent, size_setChildren, size_foldl_setParent]

theorem content_arrange (document : Document) (parent id : NodeId) (ids : List NodeId) :
    (document.arrange parent ids).content id = document.content id := by
  rw [arrange, content_foldl_setParent, content_setChildren, content_foldl_setParent]

theorem arrange_regrouped {document : Document} (wellFormed : document.WellFormed)
    {parent : NodeId} {ids : List NodeId} (parentBound : document.Has parent)
    (bound : ∀ id ∈ ids, document.Has id)
    (free : ∀ id ∈ ids, id ∈ document.children parent ∨ document.parent? id = none) :
    document.Regrouped parent ids (document.arrange parent ids) := by
  have droppedBound : ∀ id ∈ (document.children parent).filter (fun id => !ids.contains id),
      document.Has id :=
    fun id member => wellFormed.has_child (List.mem_filter.mp member).1
  rw [arrange]
  generalize droppedEq : (document.children parent).filter (fun id => !ids.contains id) = dropped
    at droppedBound ⊢
  have parentKept : (dropped.foldl (setParent · none) document).Has parent := by
    rwa [Has, size_foldl_setParent]
  have idsBound : ∀ id ∈ ids,
      ((dropped.foldl (setParent · none) document).setChildren parent ids).Has id := by
    intro id member
    rw [Has, size_setChildren, size_foldl_setParent]
    exact bound id member
  -- Nodes that are dropped lose their parent, those that are listed get it, and no node is both.
  constructor
  · rw [size_foldl_setParent, size_setChildren, size_foldl_setParent]
  · intro other
    rw [← content_arrange document parent other ids, arrange, droppedEq]
  · intro other
    rw [parent?_foldl_setParent idsBound, parent?_setChildren,
      parent?_foldl_setParent droppedBound]
    by_cases member : other ∈ ids
    · simp [member]
    · by_cases old : document.parent? other = some parent <;>
        simp [← droppedEq, member, wellFormed.linked, old]
  · intro other
    rw [children_foldl_setParent, children_setChildren parentKept, children_foldl_setParent]
    split
    · rfl
    · rename_i different
      symm
      rw [List.filter_eq_self]
      intro child member
      rw [wellFormed.linked] at member
      have unlisted : child ∉ ids := by
        intro listed
        rcases free child listed with old | none
        · rw [wellFormed.linked, member] at old
          exact different (Option.some.inj old)
        · simp [member] at none
      simpa using unlisted

/-! Filling a span. -/

theorem foldl_insertBefore_regrouped {document : Document} (wellFormed : document.WellFormed)
    {parent : NodeId} (parentBound : document.Has parent) (reference? : Option NodeId)
    {nodes : List NodeId} (kind : ∀ id ∈ nodes, document.kind id ≠ .fragment) :
    ∃ listed, document.Regrouped parent listed
        (nodes.foldl (fun document node => document.insertBefore parent node reference?) document) ∧
      document.Adoptable parent listed ∧
      (∀ id ∈ document.children parent, id ∈ listed) ∧
      ∀ id ∈ listed, id ∈ document.children parent ∨ id ∈ nodes := by
  -- Each insertion regroups the children of the same parent, and two such steps are one.
  induction nodes generalizing document with
  | nil =>
      exact ⟨document.children parent, Regrouped.refl wellFormed parent,
        wellFormed.adoptable_of_subset (wellFormed.unique parent) (fun _ member => member),
        fun _ member => member, fun _ member => Or.inl member⟩
  | cons node rest ih =>
      rw [List.foldl_cons]
      by_cases above : document.IsAbove node parent
      · rw [insertBefore_of_isAbove wellFormed above]
        obtain ⟨listed, regrouped, adoptable, kept, origin⟩ :=
          ih wellFormed parentBound (fun id member => kind id (List.mem_cons_of_mem _ member))
        refine ⟨listed, regrouped, adoptable, kept, ?_⟩
        intro id member
        exact (origin id member).imp_right (List.mem_cons_of_mem _)
      · have nodeKind := kind node (by simp)
        have nodeBound := has_of_kind nodeKind
        have carriedEq : document.carried node = [node] := by rw [carried, if_neg nodeKind]
        have first := insertBefore_regrouped wellFormed parentBound nodeBound above reference?
        have firstAdoptable := adoptable_place wellFormed
          (adoptable_carried wellFormed nodeBound above) reference?
        rw [carriedEq] at first firstAdoptable
        generalize document.insertBefore parent node reference? = middle at first ⊢
        obtain ⟨listed, second, adoptable, kept, origin⟩ :=
          ih (first.wellFormed wellFormed firstAdoptable) ((first.has_iff parent).mpr parentBound)
            (fun id member => by
              rw [first.kind_eq]
              exact kind id (List.mem_cons_of_mem _ member))
        rw [first.children, if_pos rfl] at kept origin
        refine ⟨listed, first.trans second wellFormed (fun id member => Or.inl (kept id member)),
          (first.adoptable_iff wellFormed firstAdoptable).mp adoptable, ?_, ?_⟩
        · intro id member
          exact kept id (mem_place.mpr (Or.inr member))
        · intro id member
          rcases origin id member with placed | later
          · exact (mem_place.mp placed).elim
              (fun same => Or.inr (by simp [List.mem_singleton.mp same])) Or.inl
          · exact Or.inr (List.mem_cons_of_mem _ later)

/-- Nodes inserted one after another before a node that is none of them stand there in order. -/
theorem children_foldl_insertBefore {document : Document} (wellFormed : document.WellFormed)
    {parent : NodeId} (parentBound : document.Has parent) {left right nodes : List NodeId}
    (split : document.children parent = left ++ right)
    (adoptable : document.Adoptable parent nodes) (apart : ∀ id, right.head? = some id → id ∉ nodes) :
    (nodes.foldl (fun document node => document.insertBefore parent node right.head?)
        document).children parent =
      left.filter (fun id => id ∉ nodes) ++ nodes ++ right.filter (fun id => id ∉ nodes) := by
  -- A node that was inserted belongs to the siblings on the left from then on.
  induction nodes generalizing document left right with
  | nil => simp [split]
  | cons node rest ih =>
      have nodeBound := adoptable.bound node (by simp)
      have nodeAbove := adoptable.notAbove node (by simp)
      have carriedEq : document.carried node = [node] := by
        rw [carried, if_neg (adoptable.kind node (by simp))]
      have first := insertBefore_regrouped wellFormed parentBound nodeBound nodeAbove right.head?
      have firstAdoptable := adoptable_place wellFormed
        (adoptable_carried wellFormed nodeBound nodeAbove) right.head?
      have unique := wellFormed.unique parent
      rw [split] at unique
      rw [carriedEq] at first firstAdoptable
      have middleSplit : (document.insertBefore parent node right.head?).children parent =
          (left.filter (fun id => !([node].contains id)) ++ [node]) ++
            right.filter (fun id => !([node].contains id)) := by
        rw [first.children, if_pos rfl, split, place_split unique]
      have sameHead : (right.filter (fun id => !([node].contains id))).head? = right.head? := by
        cases right with
        | nil => rfl
        | cons next later =>
            have different : next ≠ node := by
              rintro rfl
              exact apart next rfl (by simp)
            simp [different]
      have notLater := (List.nodup_cons.mp adoptable.unique).1
      rw [List.foldl_cons]
      have result := ih (first.wellFormed wellFormed firstAdoptable)
        ((first.has_iff parent).mpr parentBound) middleSplit
        ((first.adoptable_iff wellFormed firstAdoptable).mpr adoptable.tail)
        (fun id head member => apart id (sameHead ▸ head) (by simp [member]))
      rw [sameHead] at result
      rw [result]
      have merge (siblings : List NodeId) :
          (siblings.filter (fun id => !([node].contains id))).filter (fun id => id ∉ rest) =
            siblings.filter (fun id => id ∉ node :: rest) := by
        rw [List.filter_filter]
        apply List.filter_congr
        intro id _
        by_cases same : id = node <;> simp [same]
      rw [List.filter_append, merge, merge]
      simp [notLater]

section

variable {document : Document} {span : Span} {nodes before between after : List NodeId}

theorem clear_regrouped (wellFormed : document.WellFormed)
    (cuts : span.Cuts (document.children span.parent) before between after) :
    document.Regrouped span.parent (before ++ after)
        ((span.nodes document).foldl detach document) ∧
      document.Adoptable span.parent (before ++ after) := by
  have unique := wellFormed.unique span.parent
  have betweenEq := Span.nodes_eq_of_cuts cuts unique
  have inside : ∀ id ∈ between, id ∈ document.children span.parent := by
    intro id member
    simp [cuts.split, member]
  have kept : (document.children span.parent).filter (fun child => child ∉ between) =
      before ++ after := by
    rw [cuts.split] at unique ⊢
    rw [List.append_assoc, List.nodup_append, List.nodup_append] at unique
    obtain ⟨_, ⟨_, _, apartAfter⟩, apartBefore⟩ := unique
    have keptBefore : before.filter (fun child => child ∉ between) = before := by
      rw [List.filter_eq_self]
      intro child member
      simp only [decide_eq_true_eq]
      exact fun other => apartBefore child member child (by simp [other]) rfl
    have keptAfter : after.filter (fun child => child ∉ between) = after := by
      rw [List.filter_eq_self]
      intro child member
      simp only [decide_eq_true_eq]
      exact fun other => apartAfter child other child member rfl
    rw [List.filter_append, List.filter_append, keptBefore, keptAfter]
    simp
  rw [betweenEq, ← kept]
  exact ⟨(foldl_detach_detached wellFormed between).regrouped wellFormed inside,
    wellFormed.adoptable_of_subset (unique.filter _)
      fun id member => (List.mem_filter.mp member).1⟩

theorem fill_regrouped (wellFormed : document.WellFormed) (parentBound : document.Has span.parent)
    (cuts : span.Cuts (document.children span.parent) before between after)
    (kind : ∀ id ∈ nodes, document.kind id ≠ .fragment) :
    ∃ listed, document.Regrouped span.parent listed (document.fill span nodes) ∧
      document.Adoptable span.parent listed ∧
      ∀ id ∈ listed, id ∈ document.children span.parent ∨ id ∈ nodes := by
  obtain ⟨cleared, clearedAdoptable⟩ := clear_regrouped wellFormed cuts
  have remains : ∀ id ∈ before ++ after, id ∈ document.children span.parent := by
    intro id member
    rw [cuts.split]
    rcases List.mem_append.mp member with left | right
    · simp [left]
    · simp [right]
  rw [fill]
  generalize (span.nodes document).foldl detach document = middle at cleared ⊢
  obtain ⟨listed, regrouped, adoptable, kept, origin⟩ :=
    foldl_insertBefore_regrouped (cleared.wellFormed wellFormed clearedAdoptable)
      ((cleared.has_iff _).mpr parentBound) span.next?
      (fun (id : NodeId) (member : id ∈ nodes) => by
        rw [cleared.kind_eq]
        exact kind id member)
  refine ⟨listed,
    cleared.trans regrouped wellFormed (fun id member => Or.inr (remains id member)),
    (cleared.adoptable_iff wellFormed clearedAdoptable).mp adoptable, ?_⟩
  intro id member
  rw [cleared.children, if_pos rfl] at origin
  exact (origin id member).imp_left (remains id)

theorem children_fill (wellFormed : document.WellFormed) (parentBound : document.Has span.parent)
    (cuts : span.Cuts (document.children span.parent) before between after)
    (adoptable : document.Adoptable span.parent nodes)
    (apart : ∀ id, span.next? = some id → id ∉ nodes) :
    (document.fill span nodes).children span.parent =
      before.filter (fun id => id ∉ nodes) ++ nodes ++ after.filter (fun id => id ∉ nodes) := by
  obtain ⟨cleared, clearedAdoptable⟩ := clear_regrouped wellFormed cuts
  rw [fill, ← cuts.next]
  rw [← cuts.next] at apart
  generalize (span.nodes document).foldl detach document = middle at cleared ⊢
  exact children_foldl_insertBefore (cleared.wellFormed wellFormed clearedAdoptable)
    ((cleared.has_iff _).mpr parentBound) (by rw [cleared.children, if_pos rfl])
    ((cleared.adoptable_iff wellFormed clearedAdoptable).mpr adoptable) apart

theorem regrouped_fill (wellFormed : document.WellFormed) (parentBound : document.Has span.parent)
    (cuts : span.Cuts (document.children span.parent) before between after)
    (adoptable : document.Adoptable span.parent nodes)
    (apart : ∀ id, span.next? = some id → id ∉ nodes) :
    document.Regrouped span.parent
      (before.filter (fun id => id ∉ nodes) ++ nodes ++ after.filter (fun id => id ∉ nodes))
      (document.fill span nodes) := by
  obtain ⟨listed, regrouped, _⟩ := fill_regrouped wellFormed parentBound cuts adoptable.kind
  have children := children_fill wellFormed parentBound cuts adoptable apart
  rw [regrouped.children, if_pos rfl] at children
  exact children ▸ regrouped

end

end LiveTemplate.Document
