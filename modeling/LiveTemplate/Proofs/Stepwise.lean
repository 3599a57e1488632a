import LiveTemplate.Proofs.Insertion
import LiveTemplate.Proofs.Spans

/-! Changes made one node at a time. An insertion that looks for a reference which stays and then puts one
node after another at an index, a clearing that follows the siblings while it removes them, and a copy that
reads while it adds nodes come to what moving, clearing and copying do at once. -/

namespace LiveTemplate.Document

/-! Inserting. -/

/-- The search for a reference that is not moved itself: one that is gives way to its next sibling. -/
inductive Settles (siblings moved : List NodeId) : Option NodeId → Option NodeId → Prop
  | nothing : Settles siblings moved none none
  | stays {reference : NodeId} : reference ∉ moved →
      Settles siblings moved (some reference) (some reference)
  | moves {reference : NodeId} {settled? : Option NodeId} : reference ∈ moved →
      Settles siblings moved (successor? reference siblings) settled? →
      Settles siblings moved (some reference) settled?

def indexOf (siblings : List NodeId) (reference? : Option NodeId) : Nat :=
  reference?.elim siblings.length siblings.idxOf

def emptied (document : Document) (id : NodeId) : Document :=
  if document.kind id = .fragment then document.setChildren id [] else document

def adopt (parent : NodeId) : (index : Nat) → List NodeId → Document → Document
  | _, [], document => document
  | index, id :: rest, document =>
    adopt parent (index + 1) rest ((document.setParent (some parent) id).setChildren parent
      ((document.children parent).insertIdx index id))

section
variable {siblings moved before after left right : List NodeId} {reference : NodeId}

theorem Settles.unique {reference? settled? other? : Option NodeId}
    (settles : Settles siblings moved reference? settled?)
    (also : Settles siblings moved reference? other?) : settled? = other? := by
  induction settles with
  | nothing =>
      cases also
      rfl
  | stays outside =>
      cases also with
      | stays => rfl
      | moves inside => exact (outside inside).elim
  | moves inside _ ih =>
      cases also with
      | stays outside => exact (outside inside).elim
      | moves _ later => exact ih later

theorem settles_find? (unique : (before ++ reference :: after).Nodup) (inside : reference ∈ moved) :
    Settles (before ++ reference :: after) moved (some reference) (after.find? fun id => id ∉ moved) := by
  have next : successor? reference (before ++ reference :: after) = after.head? :=
    successor?_split (notMem_of_nodup_split unique)
  induction after generalizing before reference with
  | nil => exact .moves inside (next ▸ .nothing)
  | cons following rest ih =>
      refine .moves inside ?_
      rw [next, List.head?_cons]
      by_cases again : following ∈ moved
      · rw [List.find?_cons_of_neg (by simpa using again)]
        have shifted : before ++ reference :: following :: rest =
            (before ++ [reference]) ++ following :: rest := by simp
        rw [shifted] at unique ⊢
        exact ih unique again (successor?_split (notMem_of_nodup_split unique))
      · rw [List.find?_cons_of_pos (by simpa using again)]
        exact .stays again

theorem insertIdx_append (left right : List NodeId) (id : NodeId) :
    (left ++ right).insertIdx left.length id = left ++ [id] ++ right := by
  induction left with
  | nil => rfl
  | cons first rest ih => simpa using ih

theorem indexOf_head? (unique : (left ++ right).Nodup) : indexOf (left ++ right) right.head? = left.length := by
  cases right with
  | nil => simp [indexOf]
  | cons next rest =>
      have fresh := notMem_of_nodup_split unique
      simp [indexOf, List.idxOf_append, fresh]

theorem exists_settles (unique : siblings.Nodup) (moved : List NodeId) (reference? : Option NodeId) :
    ∃ settled? left right, Settles siblings moved reference? settled? ∧
      siblings.filter (fun id => id ∉ moved) = left ++ right ∧
      indexOf (left ++ right) settled? = left.length ∧
      place moved reference? siblings = left ++ moved ++ right := by
  obtain ⟨left, right, gap, placed⟩ := @exists_gap siblings moved unique reference?
  have staying : (left ++ right).Nodup := gap.split ▸ unique.filter _
  have settled {settled? : Option NodeId} (settles : Settles siblings moved reference? settled?)
      (head : right.head? = settled?) : ∃ settled? left right,
        Settles siblings moved reference? settled? ∧
        siblings.filter (fun id => id ∉ moved) = left ++ right ∧
        indexOf (left ++ right) settled? = left.length ∧
        place moved reference? siblings = left ++ moved ++ right :=
    ⟨settled?, left, right, settles, gap.split, head ▸ indexOf_head? staying, placed⟩
  cases reference? with
  | none => exact settled .nothing (by rw [gap.absent (by simp)]; rfl)
  | some reference =>
      by_cases member : reference ∈ siblings
      · by_cases inside : reference ∈ moved
        · obtain ⟨before, after, rfl⟩ := List.append_of_mem member
          exact settled (settles_find? unique inside) (gap.moving reference before after rfl inside rfl)
        · exact settled (.stays inside) (gap.staying reference rfl member inside)
      · have last : right = [] := gap.absent fun _ same => Option.some.inj same ▸ member
        by_cases inside : reference ∈ moved
        · refine settled (.moves inside ?_) (by rw [last, List.head?_nil])
          rw [successor?, dropWhile_absent member]
          exact .nothing
        · refine ⟨some reference, left, right, .stays inside, gap.split, ?_, placed⟩
          have away : reference ∉ left ++ right := by
            rw [← gap.split, List.mem_filter]
            exact fun listed => member listed.1
          rw [indexOf, Option.elim_some, List.idxOf_eq_length away, last, List.append_nil]

end

section
variable {document : Document} {parent id : NodeId} {ids left right : List NodeId}

@[simp]
theorem has_setParent (document : Document) (parent? : Option NodeId) (id other : NodeId) :
    (document.setParent parent? id).Has other ↔ document.Has other := by
  rw [Has, Has, size_setParent]

@[simp]
theorem has_setChildren (document : Document) (id : NodeId) (children : List NodeId) (other : NodeId) :
    (document.setChildren id children).Has other ↔ document.Has other := by
  rw [Has, Has, size_setChildren]

theorem size_adopt (parent : NodeId) (index : Nat) (ids : List NodeId) (document : Document) :
    (adopt parent index ids document).size = document.size := by
  induction ids generalizing index document with
  | nil => rfl
  | cons first rest ih => rw [adopt, ih, size_setChildren, size_setParent]

theorem content_adopt (parent : NodeId) (index : Nat) (ids : List NodeId) (document : Document)
    (id : NodeId) : (adopt parent index ids document).content id = document.content id := by
  induction ids generalizing index document with
  | nil => rfl
  | cons first rest ih => rw [adopt, ih, content_setChildren, content_setParent]

theorem parent?_adopt (bound : ∀ id ∈ ids, document.Has id) (parent : NodeId) (index : Nat) (id : NodeId) :
    (adopt parent index ids document).parent? id =
      if id ∈ ids then some parent else document.parent? id := by
  induction ids generalizing index document with
  | nil => rfl
  | cons first rest ih =>
      have firstBound := bound first List.mem_cons_self
      rw [adopt, ih, parent?_setChildren, parent?_setParent firstBound]
      · by_cases member : id ∈ rest <;> by_cases same : id = first <;> simp [member, same]
      · intro other member
        simpa using bound other (List.mem_cons_of_mem _ member)

theorem children_adopt (bound : document.Has parent) (split : document.children parent = left ++ right)
    (id : NodeId) : (adopt parent left.length ids document).children id =
      if id = parent then left ++ ids ++ right else document.children id := by
  induction ids generalizing document left with
  | nil =>
      by_cases same : id = parent
      · rw [if_pos same, same, adopt, split, List.append_nil]
      · rw [if_neg same, adopt]
  | cons first rest ih =>
      have parentBound : (document.setParent (some parent) first).Has parent := by simpa using bound
      have length : left.length + 1 = (left ++ [first]).length := by simp
      rw [adopt, split, insertIdx_append, length, ih]
      · rw [children_setChildren parentBound]
        by_cases same : id = parent <;> simp [same]
      · simpa using bound
      · rw [children_setChildren parentBound, if_pos rfl]

theorem adopt_eq (bound : document.Has parent) (listed : ∀ id ∈ ids, document.Has id)
    (split : document.children parent = left ++ right) :
    adopt parent left.length ids document =
      ids.foldl (setParent · (some parent)) (document.setChildren parent (left ++ ids ++ right)) := by
  have listedNow : ∀ id ∈ ids, (document.setChildren parent (left ++ ids ++ right)).Has id := by
    intro id member
    simpa using listed id member
  refine eq_of_seen ?_ ?_ ?_ ?_
  · rw [size_adopt, size_foldl_setParent, size_setChildren]
  · intro id
    rw [content_adopt, content_foldl_setParent, content_setChildren]
  · intro id
    rw [parent?_adopt listed, parent?_foldl_setParent listedNow, parent?_setChildren]
  · intro id
    rw [children_adopt bound split, children_foldl_setParent, children_setChildren bound]

theorem detach_emptied {upper : NodeId} (upperBound : document.Has upper)
    (linked : document.parent? id = some upper) :
    (document.setChildren upper []).detach id = (document.detach id).setChildren upper [] := by
  have bound := has_of_parent? linked
  have linkedNow : (document.setChildren upper []).parent? id = some upper := by
    rwa [parent?_setChildren]
  rw [detach, detach, linked, linkedNow]
  refine eq_of_seen (by simp) (by simp) (fun other => ?_) fun other => ?_
  · simp [parent?_setParent, bound]
  · by_cases same : other = upper <;> simp [children_setChildren, upperBound, same]

theorem foldl_detach_setChildren {upper : NodeId} (wellFormed : document.WellFormed)
    (upperBound : document.Has upper) (unique : ids.Nodup)
    (linked : ∀ id ∈ ids, document.parent? id = some upper) :
    ids.foldl detach (document.setChildren upper []) = (ids.foldl detach document).setChildren upper [] := by
  induction ids generalizing document with
  | nil => rfl
  | cons first rest ih =>
      obtain ⟨fresh, restUnique⟩ := List.nodup_cons.mp unique
      rw [List.foldl_cons, List.foldl_cons, detach_emptied upperBound (linked first List.mem_cons_self)]
      refine ih (wellFormed_detach wellFormed first) ?_ restUnique fun id member => ?_
      · rwa [Has, size_detach]
      · have other : id ≠ first := by
          rintro rfl
          exact fresh member
        rw [parent?_detach wellFormed, if_neg other]
        exact linked id (List.mem_cons_of_mem _ member)

theorem setChildren_self (bound : document.Has id) (childless : document.children id = []) :
    document.setChildren id [] = document := by
  refine eq_of_seen (by simp) (by simp) (by simp) fun other => ?_
  rw [children_setChildren bound]
  split
  · rename_i same
    rw [same, childless]
  · rfl

/-- It makes no difference that a fragment gives its children away before they are taken from it. -/
theorem foldl_detach_emptied (wellFormed : document.WellFormed) (bound : document.Has id) :
    (document.carried id).foldl detach (document.emptied id) = (document.carried id).foldl detach document := by
  rw [carried, emptied]
  split
  · rw [foldl_detach_setChildren wellFormed bound (wellFormed.unique id)
      fun child member => (wellFormed.linked id child).mp member]
    have detached := foldl_detach_detached wellFormed (document.children id)
    refine setChildren_self ?_ ?_
    · rwa [Has, detached.size]
    · rw [detached.children, List.filter_eq_nil_iff]
      simp
  · rfl

/-- An insertion looks for a reference that stays, takes the nodes that move from where they are, and puts
them one after another before the reference, or at the end where there is none. -/
theorem exists_settles_insertBefore (wellFormed : document.WellFormed) (parentBound : document.Has parent)
    (bound : document.Has id) (notAbove : ¬ document.IsAbove id parent) (reference? : Option NodeId) :
    let moved := document.carried id
    let freed := moved.foldl detach (document.emptied id)
    ∃ settled?, (∀ other?, Settles ((document.emptied id).children parent) moved reference? other? ↔
        other? = settled?) ∧
      document.insertBefore parent id reference? =
        adopt parent (indexOf (freed.children parent) settled?) moved freed := by
  dsimp only
  have refused : ¬ document.isInclusiveAncestor id parent = true := by
    rwa [wellFormed.isInclusiveAncestor_iff]
  have differ : parent ≠ id := by
    rintro rfl
    exact notAbove Relation.ReflTransGen.refl
  have same : (document.emptied id).children parent = document.children parent := by
    rw [emptied]
    split
    · rw [children_setChildren bound, if_neg differ]
    · rfl
  have adoptable := adoptable_carried wellFormed bound notAbove
  have detached := foldl_detach_detached wellFormed (document.carried id)
  rw [same, foldl_detach_emptied wellFormed bound, insertBefore, if_neg refused]
  dsimp only
  generalize document.carried id = moved at adoptable detached ⊢
  generalize moved.foldl detach document = freed at detached ⊢
  obtain ⟨settled?, left, right, settles, split, index, placed⟩ :=
    exists_settles (wellFormed.unique parent) moved reference?
  have freedChildren : freed.children parent = left ++ right := (detached.children parent).trans split
  refine ⟨settled?, fun other? => ⟨fun also => also.unique settles, ?_⟩, ?_⟩
  · rintro rfl
    exact settles
  · rw [placed, freedChildren, index, adopt_eq ?_ ?_ freedChildren]
    · rwa [Has, detached.size]
    · intro child member
      rw [Has, detached.size]
      exact adoptable.bound child member

end

/-! Clearing. -/

/-- Nodes are removed from a cursor on, up to the node that ends the span. What follows a node is looked up
before the node is removed. -/
inductive Sweeps (last? : Option NodeId) : Document → Option NodeId → Document → Prop
  | done {document : Document} {cursor? : Option NodeId} : cursor? = none ∨ cursor? = last? →
      Sweeps last? document cursor? document
  | remove {document result : Document} {id : NodeId} : some id ≠ last? →
      Sweeps last? (document.detach id) (document.next? id) result →
      Sweeps last? document (some id) result

theorem Sweeps.unique {document result other : Document} {last? cursor? : Option NodeId}
    (sweeps : Sweeps last? document cursor? result) (also : Sweeps last? document cursor? other) :
    result = other := by
  induction sweeps with
  | done ended =>
      cases also with
      | done => rfl
      | remove differ => exact (ended.elim (by simp) differ).elim
  | remove differ _ ih =>
      cases also with
      | done ended => exact (ended.elim (by simp) differ).elim
      | remove _ later => exact ih later

def firstOf (span : Span) (document : Document) : Option NodeId :=
  match span.previous? with
  | some previous => document.next? previous
  | none => document.firstChild? span.parent

theorem firstOf_of_cuts {document : Document} {span : Span} {before between after : List NodeId}
    (wellFormed : document.WellFormed)
    (cuts : span.Cuts (document.children span.parent) before between after) :
    firstOf span document = (between ++ after).head? := by
  have previous := cuts.previous
  rw [firstOf]
  rcases List.eq_nil_or_concat before with rfl | ⟨start, last, rfl⟩
  · rw [← previous, List.getLast?_nil]
    dsimp only
    rw [firstChild?, cuts.split, List.nil_append]
  · rw [List.concat_eq_append, List.getLast?_concat] at previous
    have split : document.children span.parent = start ++ last :: (between ++ after) := by
      rw [cuts.split]
      simp
    have linked := (wellFormed.linked span.parent last).mp (by simp [split])
    rw [← previous]
    exact next?_of_split linked split (wellFormed.unique _)

theorem sweeps_of_split {document : Document} {parent : NodeId} {before between after : List NodeId}
    (wellFormed : document.WellFormed) (split : document.children parent = before ++ (between ++ after)) :
    Sweeps after.head? document (between ++ after).head? (between.foldl detach document) := by
  induction between generalizing document with
  | nil => exact .done (Or.inr rfl)
  | cons id rest ih =>
      have unique := wellFormed.unique parent
      have linked := (wellFormed.linked parent id).mp (by simp [split])
      have next : document.next? id = (rest ++ after).head? := next?_of_split linked split unique
      rw [split, List.nodup_append', List.cons_append, List.nodup_cons, List.mem_append] at unique
      obtain ⟨_, ⟨fresh, _⟩, apart⟩ := unique
      have away : id ∉ before := fun member => apart member List.mem_cons_self
      refine .remove ?_ ?_
      · intro same
        exact fresh (Or.inr (List.mem_of_head? same.symm))
      · rw [next]
        refine ih (wellFormed_detach wellFormed id) ?_
        rw [children_detach wellFormed, split, List.cons_append, List.filter_append, List.filter_cons]
        have kept (ids : List NodeId) (missing : id ∉ ids) : ids.filter (· != id) = ids :=
          List.filter_eq_self.mpr (bne_of_notMem missing)
        rw [kept before away, kept (rest ++ after) (by simpa using fresh)]
        simp

/-- Filling the span of a region clears what a walk from its first node on removes, and then inserts the
nodes one by one. -/
theorem exists_sweeps_fill {document : Document} {region : Region} {span : Span}
    (wellFormed : document.WellFormed) (known : region.Known document)
    (found : region.span? document = some span) (nodes : List NodeId) :
    ∃ cleared, (∀ result, Sweeps span.next? document (firstOf span document) result ↔ result = cleared) ∧
      document.fill span nodes = nodes.foldl
        (fun filled node => filled.insertBefore span.parent node span.next?) cleared := by
  obtain ⟨_, before, between, after, cuts⟩ := Region.exists_cuts_of_span? wellFormed known found
  have sweeps : Sweeps span.next? document (firstOf span document)
      ((span.nodes document).foldl detach document) := by
    rw [Span.nodes_eq_of_cuts cuts (wellFormed.unique _), ← cuts.next, firstOf_of_cuts wellFormed cuts]
    exact sweeps_of_split wellFormed (by rw [cuts.split, List.append_assoc])
  refine ⟨_, fun result => ⟨fun also => also.unique sweeps, ?_⟩, rfl⟩
  rintro rfl
  exact sweeps

/-! Copying. -/

mutual

/-- A node is added with what another one holds, and then gets copies of its children one by one. -/
inductive Copies : Document → NodeId → NodeId → Document → Prop
  | node {document result : Document} {id : NodeId} :
      CopiesAll (document.create (document.content id)).1 (document.create (document.content id)).2
        ((document.create (document.content id)).2.children id) result →
      Copies document id (document.create (document.content id)).1 result

inductive CopiesAll : NodeId → Document → List NodeId → Document → Prop
  | nil {copy : NodeId} {document : Document} : CopiesAll copy document [] document
  | cons {copy child childCopy : NodeId} {rest : List NodeId} {document made result : Document} :
      Copies document child childCopy made →
      CopiesAll copy ((made.setParent (some copy) childCopy).setChildren copy
        (made.children copy ++ [childCopy])) rest result →
      CopiesAll copy document (child :: rest) result

end

mutual

theorem Copies.unique {document result otherResult : Document} {id copy otherCopy : NodeId} :
    Copies document id copy result → Copies document id otherCopy otherResult →
      copy = otherCopy ∧ result = otherResult
  | .node below, .node also => ⟨rfl, CopiesAll.unique below also⟩

theorem CopiesAll.unique {document result otherResult : Document} {copy : NodeId} {ids : List NodeId} :
    CopiesAll copy document ids result → CopiesAll copy document ids otherResult → result = otherResult
  | .nil, .nil => rfl
  | .cons first rest, .cons firstAlso restAlso => by
      obtain ⟨rfl, rfl⟩ := Copies.unique first firstAlso
      exact CopiesAll.unique rest restAlso

end

theorem toList_modify_split {document : Document} {before after : List Node} {entry : Node}
    (split : document.nodes.toList = before ++ entry :: after) (id : NodeId)
    (place : id.index = before.length) (change : Node → Node) :
    (document.modify id change).nodes.toList = before ++ change entry :: after := by
  rw [modify, Array.toList_modify, split, place, List.modify_eq_take_drop, List.take_left, List.drop_left,
    List.modifyHead_cons]

theorem roots_append (first : Nat) (trees : List (Tree Content)) (tree : Tree Content) :
    roots first (trees ++ [tree]) = roots first trees ++ [⟨first + Tree.sizeForest trees⟩] := by
  induction trees generalizing first with
  | nil => rfl
  | cons earlier rest ih =>
      rw [List.cons_append, roots, roots, ih, Tree.sizeForest, Nat.add_assoc, List.cons_append]

theorem entriesAll_append (first : Nat) (parent? : Option NodeId) (trees : List (Tree Content))
    (tree : Tree Content) : entriesAll first parent? (trees ++ [tree]) =
      entriesAll first parent? trees ++ entries (first + Tree.sizeForest trees) parent? tree := by
  induction trees generalizing first with
  | nil => simp [entriesAll, Tree.sizeForest]
  | cons earlier rest ih =>
      rw [List.cons_append, entriesAll, entriesAll, ih, Tree.sizeForest, Nat.add_assoc, List.append_assoc]

/-- Adding a tree and hanging it below the root of the tree that was added before is adding a larger one. -/
theorem graft_append (document : Document) (content : Content) (trees : List (Tree Content))
    (tree : Tree Content) :
    let base := document.graft (.node content trees)
    let made := base.2.graft tree
    (made.2.setParent (some base.1) made.1).setChildren base.1 (made.2.children base.1 ++ [made.1]) =
      (document.graft (.node content (trees ++ [tree]))).2 := by
  intro base made
  have size : base.2.size = document.size + 1 + Tree.sizeForest trees := by
    rw [size_graft, Tree.size, Nat.add_assoc]
  have children : made.2.children base.1 = roots (document.size + 1) trees := by
    rw [(extends_graft base.2 tree).children_eq (has_graft document _), Document.children]
    exact congrArg Node.children (stores_graft document (.node content trees)).1
  obtain ⟨root, below⟩ := tree
  have madeList : made.2.nodes.toList = (document.nodes.toList ++
      ⟨content, none, roots (document.size + 1) trees⟩ ::
        entriesAll (document.size + 1) (some base.1) trees) ++
      ⟨root, none, roots (base.2.size + 1) below⟩ ::
        entriesAll (base.2.size + 1) (some made.1) below := by
    rw [toList_graft, toList_graft, entries, entries]
    rfl
  have place : base.2.size = (document.nodes.toList ++
      (⟨content, none, roots (document.size + 1) trees⟩ : Node) ::
        entriesAll (document.size + 1) (some base.1) trees).length := by
    rw [size, List.length_append, List.length_cons, length_entriesAll, Array.length_toList, Nat.add_assoc,
      Nat.add_comm 1]
    rfl
  have hung := toList_modify_split madeList made.1 place fun node => { node with parent? := some base.1 }
  rw [List.append_assoc, List.cons_append] at hung
  have filled := @toList_modify_split (made.2.setParent (some base.1) made.1) _ _ _ hung base.1 rfl
    fun node => { node with children := made.2.children base.1 ++ [made.1] }
  have nodes : ((made.2.setParent (some base.1) made.1).setChildren base.1
      (made.2.children base.1 ++ [made.1])).nodes.toList =
        (document.graft (.node content (trees ++ [.node root below]))).2.nodes.toList := by
    rw [children] at filled ⊢
    rw [toList_graft, entries, roots_append, entriesAll_append, entries, ← size]
    exact filled
  exact congrArg Document.mk (Array.toList_inj.mp nodes)

theorem copies_of_extends {document : Document} (wellFormed : document.WellFormed) {id : NodeId}
    (bound : document.Has id) {later : Document} (extended : later.Extends document) :
    Copies later id (later.graft (document.tree id)).1 (later.graft (document.tree id)).2 := by
  induction id using wellFormed.downward.induction generalizing later with
  | _ id ih =>
      have hangs (copied rest : List NodeId) (split : document.children id = copied ++ rest) :
          CopiesAll (later.create (later.content id)).1
            (later.graft (.node (document.content id) (copied.map document.tree))).2 rest
            (later.graft (document.tree id)).2 := by
        induction rest generalizing copied with
        | nil =>
            rw [wellFormed.tree_eq id, split, List.append_nil]
            exact .nil
        | cons child rest ihRest =>
            have member : child ∈ document.children id := by simp [split]
            have extendedNow := (extends_graft later
              (.node (document.content id) (copied.map document.tree))).trans extended
            refine .cons (ih child member (wellFormed.has_child member) extendedNow) ?_
            have again := ihRest (copied ++ [child]) (by simp [split])
            rw [List.map_append, List.map_singleton, ← graft_append] at again
            exact again
      have contentEq := extended.content_eq bound
      have started := hangs [] (document.children id) rfl
      have made := @Copies.node later (later.graft (document.tree id)).2 id
      have childrenEq : (later.create (later.content id)).2.children id = document.children id := by
        rw [children_create, extended.children_eq bound]
      rw [childrenEq] at made
      refine made ?_
      rw [contentEq, create_eq_graft] at started ⊢
      exact started

/-- A node that is copied alone is added with what it holds. Copying it with everything below it adds its tree
as a whole. -/
theorem clone_iff_copies {document : Document} (wellFormed : document.WellFormed) {id : NodeId}
    (bound : document.Has id) :
    document.clone id false = document.create (document.content id) ∧
      ∀ copy result, document.clone id true = (copy, result) ↔ Copies document id copy result := by
  refine ⟨(create_eq_graft document (document.content id)).symm, fun copy result => ?_⟩
  have copies : Copies document id (document.clone id true).1 (document.clone id true).2 :=
    copies_of_extends wellFormed bound (.refl document)
  constructor
  · intro cloned
    rwa [cloned] at copies
  · intro also
    obtain ⟨rfl, rfl⟩ := copies.unique also
    rfl

end LiveTemplate.Document
