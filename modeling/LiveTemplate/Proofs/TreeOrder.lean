import LiveTemplate.Proofs.Planting

/-! Tree order: comparing the paths from the top orders the nodes of a tree as a walk downwards meets
them, and the elements with a tag are found in that order. -/

namespace LiveTemplate.Document

def listing (document : Document) (id : NodeId) : List NodeId :=
  (document.layout id).preorder

def SameTree (document : Document) (first second : NodeId) : Prop :=
  ∃ root, document.IsAbove root first ∧ document.IsAbove root second

/-- A walk with a stack of nodes that are yet to be visited: the children of a node take its place. -/
inductive Walk (document : Document) : (stack visited : List NodeId) → Prop
  | done : document.Walk [] []
  | visit {id stack visited} : document.Walk (document.children id ++ stack) visited →
      document.Walk (id :: stack) (id :: visited)

structure Ordered (document : Document) : Prop where
  irrefl : ∀ id, document.precedes id id = false
  trans : ∀ first second third, document.precedes first second = true →
    document.precedes second third = true → document.precedes first third = true
  total : ∀ first second, document.SameTree first second → first ≠ second →
    document.precedes first second = true ∨ document.precedes second first = true
  apart : ∀ first second, ¬ document.SameTree first second → document.precedes first second = false
  listing_eq : ∀ id, document.listing id = id :: (document.children id).flatMap document.listing
  listed : ∀ root id, id ∈ document.listing root ↔ document.IsAbove root id
  once : ∀ root, (document.listing root).Nodup
  listing_order : ∀ root first second, document.IsAbove root first → document.IsAbove root second →
    (document.precedes first second = true ↔
      (document.listing root).idxOf first < (document.listing root).idxOf second)

structure Collects (document : Document) (root : NodeId) (tag : String) (found : List NodeId) :
    Prop where
  exact : ∀ id, id ∈ found ↔ Relation.TransGen document.IsParent root id ∧
    ∃ name attributes, document.content id = .element name attributes ∧
      name.toList.map Char.toLower = tag.toList.map Char.toLower
  once : found.Nodup
  increasing : found.Pairwise fun first second => document.precedes first second = true
  walk : ∃ visited, document.Walk (document.children root) visited ∧
    found = visited.filter fun id => (document.content id).tag?.any (sameTag tag)

section
variable {siblings : List NodeId} {before : NodeId → NodeId → Prop}

theorem pairwise_idxOf (unique : siblings.Nodup) :
    siblings.Pairwise fun first second => siblings.idxOf first < siblings.idxOf second := by
  rw [List.pairwise_iff_getElem]
  intro left right leftBound rightBound less
  rwa [unique.idxOf_getElem, unique.idxOf_getElem]

theorem idxOf_lt_iff_of_pairwise (sorted : siblings.Pairwise before)
    (irrefl : ∀ id, ¬ before id id)
    (trans : ∀ first second third, before first second → before second third → before first third)
    {first second : NodeId} (firstMember : first ∈ siblings) (secondMember : second ∈ siblings) :
    before first second ↔ siblings.idxOf first < siblings.idxOf second := by
  have forward (left right : NodeId) (leftMember : left ∈ siblings) (rightMember : right ∈ siblings)
      (less : siblings.idxOf left < siblings.idxOf right) : before left right := by
    have leftBound := List.idxOf_lt_length_of_mem leftMember
    have rightBound := List.idxOf_lt_length_of_mem rightMember
    have sortedAt := List.pairwise_iff_getElem.mp sorted _ _ leftBound rightBound less
    rwa [List.getElem_idxOf, List.getElem_idxOf] at sortedAt
  refine ⟨fun less => ?_, forward first second firstMember secondMember⟩
  rcases Nat.lt_trichotomy (siblings.idxOf first) (siblings.idxOf second) with earlier | same | later
  · exact earlier
  · have equal := (List.idxOf_inj firstMember).mp same
    exact (irrefl second (equal ▸ less)).elim
  · have more := forward second first secondMember firstMember later
    exact (irrefl first (trans first second first less more)).elim

end

section
variable {document : Document}

theorem precedes_iff (first second : NodeId) : document.precedes first second = true ↔
    document.top first = document.top second ∧ document.path first < document.path second := by
  rw [precedes, Bool.and_eq_true, beq_iff_eq, decide_eq_true_eq]

theorem not_precedes_self (id : NodeId) : ¬ document.precedes id id = true := by
  rw [precedes_iff]
  exact fun less => List.lt_irrefl _ less.2

theorem precedes_trans {first second third : NodeId} (less : document.precedes first second = true)
    (more : document.precedes second third = true) : document.precedes first third = true := by
  rw [precedes_iff] at less more ⊢
  exact ⟨less.1.trans more.1, List.lt_trans less.2 more.2⟩

theorem any_sameTag_iff (tag : String) (content : Content) :
    content.tag?.any (sameTag tag) = true ↔ ∃ name attributes, content = .element name attributes ∧
      name.toList.map Char.toLower = tag.toList.map Char.toLower := by
  cases content with
  | element name attributes =>
      rw [Content.tag?, Option.any_some, sameTag, beq_iff_eq, eq_comm]
      exact ⟨fun same => ⟨name, attributes, rfl, same⟩, fun ⟨_, _, rfl, same⟩ => same⟩
  | _ => simp [Content.tag?]

end

namespace WellFormed

variable {document : Document}

theorem top_of_isAbove (wellFormed : document.WellFormed) {root id : NodeId}
    (above : document.IsAbove root id) : document.top id = document.top root := by
  induction above with
  | refl => rfl
  | tail _ linked ih => exact (wellFormed.top_of_parent? linked).trans ih

theorem path_of_isAbove (wellFormed : document.WellFormed) {root id : NodeId}
    (above : document.IsAbove root id) : ∃ rest, document.path id = document.path root ++ rest := by
  induction above with
  | refl => exact ⟨[], (List.append_nil _).symm⟩
  | @tail parent child _ linked ih =>
      obtain ⟨rest, path⟩ := ih
      refine ⟨rest ++ [(document.children parent).idxOf child], ?_⟩
      rw [wellFormed.path_of_parent? linked, path, List.append_assoc]

theorem isAbove_top (wellFormed : document.WellFormed) (id : NodeId) :
    document.IsAbove (document.top id) id := by
  obtain ⟨chain, ascends⟩ := wellFormed.exists_ascends id
  obtain ⟨rest, rfl⟩ := ascends.head
  rw [← ascends.mem_iff, top, ascends.lineage_eq wellFormed, List.getLastD_cons]
  exact List.getLastD_mem_cons

theorem path_of_child (wellFormed : document.WellFormed) {parent child id : NodeId}
    (member : child ∈ document.children parent) (above : document.IsAbove child id) :
    document.top id = document.top parent ∧ ∃ rest, document.path id =
      document.path parent ++ (document.children parent).idxOf child :: rest := by
  have linked := (wellFormed.linked parent child).mp member
  obtain ⟨rest, path⟩ := wellFormed.path_of_isAbove above
  refine ⟨(wellFormed.top_of_isAbove above).trans (wellFormed.top_of_parent? linked), rest, ?_⟩
  rw [path, wellFormed.path_of_parent? linked, List.append_assoc, List.singleton_append]

theorem precedes_of_below (wellFormed : document.WellFormed) {parent child id : NodeId}
    (member : child ∈ document.children parent) (above : document.IsAbove child id) :
    document.precedes parent id = true := by
  obtain ⟨top, rest, path⟩ := wellFormed.path_of_child member above
  rw [precedes_iff, top, path]
  refine ⟨rfl, ?_⟩
  have longer := @List.append_left_lt _ _ (document.path parent) _ _
    (List.nil_lt_cons ((document.children parent).idxOf child) rest)
  rwa [List.append_nil] at longer

theorem precedes_of_siblings (wellFormed : document.WellFormed)
    {parent left right first second : NodeId} (leftMember : left ∈ document.children parent)
    (rightMember : right ∈ document.children parent)
    (less : (document.children parent).idxOf left < (document.children parent).idxOf right)
    (aboveFirst : document.IsAbove left first) (aboveSecond : document.IsAbove right second) :
    document.precedes first second = true := by
  obtain ⟨firstTop, firstRest, firstPath⟩ := wellFormed.path_of_child leftMember aboveFirst
  obtain ⟨secondTop, secondRest, secondPath⟩ := wellFormed.path_of_child rightMember aboveSecond
  rw [precedes_iff, firstTop, secondTop, firstPath, secondPath]
  exact ⟨rfl, List.append_left_lt (List.cons_lt_cons_iff.mpr (Or.inl less))⟩

theorem listing_eq (wellFormed : document.WellFormed) (id : NodeId) :
    document.listing id = id :: (document.children id).flatMap document.listing := by
  rw [listing, wellFormed.layout_eq, Tree.preorder, Tree.preorderForest_eq_flatMap, List.flatMap_map]
  rfl

theorem descendants_eq (wellFormed : document.WellFormed) (id : NodeId) :
    document.descendants id = (document.children id).flatMap document.listing := by
  rw [descendants, ← listing, wellFormed.listing_eq, List.tail_cons]

theorem mem_listing_iff (wellFormed : document.WellFormed) (root id : NodeId) :
    id ∈ document.listing root ↔ document.IsAbove root id := by
  refine ⟨wellFormed.isAbove_of_mem_layoutUpTo, fun above => ?_⟩
  induction above using Relation.ReflTransGen.head_induction_on with
  | refl =>
      rw [wellFormed.listing_eq]
      exact List.mem_cons_self
  | @head parent child linked _ ih =>
      rw [wellFormed.listing_eq]
      exact List.mem_cons_of_mem _
        (List.mem_flatMap.mpr ⟨child, (wellFormed.linked parent child).mpr linked, ih⟩)

theorem mem_descendants_iff (wellFormed : document.WellFormed) (root id : NodeId) :
    id ∈ document.descendants root ↔ Relation.TransGen document.IsParent root id := by
  simp only [wellFormed.descendants_eq, List.mem_flatMap, wellFormed.linked,
    wellFormed.mem_listing_iff, Relation.TransGen.head'_iff]
  rfl

/-- A node comes before what is below it, and what is below a child before what is below a later
child. -/
theorem pairwise_listing (wellFormed : document.WellFormed) (root : NodeId) :
    (document.listing root).Pairwise fun first second => document.precedes first second = true := by
  induction root using wellFormed.downward.induction with
  | _ root ih =>
      rw [wellFormed.listing_eq, List.pairwise_cons, List.pairwise_flatMap]
      refine ⟨?_, ih, ?_⟩
      · intro id below
        obtain ⟨child, member, listed⟩ := List.mem_flatMap.mp below
        exact wellFormed.precedes_of_below member ((wellFormed.mem_listing_iff child id).mp listed)
      · refine (pairwise_idxOf (wellFormed.unique root)).imp_of_mem ?_
        intro left right leftMember rightMember less first firstListed second secondListed
        exact wellFormed.precedes_of_siblings leftMember rightMember less
          ((wellFormed.mem_listing_iff left first).mp firstListed)
          ((wellFormed.mem_listing_iff right second).mp secondListed)

/-- A walk that starts with a node on the stack visits what is listed below it and then the rest. -/
theorem walk_listing (wellFormed : document.WellFormed) (id : NodeId) {stack visited : List NodeId}
    (rest : document.Walk stack visited) :
    document.Walk (id :: stack) (document.listing id ++ visited) := by
  induction id using wellFormed.downward.induction generalizing stack visited with
  | _ id ih =>
      rw [wellFormed.listing_eq, List.cons_append]
      refine .visit ?_
      generalize document.children id = children at ih
      induction children with
      | nil => exact rest
      | cons child later ihLater =>
          rw [List.flatMap_cons, List.append_assoc]
          exact ih child List.mem_cons_self (ihLater fun other member =>
            ih other (List.mem_cons_of_mem _ member))

theorem nodup_listing (wellFormed : document.WellFormed) (root : NodeId) :
    (document.listing root).Nodup := by
  refine (wellFormed.pairwise_listing root).imp ?_
  rintro first _ less rfl
  exact not_precedes_self first less

theorem precedes_iff_idxOf (wellFormed : document.WellFormed) {root first second : NodeId}
    (aboveFirst : document.IsAbove root first) (aboveSecond : document.IsAbove root second) :
    document.precedes first second = true ↔
      (document.listing root).idxOf first < (document.listing root).idxOf second :=
  idxOf_lt_iff_of_pairwise (wellFormed.pairwise_listing root) not_precedes_self
    (fun _ _ _ => precedes_trans) ((wellFormed.mem_listing_iff root first).mpr aboveFirst)
    ((wellFormed.mem_listing_iff root second).mpr aboveSecond)

theorem ordered (wellFormed : document.WellFormed) : document.Ordered where
  irrefl := fun id => Bool.eq_false_iff.mpr (not_precedes_self id)
  trans := fun _ _ _ => precedes_trans
  total := by
    intro first second ⟨root, aboveFirst, aboveSecond⟩ differ
    rw [wellFormed.precedes_iff_idxOf aboveFirst aboveSecond,
      wellFormed.precedes_iff_idxOf aboveSecond aboveFirst]
    refine Nat.lt_or_gt_of_ne fun same => differ ?_
    exact (List.idxOf_inj ((wellFormed.mem_listing_iff root first).mpr aboveFirst)).mp same
  apart := by
    intro first second apart
    rw [Bool.eq_false_iff]
    intro less
    have top := ((precedes_iff first second).mp less).1
    exact apart ⟨document.top first, wellFormed.isAbove_top first, top ▸ wellFormed.isAbove_top second⟩
  listing_eq := wellFormed.listing_eq
  listed := wellFormed.mem_listing_iff
  once := wellFormed.nodup_listing
  listing_order := fun _ _ _ => wellFormed.precedes_iff_idxOf

theorem descendants_sublist (wellFormed : document.WellFormed) (root : NodeId) :
    (document.descendants root).Sublist (document.listing root) := by
  rw [wellFormed.listing_eq, ← wellFormed.descendants_eq]
  exact List.sublist_cons_self _ _

theorem walk_descendants (wellFormed : document.WellFormed) (root : NodeId) :
    document.Walk (document.children root) (document.descendants root) := by
  have walk := wellFormed.walk_listing root .done
  rw [wellFormed.listing_eq, ← wellFormed.descendants_eq, List.append_nil] at walk
  cases walk with
  | visit below => rwa [List.append_nil] at below

theorem collects (wellFormed : document.WellFormed) (root : NodeId) (tag : String) :
    document.Collects root tag (document.elementsByTag root tag) := by
  have sublist : (document.elementsByTag root tag).Sublist (document.listing root) :=
    List.filter_sublist.trans (wellFormed.descendants_sublist root)
  constructor
  · intro id
    rw [elementsByTag, List.mem_filter, wellFormed.mem_descendants_iff]
    exact and_congr_right fun _ => any_sameTag_iff tag (document.content id)
  · exact (wellFormed.nodup_listing root).sublist sublist
  · exact (wellFormed.pairwise_listing root).sublist sublist
  · exact ⟨_, wellFormed.walk_descendants root, rfl⟩

end WellFormed

/-- In a well-formed document tree order is one order, and the elements with a tag are found in it. -/
theorem ordered_and_collects (document : Document) (wellFormed : document.WellFormed) :
    document.Ordered ∧
      ∀ root tag, document.Collects root tag (document.elementsByTag root tag) :=
  ⟨wellFormed.ordered, wellFormed.collects⟩

def nestedDocument : Document :=
  (Document.new.graft (.node (.element "ul" []) [.node (.element "li" []) [.node (.element "LI" []) []],
    .node (.text "a") [], .node (.element "Li" []) []])).2

theorem ordered_nested :
    nestedDocument.Ordered ∧ nestedDocument.Collects ⟨1⟩ "lI" [⟨2⟩, ⟨3⟩, ⟨5⟩] ∧
      nestedDocument.precedes ⟨3⟩ ⟨4⟩ = true ∧ nestedDocument.precedes ⟨0⟩ ⟨1⟩ = false := by
  have wellFormed : nestedDocument.WellFormed := by
    refine wellFormed_graft wellFormed_new ⟨?_, ?_⟩ <;>
      simp [Tree.preorder, Tree.preorderForest, Tree.children, Content.attributes, Content.kind]
  obtain ⟨ordered, collects⟩ := ordered_and_collects nestedDocument wellFormed
  have found : nestedDocument.elementsByTag ⟨1⟩ "lI" = [⟨2⟩, ⟨3⟩, ⟨5⟩] := by decide +kernel
  exact ⟨ordered, found ▸ collects ⟨1⟩ "lI", by decide +kernel, by decide +kernel⟩

end LiveTemplate.Document
