import LiveTemplate.Proofs.Siblings
import Mathlib.Logic.Relation
import Mathlib.Order.WellFounded

/-! Well-formed documents: the links between parents and children agree, no node is above itself,
and fragments are topmost. Giving a parent new children keeps a document well-formed unless one of
them is above the parent. -/

namespace LiveTemplate.Document

def Has (document : Document) (id : NodeId) : Prop :=
  id.index < document.size

def IsParent (document : Document) (parent child : NodeId) : Prop :=
  document.parent? child = some parent

def IsAbove (document : Document) (ancestor id : NodeId) : Prop :=
  Relation.ReflTransGen document.IsParent ancestor id

structure WellFormed (document : Document) : Prop where
  linked : ∀ parent child, child ∈ document.children parent ↔ document.parent? child = some parent
  unique : ∀ parent, (document.children parent).Nodup
  founded : WellFounded document.IsParent
  fragments : ∀ id, document.kind id = .fragment → document.parent? id = none
  names : ∀ id, (document.content id).attributes.Pairwise fun first second =>
    first.name.agrees second.name = false

theorem node_of_not_has {document : Document} {id : NodeId} (missing : ¬ document.Has id) :
    document.node id = ⟨.fragment, none, []⟩ := by
  have bound : ¬ id.index < document.nodes.size := missing
  simp [node, Array.getD, bound]

theorem has_of_parent? {document : Document} {parent child : NodeId}
    (linked : document.parent? child = some parent) : document.Has child := by
  by_contra missing
  simp [parent?, node_of_not_has missing] at linked

theorem has_of_mem_children {document : Document} {parent child : NodeId}
    (member : child ∈ document.children parent) : document.Has parent := by
  by_contra missing
  simp [children, node_of_not_has missing] at member

theorem has_of_kind {document : Document} {id : NodeId} (other : document.kind id ≠ .fragment) :
    document.Has id := by
  by_contra missing
  simp [kind, content, node_of_not_has missing, Content.kind] at other

theorem has_of_text {document : Document} {id : NodeId} {text : String}
    (same : document.content id = .text text) : document.Has id := by
  apply has_of_kind
  rw [kind, same]
  simp [Content.kind]

theorem eq_of_nodes {document result : Document} (size : result.size = document.size)
    (same : ∀ id, result.node id = document.node id) : result = document := by
  obtain ⟨nodes⟩ := document
  obtain ⟨others⟩ := result
  congr 1
  refine Array.ext size fun index bound otherBound => ?_
  have found := same ⟨index⟩
  simpa [node, bound, otherBound] using found

theorem node_eq_of_seen {document result : Document} {id : NodeId}
    (content : result.content id = document.content id)
    (parent? : result.parent? id = document.parent? id)
    (children : result.children id = document.children id) : result.node id = document.node id :=
  (congr (congr (congrArg Node.mk content) parent?) children : _)

theorem eq_of_seen {document result : Document} (size : result.size = document.size)
    (content : ∀ id, result.content id = document.content id)
    (parent? : ∀ id, result.parent? id = document.parent? id)
    (children : ∀ id, result.children id = document.children id) : result = document :=
  eq_of_nodes size fun id => node_eq_of_seen (content id) (parent? id) (children id)

theorem wellFormed_new : Document.new.WellFormed := by
  have bare (id : NodeId) : (Document.new.node id).parent? = none ∧
      (Document.new.node id).children = [] ∧ (Document.new.node id).content.attributes = [] := by
    by_cases bound : Document.new.Has id
    · have zero : id.index = 0 := Nat.lt_one_iff.mp bound
      simp [node, new, zero, Content.attributes]
    · rw [node_of_not_has bound]
      exact ⟨rfl, rfl, rfl⟩
  refine ⟨?_, ?_, ⟨fun id => ⟨id, fun parent linked => ?_⟩⟩, fun id _ => (bare id).1, ?_⟩
  · intro parent child
    rw [children, (bare parent).2.1, parent?, (bare child).1]
    simp
  · intro parent
    rw [children, (bare parent).2.1]
    exact List.nodup_nil
  · rw [IsParent, parent?, (bare id).1] at linked
    cases linked
  · intro id
    rw [content, (bare id).2.2]
    exact List.Pairwise.nil

namespace WellFormed

variable {document : Document}

theorem has_parent (wellFormed : document.WellFormed) {parent child : NodeId}
    (linked : document.parent? child = some parent) : document.Has parent :=
  has_of_mem_children ((wellFormed.linked parent child).mpr linked)

theorem has_child (wellFormed : document.WellFormed) {parent child : NodeId}
    (member : child ∈ document.children parent) : document.Has child :=
  has_of_parent? ((wellFormed.linked parent child).mp member)

theorem kind_of_parent? (wellFormed : document.WellFormed) {parent child : NodeId}
    (linked : document.parent? child = some parent) : document.kind child ≠ .fragment := by
  intro isFragment
  simp [wellFormed.fragments child isFragment] at linked

theorem ne_of_isAbove_parent (wellFormed : document.WellFormed) {parent child id : NodeId}
    (linked : document.parent? child = some parent) (above : document.IsAbove child id) :
    id ≠ parent := by
  rintro rfl
  have loop : Relation.TransGen document.IsParent child child :=
    Relation.TransGen.tail' above linked
  exact wellFormed.founded.transGen.irrefl.irrefl child loop

theorem has_of_isAbove (wellFormed : document.WellFormed) {other id : NodeId}
    (above : document.IsAbove other id) (bound : document.Has id) : document.Has other := by
  rcases Relation.ReflTransGen.cases_head above with rfl | ⟨child, linked, _⟩
  · exact bound
  · exact wellFormed.has_parent linked

theorem not_isAbove_of_child (wellFormed : document.WellFormed) {parent child : NodeId}
    (member : child ∈ document.children parent) : ¬ document.IsAbove child parent := by
  intro above
  exact wellFormed.ne_of_isAbove_parent ((wellFormed.linked parent child).mp member) above rfl

end WellFormed

/-! What changing one node does to what can be seen of the others. -/

theorem size_modify (document : Document) (id : NodeId) (change : Node → Node) :
    (document.modify id change).size = document.size := by
  simp [modify, size]

theorem node_modify {document : Document} {id : NodeId} (bound : document.Has id)
    (change : Node → Node) (other : NodeId) :
    (document.modify id change).node other =
      if other = id then change (document.node id) else document.node other := by
  have bound : id.index < document.nodes.size := bound
  obtain ⟨index⟩ := id
  obtain ⟨otherIndex⟩ := other
  simp only [modify, node, Array.getD_eq_getD_getElem?, Array.getElem?_modify, NodeId.mk.injEq]
  by_cases same : otherIndex = index
  · subst same
    simp only [↓reduceIte]
    rw [Array.getElem?_eq_getElem bound]
    simp
  · simp [same, Ne.symm same]

theorem modify_of_not_has {document : Document} {id : NodeId} (missing : ¬ document.Has id)
    (change : Node → Node) : document.modify id change = document := by
  have outside : ¬ id.index < document.nodes.size := missing
  simp [modify, Array.modify, Array.modifyM, outside]

theorem observe_modify {α : Type} (document : Document) (id : NodeId) (change : Node → Node)
    (observe : Node → α) (same : ∀ node, observe (change node) = observe node) (other : NodeId) :
    observe ((document.modify id change).node other) = observe (document.node other) := by
  by_cases bound : document.Has id
  · rw [node_modify bound]
    split
    · rename_i equal
      rw [same, equal]
    · rfl
  · rw [modify_of_not_has bound]

@[simp]
theorem size_setParent (document : Document) (parent? : Option NodeId) (id : NodeId) :
    (document.setParent parent? id).size = document.size :=
  size_modify ..

@[simp]
theorem content_setParent (document : Document) (parent? : Option NodeId) (id other : NodeId) :
    (document.setParent parent? id).content other = document.content other :=
  observe_modify document id (fun node => { node with parent? }) Node.content (fun _ => rfl) other

@[simp]
theorem children_setParent (document : Document) (parent? : Option NodeId) (id other : NodeId) :
    (document.setParent parent? id).children other = document.children other :=
  observe_modify document id (fun node => { node with parent? }) Node.children (fun _ => rfl) other

theorem parent?_setParent {document : Document} {id : NodeId} (bound : document.Has id)
    (parent? : Option NodeId) (other : NodeId) :
    (document.setParent parent? id).parent? other =
      if other = id then parent? else document.parent? other := by
  simp only [Document.parent?, setParent, node_modify bound]
  split <;> rfl

@[simp]
theorem size_setChildren (document : Document) (id : NodeId) (children : List NodeId) :
    (document.setChildren id children).size = document.size :=
  size_modify ..

@[simp]
theorem content_setChildren (document : Document) (id : NodeId) (children : List NodeId)
    (other : NodeId) : (document.setChildren id children).content other = document.content other :=
  observe_modify document id (fun node => { node with children }) Node.content (fun _ => rfl) other

@[simp]
theorem parent?_setChildren (document : Document) (id : NodeId) (children : List NodeId)
    (other : NodeId) : (document.setChildren id children).parent? other = document.parent? other :=
  observe_modify document id (fun node => { node with children }) Node.parent? (fun _ => rfl) other

theorem children_setChildren {document : Document} {id : NodeId} (bound : document.Has id)
    (children : List NodeId) (other : NodeId) :
    (document.setChildren id children).children other =
      if other = id then children else document.children other := by
  simp only [Document.children, setChildren, node_modify bound]
  split <;> rfl

@[simp]
theorem size_setContent (document : Document) (id : NodeId) (content : Content) :
    (document.setContent id content).size = document.size :=
  size_modify ..

@[simp]
theorem parent?_setContent (document : Document) (id : NodeId) (content : Content)
    (other : NodeId) : (document.setContent id content).parent? other = document.parent? other :=
  observe_modify document id (fun node => { node with content }) Node.parent? (fun _ => rfl) other

@[simp]
theorem children_setContent (document : Document) (id : NodeId) (content : Content)
    (other : NodeId) :
    (document.setContent id content).children other = document.children other :=
  observe_modify document id (fun node => { node with content }) Node.children (fun _ => rfl) other

theorem content_setContent {document : Document} {id : NodeId} (bound : document.Has id)
    (content : Content) (other : NodeId) :
    (document.setContent id content).content other =
      if other = id then content else document.content other := by
  simp only [Document.content, setContent, node_modify bound]
  split <;> rfl

theorem content_setContent_of_ne (document : Document) {id other : NodeId} (differ : other ≠ id)
    (content : Content) : (document.setContent id content).content other = document.content other := by
  by_cases bound : document.Has id
  · rw [content_setContent bound, if_neg differ]
  · rw [setContent, modify_of_not_has bound]

theorem size_foldl_setParent (document : Document) (parent? : Option NodeId) (ids : List NodeId) :
    (ids.foldl (setParent · parent?) document).size = document.size := by
  induction ids generalizing document with
  | nil => rfl
  | cons id rest ih => simp [ih]

theorem content_foldl_setParent (document : Document) (parent? : Option NodeId)
    (ids : List NodeId) (other : NodeId) :
    (ids.foldl (setParent · parent?) document).content other = document.content other := by
  induction ids generalizing document with
  | nil => rfl
  | cons id rest ih => simp [ih]

theorem children_foldl_setParent (document : Document) (parent? : Option NodeId)
    (ids : List NodeId) (other : NodeId) :
    (ids.foldl (setParent · parent?) document).children other = document.children other := by
  induction ids generalizing document with
  | nil => rfl
  | cons id rest ih => simp [ih]

theorem parent?_foldl_setParent {document : Document} {ids : List NodeId}
    (bound : ∀ id ∈ ids, document.Has id) (parent? : Option NodeId) (other : NodeId) :
    (ids.foldl (setParent · parent?) document).parent? other =
      if other ∈ ids then parent? else document.parent? other := by
  induction ids generalizing document with
  | nil => simp
  | cons id rest ih =>
      have restBound : ∀ next ∈ rest, (document.setParent parent? id).Has next := by
        intro next member
        simpa [Has] using bound next (List.mem_cons_of_mem _ member)
      rw [List.foldl_cons, ih restBound, parent?_setParent (bound id (by simp))]
      by_cases later : other ∈ rest
      · simp [later]
      · by_cases same : other = id <;> simp [later, same]

/-- The document in which the children of one parent are exactly the listed nodes, taken from
wherever they were. Former children that are not listed have no parent. -/
structure Regrouped (document : Document) (parent : NodeId) (listed : List NodeId)
    (result : Document) : Prop where
  size : result.size = document.size
  content : ∀ id, result.content id = document.content id
  parent? : ∀ id, result.parent? id =
    if id ∈ listed then some parent
    else if document.parent? id = some parent then none
    else document.parent? id
  children : ∀ id, result.children id =
    if id = parent then listed else (document.children id).filter fun child => child ∉ listed

structure Adoptable (document : Document) (parent : NodeId) (listed : List NodeId) : Prop where
  unique : listed.Nodup
  bound : ∀ id ∈ listed, document.Has id
  kind : ∀ id ∈ listed, document.kind id ≠ .fragment
  notAbove : ∀ id ∈ listed, ¬ document.IsAbove id parent

theorem Adoptable.tail {document : Document} {parent id : NodeId} {rest : List NodeId}
    (adoptable : document.Adoptable parent (id :: rest)) : document.Adoptable parent rest where
  unique := (List.nodup_cons.mp adoptable.unique).2
  bound := fun other member => adoptable.bound other (List.mem_cons_of_mem _ member)
  kind := fun other member => adoptable.kind other (List.mem_cons_of_mem _ member)
  notAbove := fun other member => adoptable.notAbove other (List.mem_cons_of_mem _ member)

theorem WellFormed.adoptable_of_subset {document : Document} (wellFormed : document.WellFormed)
    {parent : NodeId} {listed : List NodeId} (unique : listed.Nodup)
    (subset : ∀ id ∈ listed, id ∈ document.children parent) :
    document.Adoptable parent listed where
  unique := unique
  bound := fun id member => wellFormed.has_child (subset id member)
  kind := fun id member =>
    wellFormed.kind_of_parent? ((wellFormed.linked parent id).mp (subset id member))
  notAbove := fun id member => wellFormed.not_isAbove_of_child (subset id member)

namespace Regrouped

variable {document result : Document} {parent : NodeId} {listed : List NodeId}

theorem has_iff (regrouped : document.Regrouped parent listed result) (id : NodeId) :
    result.Has id ↔ document.Has id := by
  rw [Has, Has, regrouped.size]

theorem kind_eq (regrouped : document.Regrouped parent listed result) (id : NodeId) :
    result.kind id = document.kind id := by
  rw [kind, kind, regrouped.content]

theorem unique {other : Document} (regrouped : document.Regrouped parent listed result)
    (also : document.Regrouped parent listed other) : result = other :=
  eq_of_seen (regrouped.size.trans also.size.symm)
    (fun id => (regrouped.content id).trans (also.content id).symm)
    (fun id => (regrouped.parent? id).trans (also.parent? id).symm)
    (fun id => (regrouped.children id).trans (also.children id).symm)

/-- Only the parent and the former parents of the listed nodes get other children. -/
theorem children_eq (regrouped : document.Regrouped parent listed result)
    (wellFormed : document.WellFormed) {id : NodeId} (differ : id ≠ parent)
    (apart : ∀ child ∈ listed, document.parent? child ≠ some id) :
    result.children id = document.children id := by
  rw [regrouped.children, if_neg differ, List.filter_eq_self]
  intro child member
  exact decide_eq_true fun inside => apart child inside ((wellFormed.linked id child).mp member)

theorem children_of_origin (regrouped : document.Regrouped parent listed result)
    (wellFormed : document.WellFormed) {id : NodeId} (differ : id ≠ parent)
    (origin : ∀ child ∈ listed, child ∈ document.children parent ∨ document.parent? child = none) :
    result.children id = document.children id := by
  refine regrouped.children_eq wellFormed differ fun child member linked => ?_
  rcases origin child member with old | none
  · rw [(wellFormed.linked parent child).mp old] at linked
    exact differ (Option.some.inj linked).symm
  · rw [none] at linked
    cases linked

theorem refl (wellFormed : document.WellFormed) (parent : NodeId) :
    document.Regrouped parent (document.children parent) document where
  size := rfl
  content := fun _ => rfl
  parent? := by
    intro id
    simp only [wellFormed.linked]
    split
    · assumption
    · rfl
  children := by
    intro id
    split
    · rename_i same
      rw [same]
    · rename_i different
      symm
      rw [List.filter_eq_self]
      intro child member
      rw [wellFormed.linked] at member
      simp [wellFormed.linked, member, different]

theorem parent?_of_isAbove (regrouped : document.Regrouped parent listed result)
    (wellFormed : document.WellFormed) (adoptable : document.Adoptable parent listed)
    {id : NodeId} (above : document.IsAbove id parent) : result.parent? id = document.parent? id := by
  have unlisted : id ∉ listed := fun member => adoptable.notAbove id member above
  have outside : document.parent? id ≠ some parent := by
    intro linked
    exact wellFormed.ne_of_isAbove_parent linked above rfl
  rw [regrouped.parent?, if_neg unlisted, if_neg outside]

theorem isAbove_iff (regrouped : document.Regrouped parent listed result)
    (wellFormed : document.WellFormed) (adoptable : document.Adoptable parent listed)
    (id : NodeId) : result.IsAbove id parent ↔ document.IsAbove id parent := by
  constructor
  · intro above
    induction above using Relation.ReflTransGen.head_induction_on with
    | refl => exact Relation.ReflTransGen.refl
    | head step _ ih =>
        have same := regrouped.parent?_of_isAbove wellFormed adoptable ih
        exact Relation.ReflTransGen.head (same.symm.trans step) ih
  · intro above
    induction above using Relation.ReflTransGen.head_induction_on with
    | refl => exact Relation.ReflTransGen.refl
    | head step later ih =>
        have same := regrouped.parent?_of_isAbove wellFormed adoptable later
        exact Relation.ReflTransGen.head (same.trans step) ih

theorem adoptable_iff (regrouped : document.Regrouped parent listed result)
    (wellFormed : document.WellFormed) (adoptable : document.Adoptable parent listed)
    {nodes : List NodeId} : result.Adoptable parent nodes ↔ document.Adoptable parent nodes := by
  have above := regrouped.isAbove_iff wellFormed adoptable
  constructor
  · intro later
    exact ⟨later.unique, fun id member => (regrouped.has_iff id).mp (later.bound id member),
      fun id member => regrouped.kind_eq id ▸ later.kind id member,
      fun id member => mt (above id).mpr (later.notAbove id member)⟩
  · intro earlier
    exact ⟨earlier.unique, fun id member => (regrouped.has_iff id).mpr (earlier.bound id member),
      fun id member => (regrouped.kind_eq id).symm ▸ earlier.kind id member,
      fun id member => mt (above id).mp (earlier.notAbove id member)⟩

theorem founded (regrouped : document.Regrouped parent listed result)
    (wellFormed : document.WellFormed) (adoptable : document.Adoptable parent listed) :
    WellFounded result.IsParent := by
  have grounded : ∀ id, document.IsAbove id parent → Acc result.IsParent id := by
    intro id
    induction id using wellFormed.founded.induction with
    | _ id ih =>
        intro above
        constructor
        intro upper linked
        have same := regrouped.parent?_of_isAbove wellFormed adoptable above
        have old : document.IsParent upper id := same.symm.trans linked
        exact ih upper old (Relation.ReflTransGen.head old above)
  constructor
  intro id
  induction id using wellFormed.founded.induction with
  | _ id ih =>
      constructor
      intro upper linked
      have linked : result.parent? id = some upper := linked
      rw [regrouped.parent?] at linked
      split at linked
      · rw [← Option.some.inj linked]
        exact grounded parent Relation.ReflTransGen.refl
      · split at linked
        · exact absurd linked (by simp)
        · exact ih upper linked

theorem wellFormed (regrouped : document.Regrouped parent listed result)
    (wellFormed : document.WellFormed) (adoptable : document.Adoptable parent listed) :
    result.WellFormed where
  linked := by
    intro upper child
    rw [regrouped.children, regrouped.parent?]
    by_cases same : upper = parent
    · subst same
      by_cases member : child ∈ listed
      · simp [member]
      · by_cases old : document.parent? child = some upper <;> simp [member, old]
    · by_cases member : child ∈ listed
      · simp [same, member, Ne.symm same]
      · by_cases old : document.parent? child = some parent
        · simp [same, member, old, wellFormed.linked, Ne.symm same]
        · simp [same, member, old, wellFormed.linked]
  unique := by
    intro upper
    rw [regrouped.children]
    split
    · exact adoptable.unique
    · exact (wellFormed.unique upper).filter _
  founded := regrouped.founded wellFormed adoptable
  fragments := by
    intro id isFragment
    rw [regrouped.kind_eq] at isFragment
    have unlisted : id ∉ listed := fun member => adoptable.kind id member isFragment
    simp [regrouped.parent?, unlisted, wellFormed.fragments id isFragment]
  names := by
    intro id
    rw [regrouped.content]
    exact wellFormed.names id

/-- Regrouping twice under one parent is regrouping once, when what the second step drops was there
from the start. -/
theorem trans {middle : Document} {between : List NodeId}
    (first : document.Regrouped parent between middle)
    (second : middle.Regrouped parent listed result) (wellFormed : document.WellFormed)
    (kept : ∀ id ∈ between, id ∈ listed ∨ id ∈ document.children parent) :
    document.Regrouped parent listed result where
  size := second.size.trans first.size
  content := fun id => (second.content id).trans (first.content id)
  parent? := by
    intro id
    rw [second.parent?, first.parent?]
    by_cases member : id ∈ listed
    · simp [member]
    · by_cases earlier : id ∈ between
      · have old := (wellFormed.linked parent id).mp ((kept id earlier).resolve_left member)
        simp [member, earlier, old]
      · by_cases old : document.parent? id = some parent <;> simp [member, earlier, old]
  children := by
    intro id
    rw [second.children]
    split
    · rfl
    · rename_i different
      rw [first.children, if_neg different, List.filter_filter]
      apply List.filter_congr
      intro child member
      by_cases listedMember : child ∈ listed
      · simp [listedMember]
      · have unlisted : child ∉ between := by
          intro earlier
          have old := (wellFormed.linked parent child).mp
            ((kept child earlier).resolve_left listedMember)
          rw [wellFormed.linked, old] at member
          exact different (Option.some.inj member).symm
        simp [unlisted]

end Regrouped

/-! Detaching, inserting and arranging regroup the children of one parent. -/

theorem detach_regrouped {document : Document} (wellFormed : document.WellFormed)
    {parent id : NodeId} (linked : document.parent? id = some parent) :
    document.Regrouped parent ((document.children parent).filter (· != id)) (document.detach id) := by
  have parentBound := wellFormed.has_parent linked
  have bound : (document.setChildren parent
      ((document.children parent).filter (· != id))).Has id := by
    simpa [Has] using has_of_parent? linked
  have result : document.detach id =
      (document.setChildren parent ((document.children parent).filter (· != id))).setParent none id := by
    simp [detach, linked]
  rw [result]
  constructor
  · simp
  · simp
  · intro other
    rw [parent?_setParent bound]
    by_cases same : other = id
    · simp [same, linked]
    · by_cases old : document.parent? other = some parent <;>
        simp [same, wellFormed.linked, old]
  · intro other
    rw [children_setParent, children_setChildren parentBound]
    split
    · rfl
    · rename_i different
      symm
      rw [List.filter_eq_self]
      intro child member
      rw [wellFormed.linked] at member
      simp [wellFormed.linked, member, different]

theorem wellFormed_detach {document : Document} (wellFormed : document.WellFormed) (id : NodeId) :
    (document.detach id).WellFormed := by
  cases linked : document.parent? id with
  | none => simpa [detach, linked] using wellFormed
  | some parent =>
      exact (detach_regrouped wellFormed linked).wellFormed wellFormed
        (wellFormed.adoptable_of_subset ((wellFormed.unique parent).filter _)
          fun child member => (List.mem_filter.mp member).1)

theorem content_detach (document : Document) (id other : NodeId) :
    (document.detach id).content other = document.content other := by
  rw [detach]
  split <;> simp

theorem size_detach (document : Document) (id : NodeId) :
    (document.detach id).size = document.size := by
  rw [detach]
  split <;> simp

theorem parent?_detach {document : Document} (wellFormed : document.WellFormed)
    (id other : NodeId) : (document.detach id).parent? other =
      if other = id then none else document.parent? other := by
  cases linked : document.parent? id with
  | none =>
      by_cases same : other = id <;> simp [detach, linked, same]
  | some parent =>
      rw [(detach_regrouped wellFormed linked).parent?]
      by_cases same : other = id
      · simp [same, linked]
      · by_cases old : document.parent? other = some parent <;>
          simp [same, wellFormed.linked, old]

theorem children_detach {document : Document} (wellFormed : document.WellFormed)
    (id other : NodeId) :
    (document.detach id).children other = (document.children other).filter (· != id) := by
  have absent : ∀ parent, document.parent? id ≠ some parent →
      (document.children parent).filter (· != id) = document.children parent := by
    intro parent different
    rw [List.filter_eq_self]
    intro child member
    simp only [bne_iff_ne]
    rintro rfl
    exact different ((wellFormed.linked parent child).mp member)
  cases linked : document.parent? id with
  | none => rw [absent other (by simp [linked])]; simp [detach, linked]
  | some parent =>
      by_cases same : other = parent
      · subst same
        rw [(detach_regrouped wellFormed linked).children, if_pos rfl]
      · have bound := wellFormed.has_parent linked
        rw [absent other (by simp [linked, Ne.symm same])]
        simp [detach, linked, children_setChildren bound, same]

end LiveTemplate.Document
