import LiveTemplate.Proofs.Shifting
import LiveTemplate.Proofs.Tending

/-! Documents that several instances share. Each instance tends nodes of its own and the children of
the node that hosts its content, and what it has is what it would have in a document of its own. -/

namespace LiveTemplate

namespace Document

def Made (document : Document) (base : Nat) (id : NodeId) : Prop :=
  base ≤ id.index ∧ document.Has id

def Covers (alone : Document) (base : Nat) (image : NodeId → NodeId) (id : NodeId) : Prop :=
  ∃ own, alone.Made base own ∧ image own = id

def seat (image : NodeId → NodeId) (fragment host home : NodeId) : NodeId :=
  if home = fragment then host else image home

/-- A shared document has the nodes that one instance made when it was alone, under other numbers.
What is below the fragment alone stands below a host, perhaps between other nodes. -/
structure Embedded (alone shared : Document) (base : Nat) (image : NodeId → NodeId)
    (fragment host : NodeId) : Prop where
  root : alone.Made base fragment
  inner : ∀ id child : NodeId, base ≤ id.index → child ∈ alone.children id → base ≤ child.index
  injective : ∀ id other, alone.Made base id → alone.Made base other → image id = image other →
    id = other
  has : ∀ id, alone.Made base id → shared.Has (image id)
  bound : shared.Has host
  content : ∀ id, alone.Made base id → shared.content (image id) = alone.content id
  children : ∀ id, alone.Made base id → id ≠ fragment →
    shared.children (image id) = (alone.children id).map image
  shown : (alone.children fragment).map image <:+: shared.children host
  only : ∀ id ∈ shared.children host, alone.Covers base image id →
    id ∈ (alone.children fragment).map image
  placed : host = image fragment ∧ (∀ id ∈ shared.children host, alone.Covers base image id) ∨
    ¬ alone.Covers base image host ∧ shared.children (image fragment) = []

theorem made_of_size {alone aloneNow : Document} (size : aloneNow.size = alone.size) (base : Nat) :
    aloneNow.Made base = alone.Made base := by
  funext id
  rw [Made, Made, Has, Has, size]

theorem covers_of_size {alone aloneNow : Document} (size : aloneNow.size = alone.size) (base : Nat)
    (image : NodeId → NodeId) : aloneNow.Covers base image = alone.Covers base image := by
  funext id
  rw [Covers, Covers, made_of_size size]

theorem covers_congr {alone : Document} (base : Nat) {image other : NodeId → NodeId}
    (agree : ∀ id, alone.Has id → other id = image id) :
    alone.Covers base other = alone.Covers base image := by
  funext id
  refine propext (exists_congr fun own => and_congr_right fun made => ?_)
  rw [agree own made.2]

theorem made_create_iff {alone : Document} {base : Nat} (above : base ≤ alone.size) (content : Content)
    {id : NodeId} : (alone.create content).2.Made base id ↔
      alone.Made base id ∨ id = (alone.create content).1 := by
  rw [Made, Made, has_create_iff, and_or_left]
  refine or_congr_right (and_iff_right_of_imp ?_)
  rintro rfl
  exact above

theorem covers_create_iff {alone : Document} {base : Nat} {image : NodeId → NodeId}
    (above : base ≤ alone.size) (content : Content) (new : NodeId) {id : NodeId} :
    (alone.create content).2.Covers base (Function.update image (alone.create content).1 new) id ↔
      alone.Covers base image id ∨ id = new := by
  have kept {own : NodeId} (made : alone.Made base own) :
      Function.update image (alone.create content).1 new own = image own := by
    refine Function.update_of_ne ?_ _ _
    rintro rfl
    exact Scene.not_has_create alone content made.2
  constructor
  · rintro ⟨own, made, rfl⟩
    rcases (made_create_iff above content).mp made with old | rfl
    · exact Or.inl ⟨own, old, (kept old).symm⟩
    · exact Or.inr (Function.update_self ..)
  · rintro (⟨own, made, rfl⟩ | rfl)
    · exact ⟨own, (made_create_iff above content).mpr (Or.inl made), kept made⟩
    · exact ⟨_, (made_create_iff above content).mpr (Or.inr rfl), Function.update_self ..⟩

namespace Embedded

variable {alone shared aloneNow sharedNow : Document} {base : Nat} {image : NodeId → NodeId}
  {fragment host home : NodeId} {lead trail listed : List NodeId}

theorem covers (_ : alone.Embedded shared base image fragment host) {id : NodeId}
    (made : alone.Made base id) : alone.Covers base image (image id) :=
  ⟨id, made, rfl⟩

theorem has_of_covers (embedded : alone.Embedded shared base image fragment host) {id : NodeId}
    (covered : alone.Covers base image id) : shared.Has id := by
  obtain ⟨own, made, rfl⟩ := covered
  exact embedded.has own made

theorem made_of_child (embedded : alone.Embedded shared base image fragment host)
    (wellFormed : alone.WellFormed) (made : alone.Made base home) {id : NodeId}
    (member : id ∈ alone.children home) : alone.Made base id :=
  ⟨embedded.inner home id made.1 member, wellFormed.has_child member⟩

theorem seat_ne (embedded : alone.Embedded shared base image fragment host)
    (made : alone.Made base home) {id : NodeId} (idMade : alone.Made base id) (differ : id ≠ home)
    (notRoot : id ≠ fragment) : image id ≠ seat image fragment host home := by
  rw [seat]
  split
  · rcases embedded.placed with ⟨rfl, _⟩ | ⟨uncovered, _⟩
    · exact fun same => notRoot (embedded.injective id fragment idMade embedded.root same)
    · rintro rfl
      exact uncovered (embedded.covers idMade)
  · exact fun same => differ (embedded.injective id home idMade made same)

theorem host_ne_seat (embedded : alone.Embedded shared base image fragment host)
    (made : alone.Made base home) (inner : home ≠ fragment) : host ≠ seat image fragment host home := by
  rw [seat, if_neg inner]
  rcases embedded.placed with ⟨hostEq, _⟩ | ⟨uncovered, _⟩
  · rw [hostEq]
    exact fun same => inner (embedded.injective fragment home embedded.root made same).symm
  · exact fun same => uncovered ⟨home, made, same.symm⟩

theorem root_ne_seat (embedded : alone.Embedded shared base image fragment host)
    (made : alone.Made base home) (uncovered : ¬ alone.Covers base image host) :
    image fragment ≠ seat image fragment host home := by
  rw [seat]
  split
  · rintro rfl
    exact uncovered (embedded.covers embedded.root)
  · rename_i inner
    exact fun same => inner (embedded.injective fragment home embedded.root made same).symm

theorem has_seat (embedded : alone.Embedded shared base image fragment host)
    (made : alone.Made base home) : shared.Has (seat image fragment host home) := by
  rw [seat]
  split
  · exact embedded.bound
  · exact embedded.has home made

/-- The children of a node of the instance, between those that were there before. -/
theorem exists_beside (embedded : alone.Embedded shared base image fragment host)
    (wellFormed : shared.WellFormed) (made : alone.Made base home) :
    ∃ lead trail, shared.children (seat image fragment host home) =
        lead ++ (alone.children home).map image ++ trail ∧
      (∀ id ∈ lead ++ trail, ¬ alone.Covers base image id) ∧
      (home ≠ fragment → lead = [] ∧ trail = []) := by
  rw [seat]
  split
  · rename_i same
    subst same
    obtain ⟨lead, trail, split⟩ := embedded.shown
    have unique := wellFormed.unique host
    rw [← split, List.nodup_append'] at unique
    obtain ⟨beforeUnique, _, apartTrail⟩ := unique
    refine ⟨lead, trail, split.symm, fun id member covered => ?_, fun differ => (differ rfl).elim⟩
    have inside := embedded.only id (by
      rw [← split]
      simp only [List.mem_append] at member ⊢
      tauto) covered
    rcases List.mem_append.mp member with left | right
    · exact (List.nodup_append'.mp beforeUnique).2.2 left inside
    · exact apartTrail (List.mem_append_right _ inside) right
  · rename_i differ
    refine ⟨[], [], ?_, by simp, fun _ => ⟨rfl, rfl⟩⟩
    rw [embedded.children home made differ, List.nil_append, List.append_nil]

/-- What the instance shows below its host is what is its own there. -/
theorem filter_children (embedded : alone.Embedded shared base image fragment host)
    (wellFormed : alone.WellFormed) (sharedWellFormed : shared.WellFormed) (own : NodeId → Bool)
    (known : ∀ id, own id = true ↔ alone.Covers base image id) :
    (shared.children host).filter own = (alone.children fragment).map image := by
  obtain ⟨lead, trail, children, beside, _⟩ := embedded.exists_beside sharedWellFormed embedded.root
  rw [seat, if_pos rfl] at children
  have gone (ids : List NodeId) (inside : ∀ id ∈ ids, id ∈ lead ++ trail) : ids.filter own = [] :=
    List.filter_eq_nil_iff.mpr fun id member yes => beside id (inside id member) ((known id).mp yes)
  have kept : ((alone.children fragment).map image).filter own = (alone.children fragment).map image := by
    refine List.filter_eq_self.mpr fun id member => (known id).mpr ?_
    obtain ⟨child, inside, rfl⟩ := List.mem_map.mp member
    exact embedded.covers (embedded.made_of_child wellFormed embedded.root inside)
  rw [children, List.filter_append, List.filter_append, kept,
    gone lead fun id member => List.mem_append_left _ member,
    gone trail fun id member => List.mem_append_right _ member, List.nil_append, List.append_nil]

theorem congr (embedded : alone.Embedded shared base image fragment host) {other : NodeId → NodeId}
    (agree : ∀ id, alone.Has id → other id = image id) (wellFormed : alone.WellFormed) :
    alone.Embedded shared base other fragment host := by
  have covers := covers_congr base agree
  have below (id : NodeId) : (alone.children id).map other = (alone.children id).map image :=
    List.map_congr_left fun child member => agree child (wellFormed.has_child member)
  refine {
    root := embedded.root
    inner := embedded.inner
    injective := ?_
    has := fun id made => (agree id made.2).symm ▸ embedded.has id made
    bound := embedded.bound
    content := fun id made => (agree id made.2).symm ▸ embedded.content id made
    children := ?_
    shown := below fragment ▸ embedded.shown
    only := ?_
    placed := ?_
  }
  · intro first second firstMade secondMade same
    rw [agree first firstMade.2, agree second secondMade.2] at same
    exact embedded.injective first second firstMade secondMade same
  · intro id made differ
    rw [agree id made.2, below]
    exact embedded.children id made differ
  · intro id member covered
    rw [below]
    exact embedded.only id member (covers ▸ covered)
  · rw [covers, agree fragment embedded.root.2]
    exact embedded.placed

theorem setContent (embedded : alone.Embedded shared base image fragment host) {id : NodeId}
    (made : alone.Made base id) (content : Content) :
    (alone.setContent id content).Embedded (shared.setContent (image id) content) base image fragment
      host := by
  have same := made_of_size (size_setContent alone id content) base
  have covers := covers_of_size (size_setContent alone id content) base image
  refine {
    root := same ▸ embedded.root
    inner := ?_
    injective := same ▸ embedded.injective
    has := ?_
    bound := ?_
    content := ?_
    children := ?_
    shown := ?_
    only := ?_
    placed := ?_
  }
  · intro other child above member
    rw [children_setContent] at member
    exact embedded.inner other child above member
  · intro other otherMade
    rw [Has, size_setContent]
    exact embedded.has other (same ▸ otherMade)
  · rw [Has, size_setContent]
    exact embedded.bound
  · intro other otherMade
    rw [same] at otherMade
    rw [content_setContent made.2, content_setContent (embedded.has id made)]
    by_cases equal : other = id
    · rw [if_pos equal, if_pos (congrArg image equal)]
    · rw [if_neg equal, if_neg fun imageEq => equal (embedded.injective other id otherMade made imageEq)]
      exact embedded.content other otherMade
  · intro other otherMade differ
    rw [children_setContent, children_setContent]
    exact embedded.children other (same ▸ otherMade) differ
  · rw [children_setContent, children_setContent]
    exact embedded.shown
  · intro other member covered
    rw [children_setContent] at member ⊢
    exact embedded.only other member (covers ▸ covered)
  · rw [children_setContent, children_setContent, covers]
    exact embedded.placed

/-- A new node gets the number that it gets in the shared document as its image. -/
theorem create (embedded : alone.Embedded shared base image fragment host)
    (wellFormed : alone.WellFormed) (sharedWellFormed : shared.WellFormed) (content : Content) :
    let added := Function.update image (alone.create content).1 (shared.create content).1
    (alone.create content).2.Embedded (shared.create content).2 base added fragment host ∧
      (∀ id, (alone.create content).2.Covers base added id ↔
        alone.Covers base image id ∨ id = (shared.create content).1) ∧
      ∀ id, alone.Has id → added id = image id := by
  intro added
  have above : base ≤ alone.size := embedded.root.1.trans (Nat.le_of_lt embedded.root.2)
  have made {id : NodeId} : (alone.create content).2.Made base id ↔
      alone.Made base id ∨ id = (alone.create content).1 :=
    made_create_iff above content
  have covers (id : NodeId) : (alone.create content).2.Covers base added id ↔
      alone.Covers base image id ∨ id = (shared.create content).1 :=
    covers_create_iff above content _
  have kept (id : NodeId) (has : alone.Has id) : added id = image id := by
    refine Function.update_of_ne ?_ _ _
    rintro rfl
    exact Scene.not_has_create alone content has
  have new : added (alone.create content).1 = (shared.create content).1 := Function.update_self ..
  have fresh {id : NodeId} (has : shared.Has id) : id ≠ (shared.create content).1 := by
    rintro rfl
    exact Scene.not_has_create shared content has
  have below (id : NodeId) : (alone.children id).map added = (alone.children id).map image :=
    List.map_congr_left fun child member => kept child (wellFormed.has_child member)
  refine ⟨{
    root := made.mpr (Or.inl embedded.root)
    inner := ?_
    injective := ?_
    has := ?_
    bound := (extends_create shared content).has embedded.bound
    content := ?_
    children := ?_
    shown := ?_
    only := ?_
    placed := ?_
  }, covers, kept⟩
  · intro id child above member
    rw [children_create] at member
    exact embedded.inner id child above member
  · intro id other idMade otherMade same
    rcases made.mp idMade with old | rfl <;> rcases made.mp otherMade with otherOld | rfl
    · rw [kept id old.2, kept other otherOld.2] at same
      exact embedded.injective id other old otherOld same
    · rw [kept id old.2, new] at same
      exact (fresh (embedded.has id old) same).elim
    · rw [kept other otherOld.2, new] at same
      exact (fresh (embedded.has other otherOld) same.symm).elim
    · rfl
  · intro id idMade
    rcases made.mp idMade with old | rfl
    · rw [kept id old.2]
      exact (extends_create shared content).has (embedded.has id old)
    · rw [new]
      exact Scene.has_create shared content
  · intro id idMade
    rcases made.mp idMade with old | rfl
    · rw [kept id old.2, (extends_create shared content).content_eq (embedded.has id old),
        (extends_create alone content).content_eq old.2]
      exact embedded.content id old
    · rw [new, content_create, if_pos rfl, content_create, if_pos rfl]
  · intro id idMade differ
    rw [children_create, children_create]
    rcases made.mp idMade with old | rfl
    · rw [kept id old.2, below]
      exact embedded.children id old differ
    · rw [new, Document.children, Document.children, node_created, node_created]
      rfl
  · rw [children_create, children_create, below]
    exact embedded.shown
  · intro id member covered
    rw [children_create] at member
    rw [children_create, below]
    rcases (covers id).mp covered with old | rfl
    · exact embedded.only id member old
    · exact (fresh (sharedWellFormed.has_child member) rfl).elim
  · rw [children_create, children_create, kept fragment embedded.root.2]
    refine embedded.placed.imp (And.imp_right fun all id member => (covers id).mpr (Or.inl (all id member)))
      (And.imp_left fun uncovered covered => ?_)
    rcases (covers host).mp covered with old | same
    · exact uncovered old
    · exact fresh embedded.bound same

theorem regrouped (embedded : alone.Embedded shared base image fragment host)
    (wellFormed : alone.WellFormed) (sharedWellFormed : shared.WellFormed) (made : alone.Made base home)
    (children : shared.children (seat image fragment host home) =
      lead ++ (alone.children home).map image ++ trail)
    (beside : ∀ id ∈ lead ++ trail, ¬ alone.Covers base image id)
    (inside : home ≠ fragment → lead = [] ∧ trail = [])
    (listedMade : ∀ id ∈ listed, alone.Made base id)
    (origin : ∀ id ∈ listed, id ∈ alone.children home ∨
      alone.parent? id = none ∧ shared.parent? (image id) = none)
    (first : alone.Regrouped home listed aloneNow)
    (second : shared.Regrouped (seat image fragment host home) (lead ++ listed.map image ++ trail)
      sharedNow) : aloneNow.Embedded sharedNow base image fragment host := by
  have same := made_of_size first.size base
  have covers := covers_of_size first.size base image
  have filled : aloneNow.children home = listed := by rw [first.children, if_pos rfl]
  have sharedFilled : sharedNow.children (seat image fragment host home) =
      lead ++ listed.map image ++ trail := by rw [second.children, if_pos rfl]
  have elsewhere {id : NodeId} (differ : id ≠ home) : aloneNow.children id = alone.children id :=
    first.children_of_origin wellFormed differ fun child member => (origin child member).imp_right And.left
  have sharedElsewhere {id : NodeId} (differ : id ≠ seat image fragment host home) :
      sharedNow.children id = shared.children id := by
    refine second.children_of_origin sharedWellFormed differ fun child member => ?_
    rw [children]
    simp only [List.mem_append] at member ⊢
    rcases member with (left | inside) | right
    · exact Or.inl (Or.inl (Or.inl left))
    · obtain ⟨own, ownListed, rfl⟩ := List.mem_map.mp inside
      exact (origin own ownListed).imp (fun old => Or.inl (Or.inr (List.mem_map_of_mem old))) And.right
    · exact Or.inl (Or.inr right)
  -- The children of the host change only if it is the content of the instance that is regrouped.
  have hostFilled (root : home = fragment) :
      sharedNow.children host = lead ++ listed.map image ++ trail := by
    rwa [seat, if_pos root] at sharedFilled
  have hostKept (inner : home ≠ fragment) : sharedNow.children host = shared.children host :=
    sharedElsewhere (embedded.host_ne_seat made inner)
  refine {
    root := same ▸ embedded.root
    inner := ?_
    injective := same ▸ embedded.injective
    has := fun id idMade => (second.has_iff _).mpr (embedded.has id (same ▸ idMade))
    bound := (second.has_iff _).mpr embedded.bound
    content := ?_
    children := ?_
    shown := ?_
    only := ?_
    placed := ?_
  }
  · intro id child above member
    by_cases equal : id = home
    · subst equal
      rw [filled] at member
      exact (listedMade child member).1
    · rw [elsewhere equal] at member
      exact embedded.inner id child above member
  · intro id idMade
    rw [second.content, first.content]
    exact embedded.content id (same ▸ idMade)
  · intro id idMade notRoot
    rw [same] at idMade
    by_cases equal : id = home
    · subst equal
      obtain ⟨rfl, rfl⟩ := inside notRoot
      rw [seat, if_neg notRoot, List.nil_append, List.append_nil] at sharedFilled
      rw [sharedFilled, filled]
    · rw [elsewhere equal, sharedElsewhere (embedded.seat_ne made idMade equal notRoot)]
      exact embedded.children id idMade notRoot
  · by_cases root : home = fragment
    · rw [hostFilled root, ← root, filled]
      exact ⟨lead, trail, rfl⟩
    · rw [hostKept root, elsewhere (Ne.symm root)]
      exact embedded.shown
  · intro id member covered
    rw [covers] at covered
    by_cases root : home = fragment
    · rw [hostFilled root, List.mem_append, List.mem_append] at member
      rw [← root, filled]
      exact (member.resolve_right fun right => beside id (List.mem_append_right _ right) covered).resolve_left
        fun left => beside id (List.mem_append_left _ left) covered
    · rw [hostKept root] at member
      rw [elsewhere (Ne.symm root)]
      exact embedded.only id member covered
  · rw [covers]
    refine embedded.placed.imp (And.imp_right fun all id member => ?_)
      fun ⟨uncovered, empty⟩ => ⟨uncovered, ?_⟩
    · by_cases root : home = fragment
      · rw [hostFilled root, List.mem_append, List.mem_append] at member
        rw [seat, if_pos root] at children
        rcases member with (left | inside) | right
        · exact all id (by simp [children, left])
        · obtain ⟨own, ownListed, rfl⟩ := List.mem_map.mp inside
          exact embedded.covers (listedMade own ownListed)
        · exact all id (by simp [children, right])
      · exact all id (hostKept root ▸ member)
    · rw [sharedElsewhere (embedded.root_ne_seat made uncovered), empty]

theorem tended_of_regrouped (embedded : alone.Embedded shared base image fragment host)
    (wellFormed : alone.WellFormed) (sharedWellFormed : shared.WellFormed) (made : alone.Made base home)
    (children : shared.children (seat image fragment host home) =
      lead ++ (alone.children home).map image ++ trail)
    (listedMade : ∀ id ∈ listed, alone.Made base id)
    (origin : ∀ id ∈ listed, id ∈ alone.children home ∨
      alone.parent? id = none ∧ shared.parent? (image id) = none)
    (nonempty : seat image fragment host home = host → alone.children home ≠ [])
    (second : shared.Regrouped (seat image fragment host home) (lead ++ listed.map image ++ trail)
      sharedNow) :
    sharedNow.Tended shared (alone.Covers base image) (alone.Covers base image) host ∧
      sharedNow.Spaced shared (alone.Covers base image) host := by
  have covered (ids : List NodeId) (known : ∀ id ∈ ids, alone.Made base id) :
      ∀ id ∈ ids.map image, alone.Covers base image id := by
    intro id member
    obtain ⟨own, inside, rfl⟩ := List.mem_map.mp member
    exact embedded.covers (known own inside)
  refine second.tended sharedWellFormed children
    (covered _ fun id member => embedded.made_of_child wellFormed made member)
    (covered _ listedMade) ?_ (fun same empty => (nonempty same (List.map_eq_nil_iff.mp empty)).elim) ?_
  · intro id member
    obtain ⟨own, inside, rfl⟩ := List.mem_map.mp member
    exact (origin own inside).imp (List.mem_map_of_mem ·) And.right
  · by_cases same : seat image fragment host home = host
    · exact Or.inl same
    · refine Or.inr ⟨?_, same⟩
      have inner : home ≠ fragment := fun root => same (if_pos root)
      rw [seat, if_neg inner]
      exact embedded.covers made

theorem of_tended (embedded : alone.Embedded shared base image fragment host)
    {own later : NodeId → Prop} {other : NodeId} (tended : sharedNow.Tended shared own later other)
    (apart : ∀ id, alone.Covers base image id → ¬ own id) (outside : ¬ alone.Covers base image other)
    (foreign : ¬ own host)
    (shown : host = other → (alone.children fragment).map image <:+: sharedNow.children host) :
    alone.Embedded sharedNow base image fragment host := by
  have same {id : NodeId} (covered : alone.Covers base image id) :
      sharedNow.children id = shared.children id := by
    refine tended.children id (embedded.has_of_covers covered) (apart id covered) ?_
    rintro rfl
    exact outside covered
  have hostKept (differ : host ≠ other) : sharedNow.children host = shared.children host :=
    tended.children host embedded.bound foreign differ
  have older {id : NodeId} (member : id ∈ sharedNow.children host)
      (covered : alone.Covers base image id) : id ∈ shared.children host := by
    by_cases equal : host = other
    · subst equal
      exact tended.mem_children member fun known =>
        apart id covered (tended.own_of_owned (embedded.has_of_covers covered) known)
    · rwa [hostKept equal] at member
  refine ⟨embedded.root, embedded.inner, embedded.injective,
    fun id made => tended.kinds.has (embedded.has id made), tended.kinds.has embedded.bound, ?_, ?_, ?_,
    fun id member covered => embedded.only id (older member covered) covered, ?_⟩
  · intro id made
    have covered := embedded.covers made
    rw [tended.content _ (embedded.has id made) (apart _ covered)]
    exact embedded.content id made
  · intro id made differ
    rw [same (embedded.covers made)]
    exact embedded.children id made differ
  · by_cases equal : host = other
    · exact shown equal
    · rw [hostKept equal]
      exact embedded.shown
  · rcases embedded.placed with ⟨hostEq, all⟩ | ⟨uncovered, empty⟩
    · refine Or.inl ⟨hostEq, fun id member => all id ?_⟩
      have covered : alone.Covers base image host := hostEq ▸ embedded.covers embedded.root
      rwa [same covered] at member
    · exact Or.inr ⟨uncovered, (same (embedded.covers embedded.root)).trans empty⟩

theorem mounted (embedded : alone.Embedded shared base image fragment (image fragment)) {board : NodeId}
    (mounted : shared.Mounted sharedNow (image fragment) board lead trail) (bound : shared.Has board)
    (uncovered : ¬ alone.Covers base image board)
    (beside : ∀ id ∈ shared.children board, ¬ alone.Covers base image id) :
    alone.Embedded sharedNow base image fragment board := by
  have around : ∀ id ∈ lead ++ trail, ¬ alone.Covers base image id := by
    rw [← mounted.around]
    exact beside
  refine ⟨embedded.root, embedded.inner, embedded.injective,
    fun id made => (mounted.has_iff _).mpr (embedded.has id made), (mounted.has_iff _).mpr bound,
    fun id made => (mounted.content _).trans (embedded.content id made), ?_, ?_, ?_,
    Or.inr ⟨uncovered, mounted.empty⟩⟩
  · intro id made differ
    rw [mounted.elsewhere]
    · exact embedded.children id made differ
    · rintro rfl
      exact uncovered (embedded.covers made)
    · exact fun same => differ (embedded.injective id fragment made embedded.root same)
  · rw [mounted.shown]
    exact embedded.shown.trans ⟨lead, trail, rfl⟩
  · intro id member covered
    rw [mounted.shown, List.mem_append, List.mem_append] at member
    rcases member with (left | inside) | right
    · exact (around id (by simp [left]) covered).elim
    · exact embedded.only id inside covered
    · exact (around id (by simp [right]) covered).elim

theorem tree_eq (embedded : alone.Embedded shared base image fragment host)
    (wellFormed : alone.WellFormed) (sharedWellFormed : shared.WellFormed)
    (topmost : alone.parent? fragment = none) {id : NodeId} (member : id ∈ alone.children fragment) :
    shared.tree (image id) = alone.tree id := by
  -- No node on the way is the fragment, whose children alone have another parent.
  have layouts (limit : Nat) : ∀ id, alone.Made base id → id ≠ fragment →
      (shared.layoutUpTo limit (image id)).map shared.content =
        (alone.layoutUpTo limit id).map alone.content := by
    induction limit with
    | zero =>
        intro id made _
        rw [layoutUpTo, layoutUpTo, Tree.map, Tree.map, embedded.content id made]
        rfl
    | succ limit ih =>
        intro id made differ
        rw [layoutUpTo, layoutUpTo, Tree.map, Tree.map, embedded.content id made,
          embedded.children id made differ, Tree.mapForest_eq_map, Tree.mapForest_eq_map, List.map_map,
          List.map_map, List.map_map]
        congr 1
        refine List.map_congr_left fun child inside => ih child
          (embedded.made_of_child wellFormed made inside) ?_
        rintro rfl
        rw [wellFormed.linked, topmost] at inside
        cases inside
  have differ : id ≠ fragment := by
    rintro rfl
    rw [wellFormed.linked, topmost] at member
    cases member
  have trees := layouts (max alone.size shared.size) id
    (embedded.made_of_child wellFormed embedded.root member) differ
  rwa [wellFormed.layoutUpTo_eq (Nat.le_max_left ..),
    sharedWellFormed.layoutUpTo_eq (Nat.le_max_right ..)] at trees

end Embedded

end Document

end LiveTemplate
