import LiveTemplate.Proofs.WellFormed
import Mathlib.Data.List.Nodup
import Mathlib.Data.List.Perm.Subperm

/-! Lineages in well-formed documents: the bounded walk to the top is the whole chain of ancestors,
and tree order among siblings is their order in the list of children. -/

namespace LiveTemplate.Document

inductive Ascends (document : Document) : NodeId → List NodeId → Prop
  | top {id} : document.parent? id = none → Ascends document id [id]
  | step {id parent rest} : document.parent? id = some parent → Ascends document parent rest →
      Ascends document id (id :: rest)

namespace Ascends

variable {document : Document} {id : NodeId} {chain : List NodeId}

theorem head (ascends : document.Ascends id chain) : ∃ rest, chain = id :: rest := by
  cases ascends with
  | top _ => exact ⟨[], rfl⟩
  | step _ _ => exact ⟨_, rfl⟩

theorem mem_iff (ascends : document.Ascends id chain) (other : NodeId) :
    other ∈ chain ↔ document.IsAbove other id := by
  induction ascends with
  | top none =>
      simp only [List.mem_singleton]
      constructor
      · rintro rfl
        exact Relation.ReflTransGen.refl
      · intro above
        rcases Relation.ReflTransGen.cases_tail above with same | ⟨parent, _, linked⟩
        · exact same.symm
        · have linked : document.parent? _ = some parent := linked
          simp [none] at linked
  | @step id parent rest linked _ ih =>
      rw [List.mem_cons, ih]
      constructor
      · rintro (rfl | above)
        · exact Relation.ReflTransGen.refl
        · exact Relation.ReflTransGen.tail above linked
      · intro above
        rcases Relation.ReflTransGen.cases_tail above with same | ⟨upper, upperAbove, upperLinked⟩
        · exact Or.inl same.symm
        · have upperLinked : document.parent? id = some upper := upperLinked
          rw [linked, Option.some.injEq] at upperLinked
          exact Or.inr (upperLinked ▸ upperAbove)

theorem nodup (ascends : document.Ascends id chain) (wellFormed : document.WellFormed) :
    chain.Nodup := by
  induction ascends with
  | top _ => simp
  | step linked later ih =>
      refine List.nodup_cons.mpr ⟨?_, ih⟩
      rw [later.mem_iff]
      intro above
      exact wellFormed.ne_of_isAbove_parent linked above rfl

theorem has_of_mem (ascends : document.Ascends id chain) (wellFormed : document.WellFormed)
    (bound : document.Has id) : ∀ other ∈ chain, document.Has other := by
  induction ascends with
  | top _ => simpa using bound
  | step linked _ ih =>
      intro other member
      rcases List.mem_cons.mp member with rfl | later
      · exact bound
      · exact ih (wellFormed.has_parent linked) other later

theorem length_le_size (ascends : document.Ascends id chain) (wellFormed : document.WellFormed)
    (bound : document.Has id) : chain.length ≤ document.size := by
  have unique : (chain.map NodeId.index).Nodup := by
    refine (ascends.nodup wellFormed).map ?_
    rintro ⟨first⟩ ⟨second⟩ same
    exact congrArg NodeId.mk same
  have subset : chain.map NodeId.index ⊆ List.range document.size := by
    intro index member
    obtain ⟨other, chained, rfl⟩ := List.mem_map.mp member
    exact List.mem_range.mpr (ascends.has_of_mem wellFormed bound other chained)
  have length := (unique.subperm subset).length_le
  simpa using length

theorem length_le (ascends : document.Ascends id chain) (wellFormed : document.WellFormed) :
    chain.length ≤ document.size + 1 := by
  by_cases bound : document.Has id
  · exact Nat.le_succ_of_le (ascends.length_le_size wellFormed bound)
  · cases ascends with
    | top _ => simp
    | step linked _ => exact absurd (has_of_parent? linked) bound

theorem lineageUpTo_eq (ascends : document.Ascends id chain) (limit : Nat)
    (enough : chain.length ≤ limit + 1) : document.lineageUpTo limit id = chain := by
  induction ascends generalizing limit with
  | top none => cases limit <;> simp [lineageUpTo, none]
  | step linked later ih =>
      obtain ⟨rest, rfl⟩ := later.head
      cases limit with
      | zero => simp at enough
      | succ limit =>
          simp only [lineageUpTo, linked]
          rw [ih limit (by simp at enough ⊢; omega)]

theorem lineage_eq (ascends : document.Ascends id chain) (wellFormed : document.WellFormed) :
    document.lineage id = chain :=
  ascends.lineageUpTo_eq document.size (ascends.length_le wellFormed)

end Ascends

theorem WellFormed.exists_ascends {document : Document} (wellFormed : document.WellFormed)
    (id : NodeId) : ∃ chain, document.Ascends id chain := by
  induction id using wellFormed.founded.induction with
  | _ id ih =>
      cases linked : document.parent? id with
      | none => exact ⟨[id], Ascends.top linked⟩
      | some parent =>
          obtain ⟨chain, ascends⟩ := ih parent linked
          exact ⟨id :: chain, Ascends.step linked ascends⟩

namespace WellFormed

variable {document : Document}

theorem isInclusiveAncestor_iff (wellFormed : document.WellFormed) (ancestor id : NodeId) :
    document.isInclusiveAncestor ancestor id = true ↔ document.IsAbove ancestor id := by
  obtain ⟨chain, ascends⟩ := wellFormed.exists_ascends id
  rw [isInclusiveAncestor, ascends.lineage_eq wellFormed, List.contains_iff_mem, ascends.mem_iff]

theorem top_of_parent? (wellFormed : document.WellFormed) {parent id : NodeId}
    (linked : document.parent? id = some parent) : document.top id = document.top parent := by
  obtain ⟨chain, ascends⟩ := wellFormed.exists_ascends parent
  obtain ⟨rest, rfl⟩ := ascends.head
  rw [top, top, ascends.lineage_eq wellFormed, (Ascends.step linked ascends).lineage_eq wellFormed]
  simp [List.getLast?_cons]

theorem path_of_parent? (wellFormed : document.WellFormed) {parent id : NodeId}
    (linked : document.parent? id = some parent) :
    document.path id = document.path parent ++ [(document.children parent).idxOf id] := by
  obtain ⟨chain, ascends⟩ := wellFormed.exists_ascends parent
  obtain ⟨rest, rfl⟩ := ascends.head
  rw [path, path, ascends.lineage_eq wellFormed, (Ascends.step linked ascends).lineage_eq wellFormed]
  rfl

/-- Among siblings, tree order is the order of the list of children. -/
theorem precedes_siblings_iff (wellFormed : document.WellFormed) {parent first second : NodeId}
    (firstLinked : document.parent? first = some parent)
    (secondLinked : document.parent? second = some parent) :
    document.precedes first second = true ↔
      (document.children parent).idxOf first < (document.children parent).idxOf second := by
  rw [precedes, wellFormed.top_of_parent? firstLinked, wellFormed.top_of_parent? secondLinked,
    wellFormed.path_of_parent? firstLinked, wellFormed.path_of_parent? secondLinked]
  simp only [beq_self_eq_true, Bool.true_and, decide_eq_true_eq]
  induction document.path parent with
  | nil => simp [List.cons_lt_cons_iff]
  | cons place rest ih => simpa using ih

end WellFormed

structure KeepsLinks (result document : Document) : Prop where
  size_le : document.size ≤ result.size
  parent?_eq : ∀ id, document.Has id → result.parent? id = document.parent? id
  children_eq : ∀ id, document.Has id → result.children id = document.children id

namespace KeepsLinks

variable {document result : Document} {id : NodeId}

theorem has (kept : result.KeepsLinks document) (bound : document.Has id) : result.Has id :=
  Nat.lt_of_lt_of_le bound kept.size_le

theorem ascends (kept : result.KeepsLinks document) (wellFormed : document.WellFormed)
    (bound : document.Has id) {chain : List NodeId} (ascends : document.Ascends id chain) :
    result.Ascends id chain := by
  induction ascends with
  | top none => exact Ascends.top ((kept.parent?_eq _ bound).trans none)
  | step linked _ ih =>
      exact Ascends.step ((kept.parent?_eq _ bound).trans linked)
        (ih (wellFormed.has_parent linked))

theorem lineage_eq (kept : result.KeepsLinks document) (wellFormed : document.WellFormed)
    (resultWellFormed : result.WellFormed) (bound : document.Has id) :
    result.lineage id = document.lineage id := by
  obtain ⟨chain, ascends⟩ := wellFormed.exists_ascends id
  rw [ascends.lineage_eq wellFormed,
    (kept.ascends wellFormed bound ascends).lineage_eq resultWellFormed]

theorem placesOf_eq (kept : result.KeepsLinks document) {chain : List NodeId}
    (bound : ∀ id ∈ chain, document.Has id) : result.placesOf chain = document.placesOf chain := by
  induction chain with
  | nil => rfl
  | cons id rest ih =>
      cases rest with
      | nil => rfl
      | cons parent rest =>
          have restBound : ∀ other ∈ parent :: rest, document.Has other :=
            fun other member => bound other (List.mem_cons_of_mem _ member)
          rw [placesOf, placesOf, ih restBound, kept.children_eq _ (restBound parent (by simp))]

theorem precedes_eq (kept : result.KeepsLinks document) (wellFormed : document.WellFormed)
    (resultWellFormed : result.WellFormed) {first second : NodeId}
    (firstBound : document.Has first) (secondBound : document.Has second) :
    result.precedes first second = document.precedes first second := by
  have path_eq (id : NodeId) (bound : document.Has id) : result.path id = document.path id := by
    obtain ⟨chain, ascends⟩ := wellFormed.exists_ascends id
    rw [path, path, kept.lineage_eq wellFormed resultWellFormed bound]
    refine kept.placesOf_eq ?_
    rw [ascends.lineage_eq wellFormed]
    exact ascends.has_of_mem wellFormed bound
  rw [precedes, precedes, top, top, top, top, path_eq first firstBound, path_eq second secondBound,
    kept.lineage_eq wellFormed resultWellFormed firstBound,
    kept.lineage_eq wellFormed resultWellFormed secondBound]

theorem siblings_eq (kept : result.KeepsLinks document) (wellFormed : document.WellFormed)
    (bound : document.Has id) : result.siblings id = document.siblings id := by
  rw [siblings, siblings, kept.parent?_eq id bound]
  cases linked : document.parent? id with
  | none => rfl
  | some parent => exact kept.children_eq parent (wellFormed.has_parent linked)

theorem isAbove_iff (kept : result.KeepsLinks document) (wellFormed : document.WellFormed)
    (bound : document.Has id) (other : NodeId) :
    result.IsAbove other id ↔ document.IsAbove other id := by
  obtain ⟨chain, ascends⟩ := wellFormed.exists_ascends id
  rw [← ascends.mem_iff, ← (kept.ascends wellFormed bound ascends).mem_iff]

end KeepsLinks

structure Extends (result document : Document) : Prop where
  size_le : document.size ≤ result.size
  node_eq : ∀ id, document.Has id → result.node id = document.node id

namespace Extends

variable {document result : Document} {id : NodeId}

theorem refl (document : Document) : document.Extends document :=
  ⟨Nat.le_refl _, fun _ _ => rfl⟩

theorem has (extended : result.Extends document) (bound : document.Has id) : result.Has id :=
  Nat.lt_of_lt_of_le bound extended.size_le

theorem trans {middle : Document} (second : result.Extends middle)
    (first : middle.Extends document) : result.Extends document where
  size_le := Nat.le_trans first.size_le second.size_le
  node_eq := fun id bound => (second.node_eq id (first.has bound)).trans (first.node_eq id bound)

theorem content_eq (extended : result.Extends document) (bound : document.Has id) :
    result.content id = document.content id := by
  rw [content, content, extended.node_eq id bound]

theorem kind_eq (extended : result.Extends document) (bound : document.Has id) :
    result.kind id = document.kind id := by
  rw [kind, kind, extended.content_eq bound]

theorem parent?_eq (extended : result.Extends document) (bound : document.Has id) :
    result.parent? id = document.parent? id := by
  rw [parent?, parent?, extended.node_eq id bound]

theorem children_eq (extended : result.Extends document) (bound : document.Has id) :
    result.children id = document.children id := by
  rw [children, children, extended.node_eq id bound]

theorem keepsLinks (extended : result.Extends document) : result.KeepsLinks document :=
  ⟨extended.size_le, fun _ bound => extended.parent?_eq bound,
    fun _ bound => extended.children_eq bound⟩

end Extends

theorem keepsLinks_setContent (document : Document) (id : NodeId) (content : Content) :
    (document.setContent id content).KeepsLinks document :=
  ⟨by simp, fun other _ => by simp, fun other _ => by simp⟩

end LiveTemplate.Document
