import LiveTemplate.Proofs.Mounting

/-! Steps that tend some nodes of a document and the place that these have below a host, and that leave
all other nodes as they were. -/

namespace LiveTemplate

section
variable {α : Type} {block lead middle trail : List α}

theorem infix_of_notMem {first : α} (apart : first ∉ block) (inside : block <:+: lead ++ first :: trail) :
    block <:+: lead ∨ block <:+: trail := by
  rcases List.infix_append_iff.mp inside with before | behind | ⟨left, right, rfl, ends, starts⟩
  · exact Or.inl before
  · rcases List.infix_cons_iff.mp behind with starts | later
    · rcases List.prefix_cons_iff.mp starts with rfl | ⟨rest, rfl, _⟩
      · exact Or.inl List.nil_infix
      · exact (apart (List.mem_cons_self ..)).elim
    · exact Or.inr later
  · rcases List.prefix_cons_iff.mp starts with rfl | ⟨rest, rfl, _⟩
    · exact Or.inl (by rw [List.append_nil]; exact ends.isInfix)
    · exact (apart (List.mem_append_right _ (List.mem_cons_self ..))).elim

theorem infix_of_disjoint (apart : ∀ item ∈ block, item ∉ middle) (nonempty : middle ≠ [])
    (inside : block <:+: lead ++ middle ++ trail) : block <:+: lead ∨ block <:+: trail := by
  induction middle generalizing lead with
  | nil => exact (nonempty rfl).elim
  | cons first rest ih =>
      rw [List.append_assoc, List.cons_append] at inside
      have outside : first ∉ block := fun member => apart first member (List.mem_cons_self ..)
      rcases infix_of_notMem outside inside with before | behind
      · exact Or.inl before
      · by_cases last : rest = []
        · subst last
          exact Or.inr behind
        · rcases @ih [] (fun item member later => apart item member (List.mem_cons_of_mem _ later)) last
            behind with nothing | after
          · exact Or.inl (List.infix_nil.mp nothing ▸ List.nil_infix)
          · exact Or.inr after

theorem infix_of_beside (beside : block <:+: lead ∨ block <:+: trail) :
    block <:+: lead ++ middle ++ trail := by
  rcases beside with before | behind
  · exact before.trans (by rw [List.append_assoc]; exact List.infix_append' [] _ _)
  · exact behind.trans ⟨_, [], List.append_nil _⟩

theorem infix_exchange {other : List α} (apart : ∀ item ∈ block, item ∉ middle)
    (nonempty : middle = [] → other = []) (inside : block <:+: lead ++ middle ++ trail) :
    block <:+: lead ++ other ++ trail := by
  by_cases nothing : middle = []
  · rwa [nonempty nothing, ← nothing]
  · exact infix_of_beside (infix_of_disjoint apart nothing inside)

/-- A run of neighbours that a new item is put beside, not into. -/
theorem infix_of_boundary (unique : (lead ++ trail).Nodup)
    (boundary : ∀ first, trail.head? = some first → first ∈ block → block.head? = some first)
    (inside : block <:+: lead ++ trail) : block <:+: lead ∨ block <:+: trail := by
  rcases List.infix_append_iff.mp inside with before | behind | ⟨left, right, rfl, ends, starts⟩
  · exact Or.inl before
  · exact Or.inr behind
  · obtain ⟨rest, rfl⟩ := starts
    cases right with
    | nil => exact Or.inl (by rw [List.append_nil]; exact ends.isInfix)
    | cons first right =>
        have foremost := boundary first rfl (List.mem_append_right _ (List.mem_cons_self ..))
        cases left with
        | nil => exact Or.inr ⟨[], rest, rfl⟩
        | cons other left =>
            obtain rfl := Option.some.inj foremost
            have inLead := ends.subset (List.mem_cons_self ..)
            exact ((List.nodup_append'.mp unique).2.2 inLead (List.mem_cons_self ..)).elim

end

namespace Document

/-- What one step leaves as it was: the nodes that are not its own, but for the children of their
host, which keep their order. The nodes that it makes are its own from then on. -/
structure Tended (result document : Document) (own later : NodeId → Prop) (host : NodeId) : Prop where
  kinds : result.KeepsKinds document
  owned : ∀ id, later id ↔ own id ∨ ¬ document.Has id ∧ result.Has id
  content : ∀ id, document.Has id → ¬ own id → result.content id = document.content id
  parent? : ∀ id, document.Has id → ¬ own id → result.parent? id = document.parent? id
  children : ∀ id, document.Has id → ¬ own id → id ≠ host → result.children id = document.children id
  kept : ∀ stays : NodeId → Bool, (∀ id, later id → stays id = false) →
    (result.children host).filter stays = (document.children host).filter stays

def Spaced (result document : Document) (own : NodeId → Prop) (host : NodeId) : Prop :=
  ∀ ids, ids <:+: document.children host → (∀ id ∈ ids, ¬ own id) → ids <:+: result.children host

section
variable {document middle result : Document} {own later last : NodeId → Prop} {host : NodeId}

theorem Tended.refl (document : Document) (own : NodeId → Prop) (host : NodeId) :
    document.Tended document own own host where
  kinds := .refl _
  owned := fun _ => ⟨Or.inl, fun known => known.resolve_right fun made => made.1 made.2⟩
  content := fun _ _ _ => rfl
  parent? := fun _ _ _ => rfl
  children := fun _ _ _ _ => rfl
  kept := fun _ _ => rfl

theorem Tended.own_of_owned (tended : result.Tended document own later host) {id : NodeId}
    (has : document.Has id) (known : later id) : own id :=
  ((tended.owned id).mp known).resolve_right fun made => made.1 has

theorem Tended.mem_children (tended : result.Tended document own later host) {id : NodeId}
    (member : id ∈ result.children host) (foreign : ¬ later id) : id ∈ document.children host := by
  classical
  have kept := tended.kept (fun id => decide (¬ later id)) fun id known => by simp [known]
  have stays : id ∈ (result.children host).filter fun id => decide (¬ later id) :=
    List.mem_filter.mpr ⟨member, decide_eq_true foreign⟩
  rw [kept] at stays
  exact (List.mem_filter.mp stays).1

theorem Tended.trans (second : result.Tended middle later last host)
    (first : middle.Tended document own later host) : result.Tended document own last host where
  kinds := second.kinds.trans first.kinds
  owned := by
    intro id
    rw [second.owned, first.owned, or_assoc]
    refine or_congr_right ⟨?_, ?_⟩
    · rintro (⟨missing, has⟩ | ⟨missing, has⟩)
      · exact ⟨missing, second.kinds.has has⟩
      · exact ⟨fun old => missing (first.kinds.has old), has⟩
    · rintro ⟨missing, has⟩
      by_cases made : middle.Has id
      · exact Or.inl ⟨missing, made⟩
      · exact Or.inr ⟨made, has⟩
  content := fun id has foreign => (second.content id (first.kinds.has has)
    fun known => foreign (first.own_of_owned has known)).trans (first.content id has foreign)
  parent? := fun id has foreign => (second.parent? id (first.kinds.has has)
    fun known => foreign (first.own_of_owned has known)).trans (first.parent? id has foreign)
  children := fun id has foreign apart => (second.children id (first.kinds.has has)
    (fun known => foreign (first.own_of_owned has known)) apart).trans
      (first.children id has foreign apart)
  kept := fun stays none => (second.kept stays none).trans
    (first.kept stays fun id known => none id ((second.owned id).mpr (Or.inl known)))

theorem Spaced.trans (wellFormed : document.WellFormed) (second : result.Spaced middle later host)
    (first : middle.Spaced document own host) (tended : middle.Tended document own later host) :
    result.Spaced document own host := by
  intro ids inside foreign
  refine second ids (first ids inside foreign) fun id member known => foreign id member ?_
  exact tended.own_of_owned (wellFormed.has_child (inside.subset member)) known

theorem tended_setContent (host : NodeId) {id : NodeId} (known : own id) {content : Content}
    (kind : content.kind = document.kind id) :
    (document.setContent id content).Tended document own own host ∧
      (document.setContent id content).Spaced document own host := by
  refine ⟨⟨keepsKinds_setContent kind, ?_, ?_, ?_, ?_, ?_⟩, ?_⟩
  · intro other
    rw [Has, Has, size_setContent]
    tauto
  · intro other _ foreign
    refine content_setContent_of_ne _ ?_ _
    rintro rfl
    exact foreign known
  · exact fun other _ _ => parent?_setContent _ _ _ _
  · exact fun other _ _ _ => children_setContent _ _ _ _
  · exact fun stays _ => by rw [children_setContent]
  · exact fun ids inside _ => by rwa [children_setContent]

theorem tended_create (document : Document) (own : NodeId → Prop) (host : NodeId) (content : Content) :
    (document.create content).2.Tended document own
        (fun id => own id ∨ id = (document.create content).1) host ∧
      (document.create content).2.Spaced document own host := by
  have extended := extends_create document content
  refine ⟨⟨extended.keepsKinds, ?_, fun _ has _ => extended.content_eq has,
    fun _ has _ => extended.parent?_eq has, fun _ has _ _ => extended.children_eq has, ?_⟩, ?_⟩
  · intro id
    refine or_congr_right ⟨?_, ?_⟩
    · rintro rfl
      exact ⟨Scene.not_has_create _ _, Scene.has_create _ _⟩
    · rintro ⟨missing, has⟩
      exact ((has_create_iff document content).mp has).resolve_left missing
  · exact fun stays _ => by rw [children_create]
  · exact fun ids inside _ => by rwa [children_create]

/-- Own nodes give way to others under the host or under another own node. -/
theorem Regrouped.tended {parent : NodeId} {lead trail former listed : List NodeId}
    (regrouped : document.Regrouped parent (lead ++ listed ++ trail) result)
    (wellFormed : document.WellFormed) (children : document.children parent = lead ++ former ++ trail)
    (formerOwn : ∀ id ∈ former, own id) (listedOwn : ∀ id ∈ listed, own id)
    (origin : ∀ id ∈ listed, id ∈ former ∨ document.parent? id = none)
    (nonempty : parent = host → former = [] → listed = [])
    (under : parent = host ∨ own parent ∧ parent ≠ host) :
    result.Tended document own own host ∧ result.Spaced document own host := by
  have beside {id : NodeId} (member : id ∈ lead ∨ id ∈ former ∨ id ∈ trail) :
      document.parent? id = some parent := by
    rw [← wellFormed.linked, children, List.mem_append, List.mem_append]
    tauto
  -- What is listed stood under the parent before or nowhere.
  have elsewhere {id : NodeId} (differ : id ≠ parent) : result.children id = document.children id := by
    refine regrouped.children_of_origin wellFormed differ fun child member => ?_
    have inside := origin child
    rw [List.mem_append, List.mem_append] at member
    rw [children, List.mem_append, List.mem_append]
    tauto
  have filled : result.children parent = lead ++ listed ++ trail := by
    rw [regrouped.children, if_pos rfl]
  refine ⟨⟨regrouped.keepsKinds, ?_, fun id _ _ => regrouped.content id, ?_, ?_, ?_⟩, ?_⟩
  · intro id
    rw [regrouped.has_iff]
    tauto
  · intro id _ foreign
    rw [regrouped.parent?]
    split
    · rename_i member
      rw [List.mem_append, List.mem_append] at member
      rcases member with (left | inside) | right
      · exact (beside (Or.inl left)).symm
      · exact (foreign (listedOwn id inside)).elim
      · exact (beside (Or.inr (Or.inr right))).symm
    · rename_i unlisted
      split
      · rename_i linked
        rw [← wellFormed.linked, children, List.mem_append, List.mem_append] at linked
        rw [List.mem_append, List.mem_append] at unlisted
        have inside : id ∈ former := by tauto
        exact (foreign (formerOwn id inside)).elim
      · rfl
  · intro id _ foreign apart
    refine elsewhere ?_
    rintro rfl
    rcases under with same | ⟨inner, _⟩
    · exact apart same
    · exact foreign inner
  · intro stays none
    by_cases same : parent = host
    · subst same
      have gone (ids : List NodeId) (all : ∀ id ∈ ids, own id) : ids.filter stays = [] :=
        List.filter_eq_nil_iff.mpr fun id member => by simp [none id (all id member)]
      rw [filled, children, List.filter_append, List.filter_append, List.filter_append,
        List.filter_append, gone former formerOwn, gone listed listedOwn]
    · rw [elsewhere (Ne.symm same)]
  · intro ids inside foreign
    by_cases same : parent = host
    · subst same
      rw [children] at inside
      rw [filled]
      exact infix_exchange (fun id member old => foreign id member (formerOwn id old)) (nonempty rfl)
        inside
    · rwa [elsewhere (Ne.symm same)]

theorem Mounted.tended {fragment : NodeId} {lead trail : List NodeId}
    (mounted : document.Mounted result fragment host lead trail) (wellFormed : document.WellFormed)
    (resultWellFormed : result.WellFormed) (root : own fragment)
    (shown : ∀ id ∈ document.children fragment, own id) : result.Tended document own own host := by
  refine ⟨⟨(mounted.has_iff _).mpr, fun {id} _ => congrArg Content.kind (mounted.content id)⟩, ?_,
    fun id _ _ => mounted.content id, ?_, ?_, ?_⟩
  · intro id
    rw [mounted.has_iff]
    tauto
  · intro id _ foreign
    have apart : id ∉ document.children fragment := fun member => foreign (shown id member)
    refine Option.ext fun parent => ?_
    rw [← wellFormed.linked, ← resultWellFormed.linked]
    by_cases same : parent = host
    · rw [same, mounted.shown, mounted.around]
      simp [apart]
    · by_cases inside : parent = fragment
      · rw [inside, mounted.empty]
        simp [apart]
      · rw [mounted.elsewhere parent same inside]
  · intro id _ foreign differ
    refine mounted.elsewhere id differ ?_
    rintro rfl
    exact foreign root
  · intro stays none
    have gone : (document.children fragment).filter stays = [] :=
      List.filter_eq_nil_iff.mpr fun id member => by simp [none id (shown id member)]
    rw [mounted.shown, mounted.around, List.filter_append, List.filter_append, List.filter_append, gone,
      List.append_nil]

end

end Document

end LiveTemplate
