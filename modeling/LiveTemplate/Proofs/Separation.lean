import LiveTemplate.Proofs.Histories

/-! Operations on the nodes of a set that no link leaves: whatever they do to these nodes and to new
ones, all other nodes stay as they are. -/

namespace LiveTemplate

/-- The nodes that an edit is about. A reference only names a place among the children of the
parent, and a place that is not there is the end. -/
def Edit.arguments : Edit → List NodeId
  | .create _ | .read _ => []
  | .insert parent id _ => [parent, id]
  | .clone id _ | .remove id | .setData id _ | .setAttribute id _ _ | .removeAttribute id _ => [id]

namespace Document

inductive StepWithin (mine : NodeId → Prop) (document : Document) : Document → Prop
  | edit {edit : Edit} : document.Allows edit → (∀ id ∈ edit.arguments, mine id) →
      StepWithin mine document (document.edit edit)
  | assemble {tag : String} {attributes : List (String × String)} {children : List NodeId} :
      (∀ child ∈ children, document.Has child) → (∀ child ∈ children, mine child) →
      StepWithin mine document (document.assemble tag attributes children).2

def LeadsWithin (mine : NodeId → Prop) : Document → Document → Prop :=
  Relation.ReflTransGen (StepWithin mine)

structure Secludes (document : Document) (mine : NodeId → Prop) : Prop where
  linked : ∀ parent child, document.parent? child = some parent → (mine parent ↔ mine child)
  fresh : ∀ id, ¬ document.Has id → mine id

structure SparesOutside (mine : NodeId → Prop) (document result : Document) : Prop where
  wellFormed : result.WellFormed
  secludes : result.Secludes mine
  kinds : result.KeepsKinds document
  same : ∀ id, ¬ mine id → result.node id = document.node id

variable {document result : Document} {mine : NodeId → Prop}

theorem Secludes.has (secludes : document.Secludes mine) {id : NodeId} (outside : ¬ mine id) :
    document.Has id :=
  by_contra fun missing => outside (secludes.fresh id missing)

theorem Extends.has_iff_of_linked (extended : result.Extends document)
    (wellFormed : document.WellFormed) (resultWellFormed : result.WellFormed) {parent child : NodeId}
    (linked : result.parent? child = some parent) : document.Has parent ↔ document.Has child := by
  constructor
  · intro old
    have member := (resultWellFormed.linked parent child).mpr linked
    rw [extended.children_eq old] at member
    exact wellFormed.has_child member
  · intro old
    rw [extended.parent?_eq old] at linked
    exact wellFormed.has_parent linked

namespace SparesOutside

theorem refl (wellFormed : document.WellFormed) (secludes : document.Secludes mine) :
    SparesOutside mine document document :=
  ⟨wellFormed, secludes, KeepsKinds.refl document, fun _ _ => rfl⟩

theorem trans {middle : Document} (first : SparesOutside mine document middle)
    (second : SparesOutside mine middle result) : SparesOutside mine document result where
  wellFormed := second.wellFormed
  secludes := second.secludes
  kinds := second.kinds.trans first.kinds
  same := fun id outside => (second.same id outside).trans (first.same id outside)

theorem of_extends (extended : result.Extends document) (wellFormed : document.WellFormed)
    (resultWellFormed : result.WellFormed) (secludes : document.Secludes mine) :
    SparesOutside mine document result where
  wellFormed := resultWellFormed
  secludes := by
    constructor
    · intro parent child linked
      have both := extended.has_iff_of_linked wellFormed resultWellFormed linked
      by_cases old : document.Has child
      · rw [extended.parent?_eq old] at linked
        exact secludes.linked parent child linked
      · exact iff_of_true (secludes.fresh parent (mt both.mp old)) (secludes.fresh child old)
    · exact fun id missing => secludes.fresh id (mt extended.has missing)
  kinds := extended.keepsKinds
  same := fun id outside => extended.node_eq id (secludes.has outside)

theorem of_regrouped (wellFormed : document.WellFormed) (secludes : document.Secludes mine)
    {parent : NodeId} {listed : List NodeId} (regrouped : document.Regrouped parent listed result)
    (resultWellFormed : result.WellFormed) (parentMine : mine parent)
    (listedMine : ∀ id ∈ listed, mine id) : SparesOutside mine document result where
  wellFormed := resultWellFormed
  secludes := by
    constructor
    · intro upper child linked
      rw [regrouped.parent?] at linked
      split at linked
      · rename_i member
        rw [← Option.some.inj linked]
        exact iff_of_true parentMine (listedMine child member)
      · split at linked
        · cases linked
        · exact secludes.linked upper child linked
    · exact fun id missing => secludes.fresh id (mt (regrouped.has_iff id).mpr missing)
  kinds := ⟨(regrouped.has_iff _).mpr, fun _ => regrouped.kind_eq _⟩
  same := by
    intro id outside
    have unlisted : id ∉ listed := fun member => outside (listedMine id member)
    have apart : id ≠ parent := fun same => outside (same ▸ parentMine)
    have unlinked : document.parent? id ≠ some parent :=
      fun linked => outside ((secludes.linked parent id linked).mp parentMine)
    apply node_eq_of_seen (regrouped.content id)
    · rw [regrouped.parent?, if_neg unlisted, if_neg unlinked]
    · refine regrouped.children_eq wellFormed apart fun child member linked => outside ?_
      exact (secludes.linked id child linked).mpr (listedMine child member)

theorem of_setContent (secludes : document.Secludes mine) {id : NodeId} {content : Content}
    (resultWellFormed : (document.setContent id content).WellFormed)
    (kinds : (document.setContent id content).KeepsKinds document) (member : mine id) :
    SparesOutside mine document (document.setContent id content) where
  wellFormed := resultWellFormed
  secludes := by
    constructor
    · intro parent child linked
      rw [parent?_setContent] at linked
      exact secludes.linked parent child linked
    · intro other missing
      exact secludes.fresh other (mt kinds.has missing)
  kinds := kinds
  same := by
    intro other outside
    have apart : other ≠ id := fun same => outside (same ▸ member)
    exact node_eq_of_seen (content_setContent_of_ne document apart content)
      (parent?_setContent ..) (children_setContent ..)

theorem of_edit (wellFormed : document.WellFormed) (secludes : document.Secludes mine) {edit : Edit}
    (allowed : document.Allows edit) (within : ∀ id ∈ edit.arguments, mine id) :
    SparesOutside mine document (document.edit edit) := by
  have formed := wellFormed_edit wellFormed allowed
  have kinds := keepsKinds_edit wellFormed allowed
  cases edit with
  | create content => exact of_extends (extends_create document content) wellFormed formed secludes
  | read markup =>
      simp only [Document.edit] at formed ⊢
      split at formed
      · rename_i fragment result read
        obtain ⟨trees, _, _, rfl⟩ := Scene.Prepares.exists_graft read
        exact of_extends (extends_graft document _) wellFormed formed secludes
      · exact refl wellFormed secludes
  | clone id deep => exact of_extends (extends_graft document _) wellFormed formed secludes
  | insert parent id reference? =>
      have parentMine := within parent (by simp [Edit.arguments])
      have idMine := within id (by simp [Edit.arguments])
      by_cases above : document.IsAbove id parent
      · rw [Document.edit, insertBefore_of_isAbove wellFormed above]
        exact refl wellFormed secludes
      · refine of_regrouped wellFormed secludes
          (insertBefore_regrouped wellFormed allowed.1 allowed.2 above reference?) formed parentMine ?_
        -- Siblings and the children of a fragment are linked to a node of the set, so they are in it.
        intro child member
        rcases mem_place.mp member with carried | sibling
        · rw [Document.carried] at carried
          split at carried
          · exact (secludes.linked id child ((wellFormed.linked id child).mp carried)).mp idMine
          · exact List.mem_singleton.mp carried ▸ idMine
        · exact (secludes.linked parent child ((wellFormed.linked parent child).mp sibling)).mp
            parentMine
  | remove id =>
      cases linked : document.parent? id with
      | none =>
          rw [Document.edit, detach, linked]
          exact refl wellFormed secludes
      | some parent =>
          have parentMine := (secludes.linked parent id linked).mpr
            (within id (by simp [Edit.arguments]))
          refine of_regrouped wellFormed secludes (detach_regrouped wellFormed linked) formed
            parentMine ?_
          intro child member
          exact (secludes.linked parent child ((wellFormed.linked parent child).mp
            (List.mem_filter.mp member).1)).mp parentMine
  | setData id _ | setAttribute id _ _ | removeAttribute id _ =>
      exact of_setContent secludes formed kinds (within id (by simp [Edit.arguments]))

theorem then_edit (first : SparesOutside mine document result) {edit : Edit}
    (allowed : result.Allows edit) (within : ∀ id ∈ edit.arguments, mine id) :
    SparesOutside mine document (result.edit edit) :=
  first.trans (of_edit first.wellFormed first.secludes allowed within)

theorem foldl_setAttribute (first : SparesOutside mine document result) {id : NodeId}
    (member : mine id) (attributes : List (String × String)) :
    SparesOutside mine document (attributes.foldl
      (fun made (name, value) => made.setAttribute id (.plain name) value) result) := by
  induction attributes generalizing result with
  | nil => exact first
  | cons entry rest ih =>
      have allowed : result.Allows (.setAttribute id (.plain entry.1) entry.2) := trivial
      exact ih (first.then_edit allowed (by simpa [Edit.arguments] using member))

theorem foldl_append (first : SparesOutside mine document result) {id : NodeId} (bound : result.Has id)
    (member : mine id) {children : List NodeId} (childrenBound : ∀ child ∈ children, result.Has child)
    (within : ∀ child ∈ children, mine child) :
    SparesOutside mine document
      (children.foldl (fun filled child => filled.append id child) result) := by
  induction children generalizing result with
  | nil => exact first
  | cons child rest ih =>
      have allowed : result.Allows (.insert id child none) := ⟨bound, childrenBound child (by simp)⟩
      have kinds := keepsKinds_edit first.wellFormed allowed
      refine ih (first.then_edit allowed ?_) (kinds.has bound)
        (fun other later => kinds.has (childrenBound other (List.mem_cons_of_mem _ later)))
        (fun other later => within other (List.mem_cons_of_mem _ later))
      simpa [Edit.arguments] using And.intro member (within child (by simp))

end SparesOutside

theorem StepWithin.sparesOutside (step : StepWithin mine document result)
    (wellFormed : document.WellFormed) (secludes : document.Secludes mine) :
    SparesOutside mine document result := by
  cases step with
  | edit allowed within => exact .of_edit wellFormed secludes allowed within
  | @assemble tag attributes children bound within =>
      -- The new element is a node that was still to come.
      have fresh : mine (document.create (.element tag [])).1 :=
        secludes.fresh _ (Nat.lt_irrefl _)
      have extended := extends_create document (.element tag [])
      have made : SparesOutside mine document (document.create (.element tag [])).2 :=
        .of_extends extended wellFormed (wellFormed_create wellFormed rfl) secludes
      have named := made.foldl_setAttribute fresh attributes
      have kinds := (kept_foldl_setAttribute made.wellFormed (document.create (.element tag [])).1
        attributes).2
      exact named.foldl_append (kinds.has (Scene.has_create document _)) fresh
        (fun child member => kinds.has (extended.has (bound child member))) within

/-- Operations that are given nodes of a secluded set leave all other nodes as they are. -/
theorem LeadsWithin.sparesOutside (leads : LeadsWithin mine document result)
    (wellFormed : document.WellFormed) (secludes : document.Secludes mine) :
    SparesOutside mine document result := by
  induction leads with
  | refl => exact .refl wellFormed secludes
  | tail _ step ih => exact ih.trans (step.sparesOutside ih.wellFormed ih.secludes)

end Document

end LiveTemplate
