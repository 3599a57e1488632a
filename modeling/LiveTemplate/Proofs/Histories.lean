import LiveTemplate.Proofs.Runs

/-! Every history of operations keeps a document coherent, and all walks through its trees end. -/

namespace LiveTemplate.Document

variable {document result : Document}

inductive Step (document : Document) : Document → Prop
  | edit {edit : Edit} : document.Allows edit → Step document (document.edit edit)
  | assemble {tag : String} {attributes : List (String × String)} {children : List NodeId} :
      (∀ child ∈ children, document.Has child) →
      Step document (document.assemble tag attributes children).2

def Leads (document : Document) : Document → Prop :=
  Relation.ReflTransGen Step document

structure Coherent (document : Document) : Prop where
  valid : ∀ parent child, child ∈ document.children parent ∨ document.parent? child = some parent →
    document.Has parent ∧ document.Has child
  once : ∀ parent child, (document.children parent).count child =
    if document.parent? child = some parent then 1 else 0
  acyclic : ∀ id, ¬ Relation.TransGen document.IsParent id id
  fragments : ∀ id, document.kind id = .fragment → document.parent? id = none
  names : ∀ id, Attribute.Distinct (document.content id).attributes

structure Walkable (document : Document) : Prop where
  upward : WellFounded fun parent child => document.parent? child = some parent
  downward : WellFounded fun child parent => child ∈ document.children parent
  lineage : ∀ id, document.lineage id =
    match document.parent? id with
    | none => [id]
    | some parent => id :: document.lineage parent
  path : ∀ id, document.path id =
    match document.parent? id with
    | none => []
    | some parent => document.path parent ++ [(document.children parent).idxOf id]
  text : ∀ id, document.text id =
    match document.content id with
    | .text data | .comment data => data
    | .doctype _ => ""
    | _ => String.join
      (((document.children id).filter fun child => document.kind child ≠ .comment).map document.text)
  markup : ∀ id, (document.outerMarkup id).toList =
    Markup.writeOpening (document.content id) ++
      if Markup.showsChildren (document.content id) then
        (document.children id).flatMap (fun child => (document.outerMarkup child).toList) ++
          Markup.writeClosing (document.content id)
      else []
  copy : ∀ id, (document.clone id true).2.tree (document.clone id true).1 =
    .node (document.content id) ((document.children id).map document.tree)

theorem textOfAll_map_tree (document : Document) (children : List NodeId) :
    Markup.textOfAll (children.map document.tree) =
      String.join ((children.filter fun child => document.kind child ≠ .comment).map document.text) := by
  induction children with
  | nil => rfl
  | cons child rest ih =>
      rw [List.map_cons, Markup.textOfAll, label_tree, ih]
      by_cases comment : document.kind child = .comment
      · have label : (document.content child).kind = .comment := comment
        simp [comment, label]
      · have label : (document.content child).kind ≠ .comment := comment
        simp [comment, label, text]

theorem writeAll_map_tree (document : Document) (children : List NodeId) :
    Markup.writeAll (children.map document.tree) =
      children.flatMap fun child => (document.outerMarkup child).toList := by
  induction children with
  | nil => rfl
  | cons child rest ih => rw [List.map_cons, Markup.writeAll, ih, List.flatMap_cons, outerMarkup,
      String.toList_ofList]

namespace WellFormed

theorem coherent (wellFormed : document.WellFormed) : document.Coherent where
  valid := by
    intro parent child linked
    have linked : document.parent? child = some parent :=
      linked.elim (wellFormed.linked parent child).mp id
    exact ⟨wellFormed.has_parent linked, has_of_parent? linked⟩
  once := by
    intro parent child
    rw [(wellFormed.unique parent).count]
    simp only [wellFormed.linked]
  acyclic := fun id => wellFormed.founded.transGen.irrefl.irrefl id
  fragments := wellFormed.fragments
  names := wellFormed.names

theorem lineage_eq (wellFormed : document.WellFormed) (id : NodeId) : document.lineage id =
    match document.parent? id with
    | none => [id]
    | some parent => id :: document.lineage parent := by
  cases linked : document.parent? id with
  | none => exact (Ascends.top linked).lineage_eq wellFormed
  | some parent =>
      obtain ⟨chain, ascends⟩ := wellFormed.exists_ascends parent
      dsimp only
      rw [ascends.lineage_eq wellFormed]
      exact (Ascends.step linked ascends).lineage_eq wellFormed

theorem path_eq (wellFormed : document.WellFormed) (id : NodeId) : document.path id =
    match document.parent? id with
    | none => []
    | some parent => document.path parent ++ [(document.children parent).idxOf id] := by
  cases linked : document.parent? id with
  | none =>
      rw [path, (Ascends.top linked).lineage_eq wellFormed]
      rfl
  | some parent => exact wellFormed.path_of_parent? linked

theorem text_eq (wellFormed : document.WellFormed) (id : NodeId) : document.text id =
    match document.content id with
    | .text data | .comment data => data
    | .doctype _ => ""
    | _ => String.join (((document.children id).filter fun child =>
        document.kind child ≠ .comment).map document.text) := by
  rw [text, wellFormed.tree_eq, ← textOfAll_map_tree]
  cases document.content id <;> rfl

theorem outerMarkup_eq (wellFormed : document.WellFormed) (id : NodeId) :
    (document.outerMarkup id).toList =
      Markup.writeOpening (document.content id) ++
        if Markup.showsChildren (document.content id) then
          (document.children id).flatMap (fun child => (document.outerMarkup child).toList) ++
            Markup.writeClosing (document.content id)
        else [] := by
  rw [outerMarkup, String.toList_ofList, wellFormed.tree_eq, Markup.write, writeAll_map_tree]

theorem tree_clone (wellFormed : document.WellFormed) (id : NodeId) :
    (document.clone id true).2.tree (document.clone id true).1 =
      .node (document.content id) ((document.children id).map document.tree) :=
  (tree_graft wellFormed (plantable_clone wellFormed id true)).trans (wellFormed.tree_eq id)

theorem walkable (wellFormed : document.WellFormed) : document.Walkable where
  upward := wellFormed.founded
  downward := wellFormed.downward
  lineage := wellFormed.lineage_eq
  path := wellFormed.path_eq
  text := wellFormed.text_eq
  markup := wellFormed.outerMarkup_eq
  copy := wellFormed.tree_clone

end WellFormed

theorem kept_foldl_setAttribute (wellFormed : document.WellFormed) (id : NodeId)
    (attributes : List (String × String)) :
    let named := attributes.foldl
      (fun made (name, value) => made.setAttribute id (.plain name) value) document
    named.WellFormed ∧ named.KeepsKinds document := by
  induction attributes generalizing document with
  | nil => exact ⟨wellFormed, KeepsKinds.refl document⟩
  | cons entry rest ih =>
      have allowed : document.Allows (.setAttribute id (.plain entry.1) entry.2) := trivial
      obtain ⟨formed, kept⟩ := ih (wellFormed_edit wellFormed allowed)
      exact ⟨formed, kept.trans (keepsKinds_edit wellFormed allowed)⟩

theorem kept_foldl_append (wellFormed : document.WellFormed) {id : NodeId} (bound : document.Has id)
    {children : List NodeId} (childrenBound : ∀ child ∈ children, document.Has child) :
    let filled := children.foldl (fun filled child => filled.append id child) document
    filled.WellFormed ∧ filled.KeepsKinds document := by
  induction children generalizing document with
  | nil => exact ⟨wellFormed, KeepsKinds.refl document⟩
  | cons child rest ih =>
      have allowed : document.Allows (.insert id child none) :=
        ⟨bound, childrenBound child (by simp)⟩
      have first := keepsKinds_edit wellFormed allowed
      obtain ⟨formed, kept⟩ := ih (wellFormed_edit wellFormed allowed) (first.has bound)
        fun other member => first.has (childrenBound other (by simp [member]))
      exact ⟨formed, kept.trans first⟩

theorem Step.kept (step : Step document result) (wellFormed : document.WellFormed) :
    result.WellFormed ∧ result.KeepsKinds document := by
  cases step with
  | edit allowed => exact ⟨wellFormed_edit wellFormed allowed, keepsKinds_edit wellFormed allowed⟩
  | @assemble tag attributes children bound =>
      have madeFormed := @wellFormed_create _ wellFormed (.element tag []) rfl
      have madeKept := (extends_create document (.element tag [])).keepsKinds
      have madeBound := Scene.has_create document (.element tag [])
      rw [Document.assemble]
      generalize document.create (.element tag []) = made at *
      obtain ⟨id, made⟩ := made
      obtain ⟨namedFormed, namedKept⟩ := kept_foldl_setAttribute madeFormed id attributes
      obtain ⟨filledFormed, filledKept⟩ := kept_foldl_append namedFormed (namedKept.has madeBound)
        fun child member => namedKept.has (madeKept.has (bound child member))
      exact ⟨filledFormed, filledKept.trans (namedKept.trans madeKept)⟩

theorem Leads.kept (leads : document.Leads result) (wellFormed : document.WellFormed) :
    result.WellFormed ∧ result.KeepsKinds document := by
  induction leads with
  | refl => exact ⟨wellFormed, KeepsKinds.refl document⟩
  | tail _ step ih =>
      obtain ⟨stepFormed, stepKept⟩ := step.kept ih.1
      exact ⟨stepFormed, stepKept.trans ih.2⟩

/-- Whatever is done to a new document, it stays coherent, walks through it end, and from then on no
node is lost or changes its kind. -/
theorem coherent_of_leads (leads : Document.new.Leads document) :
    document.Coherent ∧ document.Walkable ∧
      ∀ later, document.Leads later → later.KeepsKinds document := by
  have wellFormed := (leads.kept wellFormed_new).1
  exact ⟨wellFormed.coherent, wellFormed.walkable, fun later further => (further.kept wellFormed).2⟩

def copiedDocument : Document :=
  let made := (Document.new.edit (.create (.text "a"))).assemble "p" [("class", "x"), ("class", "y")] [⟨1⟩]
  (made.2.edit (.clone ⟨2⟩ true)).edit (.insert ⟨3⟩ ⟨2⟩ (some ⟨4⟩))

theorem coherent_copied :
    Document.new.Leads copiedDocument ∧ copiedDocument.Coherent ∧ copiedDocument.Walkable ∧
      ∀ later, copiedDocument.Leads later → later.KeepsKinds copiedDocument := by
  have leads : Document.new.Leads copiedDocument := by
    refine .tail (.tail (.tail (.tail .refl (@Step.edit _ (.create (.text "a")) rfl))
      (@Step.assemble _ "p" [("class", "x"), ("class", "y")] [⟨1⟩] ?_))
      (@Step.edit _ (.clone ⟨2⟩ true) ?_)) (@Step.edit _ (.insert ⟨3⟩ ⟨2⟩ (some ⟨4⟩)) ⟨?_, ?_⟩)
    · intro child member
      rw [List.mem_singleton.mp member]
      change 1 < _
      decide +kernel
    · change 2 < _
      decide +kernel
    · change 3 < _
      decide +kernel
    · change 2 < _
      decide +kernel
  exact ⟨leads, coherent_of_leads leads⟩

end LiveTemplate.Document
