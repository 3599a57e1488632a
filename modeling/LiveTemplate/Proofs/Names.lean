import LiveTemplate.Proofs.Planting

/-! Attribute lists in which no two names agree, and the contents that markup is read as. -/

namespace LiveTemplate

namespace AttributeName

theorem agrees_iff (first second : AttributeName) :
    first.agrees second = true ↔
      first.space? = second.space? ∧ first.localName = second.localName := by
  simp [agrees]

theorem agrees_refl (name : AttributeName) : name.agrees name = true := by
  rw [agrees_iff]
  exact ⟨rfl, rfl⟩

theorem agrees_comm (first second : AttributeName) :
    first.agrees second = second.agrees first := by
  rw [Bool.eq_iff_iff, agrees_iff, agrees_iff]
  exact and_congr eq_comm eq_comm

theorem agrees_trans {first second third : AttributeName} (left : first.agrees second = true)
    (right : second.agrees third = true) : first.agrees third = true := by
  rw [agrees_iff] at *
  exact ⟨left.1.trans right.1, left.2.trans right.2⟩

end AttributeName

namespace Attribute

def Distinct (entries : List Attribute) : Prop :=
  entries.Pairwise fun first second => first.name.agrees second.name = false

theorem mem_assign {name : AttributeName} {value : String} {entries : List Attribute}
    {entry : Attribute} (member : entry ∈ assign name value entries) :
    entry.name = name ∨ ∃ other ∈ entries, entry.name = other.name := by
  induction entries with
  | nil =>
      rw [assign, List.mem_singleton] at member
      exact Or.inl (by rw [member])
  | cons head rest ih =>
      rw [assign] at member
      split at member
      · rcases List.mem_cons.mp member with rfl | later
        · exact Or.inr ⟨head, by simp, rfl⟩
        · exact Or.inr ⟨entry, by simp [later], rfl⟩
      · rcases List.mem_cons.mp member with rfl | later
        · exact Or.inr ⟨entry, by simp, rfl⟩
        · rcases ih later with same | ⟨other, otherMember, same⟩
          · exact Or.inl same
          · exact Or.inr ⟨other, by simp [otherMember], same⟩

theorem distinct_assign (name : AttributeName) (value : String) {entries : List Attribute}
    (distinct : Distinct entries) : Distinct (assign name value entries) := by
  induction entries with
  | nil => exact List.pairwise_singleton _ _
  | cons head rest ih =>
      obtain ⟨apart, restDistinct⟩ := List.pairwise_cons.mp distinct
      rw [assign]
      split
      · exact List.pairwise_cons.mpr ⟨apart, restDistinct⟩
      · rename_i different
        refine List.pairwise_cons.mpr ⟨?_, ih restDistinct⟩
        intro entry member
        rcases mem_assign member with same | ⟨other, otherMember, same⟩
        · rw [same]
          exact Bool.eq_false_iff.mpr different
        · rw [same]
          exact apart other otherMember

theorem distinct_erase (name : AttributeName) {entries : List Attribute}
    (distinct : Distinct entries) : Distinct (erase entries name) :=
  List.Pairwise.filter _ distinct

end Attribute

namespace Document

variable {document : Document}

theorem wellFormed_setContent (wellFormed : document.WellFormed) (id : NodeId) {content : Content}
    (kind : content.kind = document.kind id) (distinct : Attribute.Distinct content.attributes) :
    (document.setContent id content).WellFormed := by
  by_cases bound : document.Has id
  · constructor
    · intro parent child
      rw [children_setContent, parent?_setContent]
      exact wellFormed.linked parent child
    · intro parent
      rw [children_setContent]
      exact wellFormed.unique parent
    · have same : (document.setContent id content).IsParent = document.IsParent := by
        funext parent child
        simp [IsParent]
      rw [same]
      exact wellFormed.founded
    · intro other isFragment
      rw [parent?_setContent]
      apply wellFormed.fragments
      rw [Document.kind, content_setContent bound] at isFragment
      split at isFragment
      · rename_i same
        rw [same, ← kind]
        exact isFragment
      · exact isFragment
    · intro other
      rw [content_setContent bound]
      split
      · exact distinct
      · exact wellFormed.names other
  · have outside : ¬ id.index < document.nodes.size := bound
    simpa [setContent, modify, Array.modify, Array.modifyM, outside] using wellFormed

theorem wellFormed_setData (wellFormed : document.WellFormed) (id : NodeId) (data : String) :
    (document.setData id data).WellFormed := by
  apply wellFormed_setContent wellFormed
  · rw [kind]
    cases document.content id <;> rfl
  · have old := wellFormed.names id
    revert old
    cases document.content id <;> exact fun old => old

theorem wellFormed_setAttribute (wellFormed : document.WellFormed) (id : NodeId)
    (name : AttributeName) (value : String) : (document.setAttribute id name value).WellFormed := by
  apply wellFormed_setContent wellFormed
  · rw [kind]
    cases document.content id <;> rfl
  · have old := wellFormed.names id
    revert old
    cases document.content id with
    | element tag entries => exact fun old => Attribute.distinct_assign name value old
    | _ => exact fun old => old

theorem wellFormed_removeAttribute (wellFormed : document.WellFormed) (id : NodeId)
    (name : AttributeName) : (document.removeAttribute id name).WellFormed := by
  apply wellFormed_setContent wellFormed
  · rw [kind]
    cases document.content id <;> rfl
  · have old := wellFormed.names id
    revert old
    cases document.content id with
    | element tag entries => exact fun old => Attribute.distinct_erase name old
    | _ => exact fun old => old

end Document

namespace Markup

def Readable (content : Content) : Prop :=
  content.kind ≠ .fragment ∧ content.kind ≠ .document ∧ Attribute.Distinct content.attributes

theorem distinct_collect (entries : List Attribute) : Attribute.Distinct (collect entries) := by
  have growing : ∀ kept, Attribute.Distinct kept → Attribute.Distinct
      (entries.foldl (fun kept entry => Attribute.assign entry.name entry.value kept) kept) := by
    induction entries with
    | nil => exact fun kept distinct => distinct
    | cons entry rest ih =>
        exact fun kept distinct => ih _ (Attribute.distinct_assign entry.name entry.value distinct)
  exact growing [] List.Pairwise.nil

theorem readable_comment {text rest : List Char} {tree : Tree Content}
    (read : comment? text = some (tree, rest)) : ∀ content ∈ tree.preorder, Readable content := by
  simp only [comment?, Option.bind_eq_some_iff, Option.map_eq_some_iff, Prod.mk.injEq] at read
  obtain ⟨_, _, _, _, rfl, _⟩ := read
  simp [Tree.preorder, Tree.preorderForest, Readable, Content.kind, Content.attributes,
    Attribute.Distinct]

theorem readable_doctype {text rest : List Char} {tree : Tree Content}
    (read : doctype? text = some (tree, rest)) : ∀ content ∈ tree.preorder, Readable content := by
  simp only [doctype?, Option.bind_eq_some_iff] at read
  obtain ⟨_, _, read⟩ := read
  split at read
  · simp only [Option.bind_eq_some_iff, Option.map_eq_some_iff, Prod.mk.injEq] at read
    obtain ⟨_, _, _, _, _, _, rfl, _⟩ := read
    simp [Tree.preorder, Tree.preorderForest, Readable, Content.kind, Content.attributes,
      Attribute.Distinct]
  · exact absurd read (by simp)

theorem readable_text {text rest : List Char} {tree : Tree Content}
    (read : text? text = some (tree, rest)) : ∀ content ∈ tree.preorder, Readable content := by
  simp only [text?, Option.map_eq_some_iff, Prod.mk.injEq] at read
  obtain ⟨_, _, rfl, _⟩ := read
  simp [Tree.preorder, Tree.preorderForest, Readable, Content.kind, Content.attributes,
    Attribute.Distinct]

theorem openingTag?_distinct {text rest : List Char} {tag : OpeningTag}
    (read : openingTag? text = some (tag, rest)) : Attribute.Distinct tag.attributes := by
  cases text with
  | nil => simp [openingTag?] at read
  | cons c text =>
      simp only [openingTag?] at read
      split at read
      · split at read
        · simp only [Option.some.injEq, Prod.mk.injEq] at read
          rw [← read.1]
          exact distinct_collect _
        · simp only [Option.some.injEq, Prod.mk.injEq] at read
          rw [← read.1]
          exact distinct_collect _
        · exact absurd read (by simp)
      · exact absurd read (by simp)

theorem readable_element {inside : List Char → List (Tree Content) × List Char}
    (insideReadable : ∀ text, ∀ content ∈ Tree.preorderForest (inside text).1, Readable content)
    {text rest : List Char} {tree : Tree Content}
    (read : element? inside text = some (tree, rest)) :
    ∀ content ∈ tree.preorder, Readable content := by
  simp only [element?, Option.bind_eq_some_iff] at read
  obtain ⟨_, _, ⟨tag, after⟩, opened, read⟩ := read
  have head (name : String) : Readable (.element name tag.attributes) :=
    ⟨by simp [Content.kind], by simp [Content.kind], openingTag?_distinct opened⟩
  simp only at read
  split at read
  · simp only [Option.some.injEq, Prod.mk.injEq] at read
    obtain ⟨rfl, _⟩ := read
    intro content member
    have same := List.mem_singleton.mp member
    exact same ▸ head _
  · simp only [Option.map_eq_some_iff, Prod.mk.injEq] at read
    obtain ⟨_, _, rfl, _⟩ := read
    intro content member
    rcases List.mem_cons.mp member with rfl | below
    · exact head _
    · exact insideReadable after content below

theorem readable_nodes (limit : Nat) (text : List Char) :
    ∀ content ∈ Tree.preorderForest (nodes limit text).1, Readable content := by
  induction limit generalizing text with
  | zero => simp [nodes, Tree.preorderForest]
  | succ limit ih =>
      rw [nodes]
      split
      · simp [Tree.preorderForest]
      · rename_i tree rest read
        have first : ∀ content ∈ tree.preorder, Readable content := by
          simp only [node?, Option.orElse_eq_orElse, Option.orElse_eq_or, Option.or_eq_some_iff] at read
          rcases read with comment | ⟨_, doctype | ⟨_, element | ⟨_, run⟩⟩⟩
          · exact readable_comment comment
          · exact readable_doctype doctype
          · exact readable_element ih element
          · exact readable_text run
        intro content member
        rcases List.mem_append.mp member with here | later
        · exact first content here
        · exact ih rest content later

theorem nodes_of_read? {text : List Char} {trees : List (Tree Content)}
    (read : read? text = some trees) : nodes text.length text = (trees, []) := by
  rw [read?] at read
  split at read
  · rename_i found
    cases read
    exact found
  · cases read

theorem plantable_read {text : List Char} {trees : List (Tree Content)}
    (read : read? text = some trees) : Document.Plantable (.node .fragment trees) := by
  have readable := readable_nodes text.length text
  rw [nodes_of_read? read] at readable
  constructor
  · intro content member
    rcases List.mem_cons.mp member with rfl | below
    · exact List.Pairwise.nil
    · exact (readable content below).2.2
  · exact fun content member => (readable content member).1

end Markup

end LiveTemplate
