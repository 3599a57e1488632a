import LiveTemplate.Proofs.RoundTrip
import LiveTemplate.Template.Assign
import Mathlib.Data.List.TakeWhile

/-! Texts without markup: reading one gives the text itself, and no node for the empty one. -/

namespace LiveTemplate

def IsPlain (text : String) : Prop :=
  '<' ∉ text.toList ∧ '&' ∉ text.toList

instance decidableIsPlain (text : String) : Decidable (IsPlain text) :=
  inferInstanceAs (Decidable (_ ∧ _))

theorem Markup.read?_of_isPlain {text : String} (plain : IsPlain text) :
    read? text.toList = some (if text = "" then [] else [.node (.text text) []]) := by
  by_cases empty : text = ""
  · subst empty
    rfl
  · have inside : ∀ c ∈ text.toList, (c != '<') = true := by
      intro c member
      rw [bne_iff_ne]
      rintro rfl
      exact plain.1 member
    have decoded := Reference.decode_of_notMem plain.2
    have name : String.ofList text.toList = text := String.ofList_toList
    have nonempty : text.toList ≠ [] := fun nothing => empty (String.toList_eq_nil_iff.mp nothing)
    rw [if_neg empty]
    generalize text.toList = letters at *
    cases letters with
    | nil => exact (nonempty rfl).elim
    | cons c rest =>
        have different : c ≠ '<' := bne_iff_ne.mp (inside c (List.mem_cons_self ..))
        have reads : Reads (c :: rest) [.node (.text text) []] [] := by
          refine @Reads.cons (c :: rest) [] [] [] (.node (.text text) []) (by simp) (fun limit _ => ?_)
            reads_nil
          rw [node?_text different, List.takeWhile_eq_self_iff.mpr inside,
            List.dropWhile_eq_nil_iff.mpr inside, decoded, name]
        rw [read?, reads _ (Nat.le_refl _)]

def Document.Letters (document : Document) (nodes : List NodeId) (text : String) : Prop :=
  nodes = [] ∧ text = "" ∨ ∃ id, nodes = [id] ∧ document.content id = .text text

theorem Document.letters_graft (document : Document) (text : String) :
    let trees : List (Tree Content) := if text = "" then [] else [.node (.text text) []]
    (document.graft (.node .fragment trees)).2.Letters
      ((document.graft (.node .fragment trees)).2.children (document.graft (.node .fragment trees)).1)
      text := by
  intro trees
  have stored := stores_graft document (.node .fragment trees)
  have first : (document.graft (.node .fragment trees)).1 = ⟨document.size⟩ := rfl
  rw [Stores] at stored
  obtain ⟨root, below⟩ := stored
  rw [Letters, Document.children, first, root]
  by_cases empty : text = ""
  · have none : trees = [] := if_pos empty
    rw [none]
    exact Or.inl ⟨rfl, empty⟩
  · have one : trees = [.node (.text text) []] := if_neg empty
    rw [one] at below ⊢
    exact Or.inr ⟨_, rfl, by rw [Document.content, below.1.1]⟩

theorem Document.exists_read?_of_isPlain (document : Document) {text : String} (plain : IsPlain text) :
    ∃ fragment result, document.read? text = some (fragment, result) ∧
      result.Letters (result.children fragment) text := by
  rw [Document.read?, Markup.read?_of_isPlain plain]
  exact ⟨_, _, rfl, document.letters_graft text⟩

def Json.IsPlain (state : Json) : Prop :=
  ∀ member ∈ state.members?.getD [], ∀ text ∈ member.2.shown.toList, LiveTemplate.IsPlain text

instance Json.decidableIsPlain (state : Json) : Decidable state.IsPlain :=
  inferInstanceAs (Decidable (∀ member ∈ _, _))

end LiveTemplate
