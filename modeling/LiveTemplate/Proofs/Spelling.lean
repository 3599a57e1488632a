import LiveTemplate.Proofs.Derivations

/-! Markup is read only as trees that markup can say again, and so are its trees with the tags, names
and values that were read. -/

namespace LiveTemplate.Markup

theorem toLower_cases (c : Char) : c.toLower = c ∨ c.toLower.isLower = true ∧ c.isUpper = true := by
  unfold Char.toLower
  split
  · rename_i inside
    have lower := inside.1
    have upper := inside.2
    refine Or.inr ⟨Bool.and_eq_true_iff.mpr ⟨decide_eq_true ?_, decide_eq_true ?_⟩, decide_eq_true inside⟩
    all_goals
      simp only [UInt32.le_iff_toNat_le, ge_iff_le] at *
      simp at *
      omega
  · exact Or.inl rfl

theorem isAlpha_of_isLower {c : Char} (lower : c.isLower = true) : c.isAlpha = true := by
  change (c.isUpper || c.isLower) = true
  rw [lower, Bool.or_true]

theorem isAlpha_toLower {c : Char} (alpha : c.isAlpha = true) : c.toLower.isAlpha = true := by
  rcases toLower_cases c with same | ⟨lower, _⟩
  · rwa [same]
  · exact isAlpha_of_isLower lower

theorem isNameChar_toLower {c : Char} (named : isNameChar c = true) : isNameChar c.toLower = true := by
  rcases toLower_cases c with same | ⟨lower, _⟩
  · rwa [same]
  · exact isNameChar_of_isAlpha (isAlpha_of_isLower lower)

theorem toLower_toLower (c : Char) : c.toLower.toLower = c.toLower := by
  rcases toLower_cases c with same | ⟨lower, _⟩
  · rw [same, same]
  · rcases toLower_cases c.toLower with same | ⟨_, upper⟩
    · exact same
    · have first := of_decide_eq_true (Bool.and_eq_true_iff.mp lower).1
      have last := (of_decide_eq_true upper).2
      simp only [UInt32.le_iff_toNat_le, ge_iff_le] at first last
      simp at first last
      omega

theorem map_toLower_toLower (name : List Char) :
    (name.map Char.toLower).map Char.toLower = name.map Char.toLower := by
  rw [List.map_map]
  exact List.map_congr_left fun c _ => toLower_toLower c

theorem isVoidElement_toLower (name : List Char) :
    isVoidElement (String.ofList (name.map Char.toLower)) = isVoidElement (String.ofList name) := by
  have same : sameTag (String.ofList (name.map Char.toLower)) = sameTag (String.ofList name) := by
    funext other
    rw [sameTag, sameTag, String.toList_ofList, String.toList_ofList, map_toLower_toLower]
  rw [isVoidElement, isVoidElement, same]

section
variable {text run rest : List Char} {member : Char → Bool}

theorem run?_inside (found : run? member text = some (run, rest)) :
    run ≠ [] ∧ ∀ c ∈ run, member c = true := by
  rw [run?] at found
  split at found
  · cases found
  · rename_i nonempty
    cases found
    exact ⟨nonempty, fun c inside => List.all_eq_true.mp (List.all_takeWhile) c inside⟩

theorem untilCommentEnd?_unended (found : untilCommentEnd? text = some (run, rest)) :
    ¬ "-->".toList <:+: run := by
  induction text generalizing run with
  | nil => cases found
  | cons c text ih =>
      have whole := untilCommentEnd?_split found
      rw [untilCommentEnd?] at found
      split at found
      · cases found
        decide
      · rename_i none
        obtain ⟨⟨body, after⟩, later, same⟩ := Option.map_eq_some_iff.mp found
        cases same
        rw [List.infix_cons_iff]
        rintro (⟨tail, front⟩ | inner)
        · rw [whole, ← front, List.append_assoc, skip?_append] at none
          cases none
        · exact ih later inner

theorem attribute?_spelled {entry : Attribute} (read : attribute? text = some (entry, rest)) :
    SpelledName entry.name := by
  simp only [attribute?, Option.map_eq_some_iff] at read
  obtain ⟨⟨name, after⟩, found, read⟩ := read
  obtain ⟨nonempty, inside⟩ := run?_inside found
  have name : SpelledName ⟨namespaceOf name, String.ofList name⟩ := by
    rw [SpelledName, String.toList_ofList]
    exact ⟨nonempty, inside, rfl⟩
  split at read <;> · cases read; exact name

theorem attributes_spelled (limit : Nat) (text : List Char) :
    ∀ entry ∈ (attributes limit text).1, SpelledName entry.name := by
  induction limit generalizing text with
  | zero => simp [attributes]
  | succ limit ih =>
      rw [attributes]
      split
      · simp
      · rename_i entry after read
        obtain ⟨_, _, found⟩ := Option.bind_eq_some_iff.mp read
        exact List.forall_mem_cons.mpr ⟨attribute?_spelled found, ih after⟩

theorem collect_spelled {entries : List Attribute} (spelled : ∀ entry ∈ entries, SpelledName entry.name) :
    ∀ entry ∈ collect entries, SpelledName entry.name := by
  have growing : ∀ kept : List Attribute, (∀ entry ∈ kept, SpelledName entry.name) →
      ∀ entry ∈ entries.foldl (fun kept entry => Attribute.assign entry.name entry.value kept) kept,
        SpelledName entry.name := by
    induction entries with
    | nil => exact fun kept known => known
    | cons first rest ih =>
        obtain ⟨firstSpelled, restSpelled⟩ := List.forall_mem_cons.mp spelled
        refine fun kept known => ih restSpelled _ fun entry inside => ?_
        rcases Attribute.mem_assign inside with same | ⟨other, otherInside, same⟩
        · exact same ▸ firstSpelled
        · exact same ▸ known other otherInside
  exact growing [] (by simp)

/-- What is read of an opening tag can be written as one, with its name in lower case. -/
theorem openingTag?_writable {tag : OpeningTag} (read : openingTag? text = some (tag, rest)) :
    Writable (.element (String.ofList (tag.name.map Char.toLower)) tag.attributes) := by
  have distinct := openingTag?_distinct read
  rw [openingTag?_eq] at read
  obtain ⟨⟨name, after⟩, found, read⟩ := Option.bind_eq_some_iff.mp read
  rw [tagName?] at found
  have named : TagName (String.ofList (name.map Char.toLower)) := by
    rw [TagName, String.toList_ofList]
    split at found
    · rename_i alpha
      cases found
      refine ⟨?_, ?_, ?_⟩
      · cases text with
        | nil => cases alpha
        | cons c text =>
            have alpha : c.isAlpha = true := alpha
            simp [isNameChar_of_isAlpha alpha, isAlpha_toLower alpha]
      · refine List.forall_mem_map.mpr fun c inside => isNameChar_toLower ?_
        exact List.all_eq_true.mp List.all_takeWhile c inside
      · exact map_toLower_toLower _
    · cases found
  have spelled := collect_spelled (attributes_spelled after.length after)
  dsimp only at read
  split at read
  · cases read
    exact ⟨named, spelled, distinct⟩
  · cases read
    exact ⟨named, spelled, distinct⟩
  · cases read

section
variable {inside : List Char → List (Tree Content) × List Char} {tree : Tree Content}

theorem comment?_expressible (read : comment? text = some (tree, rest)) : Expressible tree := by
  simp only [comment?, Option.bind_eq_some_iff, Option.map_eq_some_iff, Prod.mk.injEq] at read
  obtain ⟨_, _, ⟨body, _⟩, found, rfl, _⟩ := read
  have unended : Writable (.comment (String.ofList body)) := by
    rw [Writable, @String.toList_ofList body]
    exact untilCommentEnd?_unended found
  exact ⟨unended, fun _ => rfl, trivial⟩

theorem doctype?_expressible (read : doctype? text = some (tree, rest)) : Expressible tree := by
  simp only [doctype?, Option.bind_eq_some_iff] at read
  obtain ⟨_, _, read⟩ := read
  split at read
  · simp only [Option.bind_eq_some_iff, Option.map_eq_some_iff, Prod.mk.injEq] at read
    obtain ⟨_, _, ⟨name, _⟩, found, _, _, rfl, _⟩ := read
    have named : Writable (.doctype (String.ofList name)) := by
      rw [Writable, String.toList_ofList]
      exact run?_inside found
    exact ⟨named, fun _ => rfl, trivial⟩
  · cases read

theorem text?_expressible (read : text? text = some (tree, rest)) : Expressible tree := by
  simp only [text?, Option.map_eq_some_iff, Prod.mk.injEq] at read
  obtain ⟨_, _, rfl, _⟩ := read
  exact ⟨trivial, fun _ => rfl, trivial⟩

theorem element?_expressible (below : ∀ text, ExpressibleAll (inside text).1)
    (read : element? inside text = some (tree, rest)) : Expressible tree := by
  simp only [element?, Option.bind_eq_some_iff] at read
  obtain ⟨_, _, ⟨tag, after⟩, opened, read⟩ := read
  have writable := openingTag?_writable opened
  dsimp only at read
  split at read
  · cases read
    exact ⟨writable, fun _ => rfl, trivial⟩
  · rename_i paired
    simp only [Option.map_eq_some_iff, Prod.mk.injEq] at read
    obtain ⟨_, _, rfl, _⟩ := read
    refine ⟨writable, fun hidden => (paired ?_).elim, below after⟩
    rw [showsChildren, Bool.not_eq_false', isVoidElement_toLower] at hidden
    rw [hidden, Bool.or_true]

theorem node?_expressible (below : ∀ text, ExpressibleAll (inside text).1)
    (read : node? inside text = some (tree, rest)) : Expressible tree := by
  simp only [node?, Option.orElse_eq_orElse, Option.orElse_eq_or, Option.or_eq_some_iff] at read
  rcases read with comment | ⟨_, doctype | ⟨_, element | ⟨_, run⟩⟩⟩
  · exact comment?_expressible comment
  · exact doctype?_expressible doctype
  · exact element?_expressible below element
  · exact text?_expressible run

end

theorem expressibleAll_nodes (limit : Nat) (text : List Char) : ExpressibleAll (nodes limit text).1 := by
  induction limit generalizing text with
  | zero => trivial
  | succ limit ih =>
      rw [nodes]
      split
      · trivial
      · rename_i tree rest read
        exact ⟨node?_expressible ih read, ih rest⟩

theorem expressibleAll_read {trees : List (Tree Content)} (read : read? text = some trees) :
    ExpressibleAll trees := by
  have all := expressibleAll_nodes text.length text
  rwa [nodes_of_read? read] at all

end

end LiveTemplate.Markup
