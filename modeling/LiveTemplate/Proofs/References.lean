import LiveTemplate.Markup.Reference

/-! Reading back what is written with character references. -/

namespace LiveTemplate.Reference

theorem decode_cons_of_ne {c : Char} (plain : c ≠ '&') (text : List Char) :
    decode (c :: text) = c :: decode text := by
  rw [decode, if_neg plain]

theorem decode_of_notMem {text : List Char} (plain : '&' ∉ text) : decode text = text := by
  induction text with
  | nil => rw [decode]
  | cons c rest ih =>
      rw [List.mem_cons, not_or] at plain
      rw [decode_cons_of_ne (Ne.symm plain.1), ih plain.2]

theorem decode_ne_nil {text : List Char} (nonempty : text ≠ []) : decode text ≠ [] := by
  cases text with
  | nil => contradiction
  | cons c rest =>
      rw [decode]
      split
      · split <;> exact List.cons_ne_nil _ _
      · exact List.cons_ne_nil _ _

theorem read?_semicolon {name : List Char} (closed : ';' ∉ name) (text : List Char) :
    read? (name ++ ';' :: text) = (named? name).map fun c => (c, text) := by
  have inside : ∀ letter ∈ name, (letter != ';') = true := by
    intro letter member
    rw [bne_iff_ne]
    rintro rfl
    exact closed member
  rw [read?, List.dropWhile_append_of_pos inside, List.takeWhile_append_of_pos inside]
  simp

theorem decode_of_read? {text rest : List Char} {c : Char} (found : read? text = some (c, rest)) :
    decode ('&' :: text) = c :: decode rest := by
  rw [decode, if_pos rfl]
  split <;> simp_all

theorem decode_of_not_read? {text : List Char} (missing : read? text = none) :
    decode ('&' :: text) = '&' :: decode text := by
  rw [decode, if_pos rfl]
  split <;> simp_all

theorem decode_reference {name : List Char} {c : Char} (known : named? name = some c)
    (closed : ';' ∉ name) (text : List Char) :
    decode ('&' :: name ++ ';' :: text) = c :: decode text := by
  have found : read? (name ++ ';' :: text) = some (c, text) := by
    rw [read?_semicolon closed, known, Option.map_some]
  exact decode_of_read? found

inductive Written (position : Position) : List Char → Char → Prop
  | ampersand : Written position "amp".toList '&'
  | less : Written position "lt".toList '<'
  | greater : Written position "gt".toList '>'
  | quote : position = .quoted → Written position "quot".toList '"'

section
variable {position : Position} {name text before after : List Char} {c : Char}

theorem Written.named? (written : Written position name c) : named? name = some c := by
  cases written <;> rfl

theorem Written.notMem (written : Written position name c) {other : Char}
    (plain : other.isAlpha = false) : other ∉ name := by
  have letters : name.all Char.isAlpha = true := by cases written <;> rfl
  intro inside
  rw [List.all_eq_true.mp letters other inside] at plain
  cases plain

theorem escapeChar_cases (position : Position) (c : Char) :
    (∃ name, Written position name c ∧ escapeChar position c = '&' :: name ++ [';']) ∨
    (escapeChar position c = [c] ∧ c ≠ '&' ∧ c ≠ '<' ∧ c ≠ '>' ∧ (position = .quoted → c ≠ '"')) := by
  by_cases ampersand : c = '&'
  · subst ampersand
    exact Or.inl ⟨_, .ampersand, rfl⟩
  by_cases less : c = '<'
  · subst less
    exact Or.inl ⟨_, .less, rfl⟩
  by_cases greater : c = '>'
  · subst greater
    exact Or.inl ⟨_, .greater, rfl⟩
  cases position with
  | content =>
      refine Or.inr ⟨?_, ampersand, less, greater, by rintro ⟨⟩⟩
      simp [escapeChar, ampersand, less, greater]
  | quoted =>
      by_cases quote : c = '"'
      · subst quote
        exact Or.inl ⟨_, .quote rfl, rfl⟩
      · refine Or.inr ⟨?_, ampersand, less, greater, fun _ => quote⟩
        simp [escapeChar, ampersand, less, greater, quote]

theorem decode_escapeChar (position : Position) (c : Char) (text : List Char) :
    decode (escapeChar position c ++ text) = c :: decode text := by
  rcases escapeChar_cases position c with ⟨name, written, escaped⟩ | ⟨escaped, plain, _⟩
  · rw [escaped, List.append_assoc]
    exact decode_reference written.named? (written.notMem (by decide)) text
  · rw [escaped]
    exact decode_cons_of_ne plain text

theorem escape_cons (position : Position) (c : Char) (text : List Char) :
    escape position (c :: text) = escapeChar position c ++ escape position text :=
  List.flatMap_cons

theorem decode_escape_append (position : Position) (text rest : List Char) :
    decode (escape position text ++ rest) = text ++ decode rest := by
  induction text with
  | nil => rfl
  | cons c text ih =>
      rw [escape_cons, List.append_assoc, decode_escapeChar]
      exact congrArg (c :: ·) ih

theorem decode_escape (position : Position) (text : List Char) :
    decode (escape position text) = text := by
  have whole := decode_escape_append position text []
  rwa [List.append_nil, decode, List.append_nil] at whole

theorem ne_of_mem_escape (member : c ∈ escape position text) :
    c ≠ '<' ∧ c ≠ '>' ∧ (position = .quoted → c ≠ '"') := by
  obtain ⟨original, _, member⟩ := List.mem_flatMap.mp member
  rcases escapeChar_cases position original with ⟨name, written, escaped⟩ | ⟨escaped, _, harmless⟩
  · rw [escaped, List.cons_append, List.mem_cons, List.mem_append, List.mem_singleton] at member
    have outside {other : Char} (plain : other.isAlpha = false) (apart : other ≠ '&' ∧ other ≠ ';') :
        c ≠ other := by
      rintro rfl
      rcases member with same | inside | same
      · exact apart.1 same
      · exact written.notMem plain inside
      · exact apart.2 same
    exact ⟨outside (by decide) (by decide), outside (by decide) (by decide),
      fun _ => outside (by decide) (by decide)⟩
  · rw [escaped, List.mem_singleton] at member
    rw [member]
    exact harmless

/-- An ampersand comes first in what a character is escaped by, and the name behind it is written for that
character. -/
theorem eq_nil_of_ampersand (split : escapeChar position c = before ++ '&' :: after) :
    before = [] ∧ ∃ name, Written position name c ∧ after = name ++ [';'] := by
  rcases escapeChar_cases position c with ⟨name, written, escaped⟩ | ⟨escaped, plain, _⟩
  · rw [escaped] at split
    cases before with
    | nil =>
        cases split
        exact ⟨rfl, name, written, rfl⟩
    | cons first before =>
        rw [List.cons_append, List.cons_append, List.cons.injEq] at split
        have inside : '&' ∈ name ++ [';'] := by simp [split.2]
        rcases List.mem_append.mp inside with inName | same
        · exact (written.notMem (by decide) inName).elim
        · exact absurd same (by decide)
  · have inside : '&' ∈ [c] := by simp [← escaped, split]
    exact (plain (List.mem_singleton.mp inside).symm).elim

theorem exists_written_of_ampersand (split : escape position text = before ++ '&' :: after) :
    ∃ first c last name, text = first ++ c :: last ∧ Written position name c ∧
      before = escape position first ∧ after = name ++ ';' :: escape position last := by
  induction text generalizing before with
  | nil => simp [escape] at split
  | cons c text ih =>
      have behind (more : List Char) (passed : before = escapeChar position c ++ more)
          (later : escape position text = more ++ '&' :: after) :
          ∃ first d last name, c :: text = first ++ d :: last ∧ Written position name d ∧
            before = escape position first ∧ after = name ++ ';' :: escape position last := by
        obtain ⟨first, d, last, name, rfl, written, rfl, rfl⟩ := ih later
        exact ⟨c :: first, d, last, name, rfl, written, by rw [passed, escape_cons], rfl⟩
      rw [escape_cons] at split
      rcases List.append_eq_append_iff.mp split with ⟨more, passed, later⟩ | ⟨more, here, later⟩
      · exact behind more passed later
      · cases more with
        | nil => exact behind [] (by simp [here]) (by simpa using later.symm)
        | cons letter more =>
            rw [List.cons_append, List.cons.injEq] at later
            obtain ⟨rfl, rfl⟩ := later
            obtain ⟨rfl, name, written, rfl⟩ := eq_nil_of_ampersand here
            exact ⟨[], c, text, name, rfl, written, rfl, by simp⟩

theorem escape_eq_nil_iff : escape position text = [] ↔ text = [] := by
  constructor
  · intro empty
    have read := decode_escape position text
    rwa [empty, decode, eq_comm] at read
  · rintro rfl
    rfl

/-- Escaped text holds no angle brackets, and between quotes no quotes. Every ampersand in it begins a
reference that was written for a character, and is read with the semicolon of that reference. The text is
decoded to what it was, whatever ampersands, semicolons and references it held. -/
theorem decode_undoes_escape (position : Position) (text : List Char) :
    (∀ c ∈ escape position text, c ≠ '<' ∧ c ≠ '>' ∧ (position = .quoted → c ≠ '"')) ∧
    (∀ before after, escape position text = before ++ '&' :: after →
      ∃ first c last name, text = first ++ c :: last ∧ Written position name c ∧
        before = escape position first ∧ after = name ++ ';' :: escape position last ∧
        read? after = some (c, escape position last)) ∧
    decode (escape position text) = text := by
  refine ⟨fun _ => ne_of_mem_escape, fun before after split => ?_, decode_escape position text⟩
  obtain ⟨first, c, last, name, rfl, written, rfl, rfl⟩ := exists_written_of_ampersand split
  refine ⟨first, c, last, name, rfl, written, rfl, rfl, ?_⟩
  rw [read?_semicolon (written.notMem (by decide)), written.named?, Option.map_some]

theorem decode_undoes_escape_nested :
    escape .quoted "&lt;\"&;<".toList = "&amp;lt;&quot;&amp;;&lt;".toList ∧
    (';' ≠ '<' ∧ ';' ≠ '>' ∧ (Position.quoted = .quoted → ';' ≠ '"')) ∧
    (∃ first c last name, "&lt;\"&;<".toList = first ++ c :: last ∧ Written .quoted name c ∧
      "&amp;lt;".toList = escape .quoted first ∧
      "quot;&amp;;&lt;".toList = name ++ ';' :: escape .quoted last ∧
      read? "quot;&amp;;&lt;".toList = some (c, escape .quoted last)) ∧
    decode (escape .quoted "&lt;\"&;<".toList) = "&lt;\"&;<".toList := by
  obtain ⟨harmless, references, undone⟩ := decode_undoes_escape .quoted "&lt;\"&;<".toList
  exact ⟨rfl, harmless ';' (by decide), references "&amp;lt;".toList _ rfl, undone⟩

end

end LiveTemplate.Reference
