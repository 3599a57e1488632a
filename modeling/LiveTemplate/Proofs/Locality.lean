import LiveTemplate.Proofs.References
import Mathlib.Data.List.Induction
import Mathlib.Tactic.IntervalCases

/-! Decoding is local: a reference stands for its character whatever is around it, and every other
ampersand stays as it is. -/

namespace LiveTemplate

def IsDigit (base : Nat) (c : Char) (value : Nat) : Prop :=
  value < base ∧
    ∃ digits ∈ ["0123456789abcdef".toList, "0123456789ABCDEF".toList], digits[value]? = some c

inductive Numeral (base : Nat) : List Char → Nat → Prop
  | digit {c value} : IsDigit base c value → Numeral base [c] value
  | next {digits total c value} : Numeral base digits total → IsDigit base c value →
      Numeral base (digits ++ [c]) (total * base + value)

section
variable {base value : Nat} {c : Char} {digits : List Char}

theorem notMem_of_all {specials text : List Char}
    (plain : (specials.all fun c => !text.contains c) = true) : ∀ c ∈ specials, c ∉ text := by
  intro c special
  have here := List.all_eq_true.mp plain c special
  rwa [Bool.not_eq_true', List.contains_eq_mem, decide_eq_false_iff_not] at here

theorem isDigit_iff (small : base ≤ 16) : IsDigit base c value ↔
    value < base ∧ (c.toNat = 48 + value ∧ value < 10 ∨
      (c.toNat = 87 + value ∨ c.toNat = 55 + value) ∧ 10 ≤ value) := by
  refine and_congr_right fun below => ?_
  have bound : value < 16 := Nat.lt_of_lt_of_le below small
  clear below small
  constructor
  · rintro ⟨digits, member, found⟩
    simp only [List.mem_cons, List.not_mem_nil, or_false] at member
    rcases member with rfl | rfl <;> interval_cases value <;> cases found <;> decide
  · intro code
    rw [← Char.ofNat_toNat c]
    rcases code with ⟨code, low⟩ | ⟨code | code, high⟩
    · refine ⟨_, List.mem_cons_self, ?_⟩
      rw [code]
      interval_cases value <;> rfl
    · refine ⟨_, List.mem_cons_self, ?_⟩
      rw [code]
      interval_cases value <;> rfl
    · refine ⟨_, List.mem_cons_of_mem _ List.mem_cons_self, ?_⟩
      rw [code]
      interval_cases value <;> rfl

theorem digitValue?_eq_some_iff (small : base ≤ 16) :
    digitValue? base c = some value ↔ IsDigit base c value := by
  have decimal : '0' ≤ c ∧ c ≤ '9' ↔ 48 ≤ c.toNat ∧ c.toNat ≤ 57 := Iff.rfl
  have lower : 'a' ≤ c ∧ c ≤ 'z' ↔ 97 ≤ c.toNat ∧ c.toNat ≤ 122 := Iff.rfl
  have upper : 'A' ≤ c ∧ c ≤ 'Z' ↔ 65 ≤ c.toNat ∧ c.toNat ≤ 90 := Iff.rfl
  have zero : '0'.toNat = 48 := rfl
  have first : 'a'.toNat = 97 := rfl
  have capital : 'A'.toNat = 65 := rfl
  rw [isDigit_iff small, digitValue?, Option.filter_eq_some_iff, and_comm]
  simp only [decimal, lower, upper, zero, first, capital, decide_eq_true_eq]
  refine and_congr_right fun below => ?_
  split
  · rw [Option.some.injEq]
    omega
  split
  · rw [Option.some.injEq]
    omega
  split
  · rw [Option.some.injEq]
    omega
  · simp only [reduceCtorEq, false_iff]
    omega

theorem spelledNumber?_singleton (base : Nat) (c : Char) :
    spelledNumber? base [c] = digitValue? base c := by
  rw [spelledNumber?, List.mapM_cons]
  cases digitValue? base c with
  | none => rfl
  | some value => exact congrArg some (by simp [ofDigits])

theorem spelledNumber?_append (base : Nat) (nonempty : digits ≠ []) (c : Char) :
    spelledNumber? base (digits ++ [c]) = (spelledNumber? base digits).bind fun total =>
      (digitValue? base c).map fun value => total * base + value := by
  have several : (digits ++ [c]).isEmpty = false := by simp
  have some : digits.isEmpty = false := by simpa using nonempty
  rw [spelledNumber?, spelledNumber?, several, some, List.mapM_append, List.mapM_cons]
  cases digits.mapM (digitValue? base) with
  | none => rfl
  | some values =>
      cases digitValue? base c with
      | none => rfl
      | some value => exact congrArg Option.some (List.foldl_append ..)

theorem spelledNumber?_eq_some_iff (small : base ≤ 16) :
    spelledNumber? base digits = some value ↔ Numeral base digits value := by
  constructor
  · intro spelled
    induction digits using List.reverseRecOn generalizing value with
    | nil => cases spelled
    | append_singleton digits c ih =>
        by_cases nonempty : digits = []
        · rw [nonempty, List.nil_append, spelledNumber?_singleton, digitValue?_eq_some_iff small]
            at spelled
          rw [nonempty]
          exact .digit spelled
        · rw [spelledNumber?_append base nonempty, Option.bind_eq_some_iff] at spelled
          obtain ⟨total, before, spelled⟩ := spelled
          obtain ⟨last, found, rfl⟩ := Option.map_eq_some_iff.mp spelled
          exact .next (ih before) ((digitValue?_eq_some_iff small).mp found)
  · intro numeral
    induction numeral with
    | digit known => rw [spelledNumber?_singleton, digitValue?_eq_some_iff small]; exact known
    | @next digits _ _ _ _ known ih =>
        have nonempty : digits ≠ [] := by
          rintro rfl
          cases ih
        rw [spelledNumber?_append base nonempty, ih, (digitValue?_eq_some_iff small).mpr known]
        rfl

theorem Numeral.notMem (small : base ≤ 16) (numeral : Numeral base digits value) :
    ∀ c ∈ ['+', '&', ';', 'x', 'X'], c ∉ digits := by
  have plain {c : Char} {digit : Nat} (special : c ∈ ['+', '&', ';', 'x', 'X']) :
      ¬ IsDigit base c digit := by
    rw [isDigit_iff small]
    have codes : c.toNat ∈ [43, 38, 59, 120, 88] := List.mem_map_of_mem special
    simp only [List.mem_cons, List.not_mem_nil, or_false] at codes
    omega
  intro c special
  induction numeral with
  | digit known =>
      rw [List.mem_singleton]
      rintro rfl
      exact plain special known
  | next _ known ih =>
      rw [List.mem_append, List.mem_singleton]
      rintro (inside | rfl)
      · exact ih inside
      · exact plain special known

theorem Numeral.notMem_signed (small : base ≤ 16) (numeral : Numeral base digits value)
    {sign : List Char} (signed : sign ∈ ["".toList, "+".toList]) :
    ∀ c ∈ ['&', ';', 'x', 'X'], c ∉ sign ++ digits := by
  have signs : ∀ sign ∈ ["".toList, "+".toList],
      (['&', ';', 'x', 'X'].all fun c => !sign.contains c) = true := by decide
  intro c special
  rw [List.mem_append, not_or]
  exact ⟨notMem_of_all (signs sign signed) c special, numeral.notMem small c (List.mem_cons_of_mem _ special)⟩

end

namespace Reference

inductive Names : List Char → Char → Prop
  | ampersand : Names "amp".toList '&'
  | less : Names "lt".toList '<'
  | greater : Names "gt".toList '>'
  | quote : Names "quot".toList '"'
  | apostrophe : Names "apos".toList '\''
  | space : Names "nbsp".toList '\u00a0'
  | scalar {mark sign digits : List Char} {base value : Nat} :
      (mark, base) ∈ [("#".toList, 10), ("#x".toList, 16), ("#X".toList, 16)] →
      sign ∈ ["".toList, "+".toList] → Numeral base digits value → value < 2 ^ 32 →
      value.isValidChar → Names (mark ++ sign ++ digits) (Char.ofNat value)

section
variable {base value : Nat} {c : Char} {digits name text rest before after : List Char}

theorem scalar?_eq_some_iff (small : base ≤ 16) : scalar? base text = some c ↔
    ∃ sign ∈ ["".toList, "+".toList], ∃ digits value, text = sign ++ digits ∧
      Numeral base digits value ∧ value.isValidChar ∧ Char.ofNat value = c := by
  have read (digits : List Char) : ((spelledNumber? base digits).bind fun value =>
      if h : value.isValidChar then some (Char.ofNatAux value h) else none) = some c ↔
        ∃ value, Numeral base digits value ∧ value.isValidChar ∧ Char.ofNat value = c := by
    rw [Option.bind_eq_some_iff]
    refine exists_congr fun value => and_congr (spelledNumber?_eq_some_iff small) ?_
    by_cases valid : value.isValidChar
    · have made : Char.ofNat value = Char.ofNatAux value valid := dif_pos valid
      rw [dif_pos valid, made, Option.some.injEq, and_iff_right valid]
    · rw [dif_neg valid]
      exact iff_of_false (by rintro ⟨⟩) fun known => valid known.1
  have unsigned (digits : List Char) (plain : ∀ rest, digits ≠ '+' :: rest) :
      scalar? base digits = (spelledNumber? base digits).bind fun value =>
        if h : value.isValidChar then some (Char.ofNatAux value h) else none := by
    unfold scalar?
    -- Only the digits are split, not the test for scalar values.
    generalize (fun value => if h : Nat.isValidChar value then some (Char.ofNatAux value h) else none) = made
    split
    · exact (plain _ rfl).elim
    · rfl
  constructor
  · intro found
    by_cases signed : ∃ rest, text = '+' :: rest
    · obtain ⟨digits, rfl⟩ := signed
      obtain ⟨value, known⟩ := (read digits).mp found
      exact ⟨_, List.mem_cons_of_mem _ List.mem_cons_self, digits, value, rfl, known⟩
    · rw [unsigned text (not_exists.mp signed)] at found
      obtain ⟨value, known⟩ := (read text).mp found
      exact ⟨_, List.mem_cons_self, text, value, rfl, known⟩
  · rintro ⟨sign, member, digits, value, rfl, numeral, known⟩
    have found := (read digits).mpr ⟨value, numeral, known⟩
    simp only [List.mem_cons, List.not_mem_nil, or_false] at member
    rcases member with rfl | rfl
    · refine (unsigned digits ?_).trans found
      rintro rest rfl
      exact numeral.notMem small '+' List.mem_cons_self List.mem_cons_self
    · exact found

theorem named?_decimal (lower : 'x' ∉ text) (upper : 'X' ∉ text) :
    named? ('#' :: text) = scalar? 10 text := by
  unfold named?
  split
  case h_7 same =>
    cases same
    exact (lower List.mem_cons_self).elim
  case h_8 same =>
    cases same
    exact (upper List.mem_cons_self).elim
  case h_9 same =>
    cases same
    rfl
  case h_10 other => exact (other text rfl).elim
  all_goals rename_i same; cases same

theorem named?_eq_some_iff : named? name = some c ↔ Names name c := by
  constructor
  · intro known
    have spelled {mark text : List Char} {base : Nat}
        (member : (mark, base) ∈ [("#".toList, 10), ("#x".toList, 16), ("#X".toList, 16)])
        (small : base ≤ 16) (found : scalar? base text = some c) : Names (mark ++ text) c := by
      obtain ⟨sign, signed, digits, value, rfl, numeral, valid, rfl⟩ :=
        (scalar?_eq_some_iff small).mp found
      have bound : value < 2 ^ 32 := by
        unfold Nat.isValidChar at valid
        omega
      exact List.append_assoc mark sign digits ▸ .scalar member signed numeral bound valid
    unfold named? at known
    split at known
    case h_1 => cases known; exact .ampersand
    case h_2 => cases known; exact .less
    case h_3 => cases known; exact .greater
    case h_4 => cases known; exact .quote
    case h_5 => cases known; exact .apostrophe
    case h_6 => cases known; exact .space
    case h_7 => exact spelled (List.mem_cons_of_mem _ List.mem_cons_self) (by decide) known
    case h_8 =>
      exact spelled (List.mem_cons_of_mem _ (List.mem_cons_of_mem _ List.mem_cons_self)) (by decide) known
    case h_9 => exact spelled List.mem_cons_self (by decide) known
    case h_10 => cases known
  · intro names
    cases names with
    | @scalar mark sign digits base value member signed numeral _ valid =>
        simp only [List.mem_cons, List.not_mem_nil, or_false, Prod.mk.injEq] at member
        have small : base ≤ 16 := by omega
        have found : scalar? base (sign ++ digits) = some (Char.ofNat value) :=
          (scalar?_eq_some_iff small).mpr ⟨sign, signed, digits, value, rfl, numeral, valid, rfl⟩
        rcases member with ⟨rfl, rfl⟩ | ⟨rfl, rfl⟩ | ⟨rfl, rfl⟩
        · have plain := numeral.notMem_signed small signed
          exact (named?_decimal (plain 'x' (by decide)) (plain 'X' (by decide))).trans found
        · exact found
        · exact found
    | _ => rfl

theorem Names.notMem (names : Names name c) : ∀ other ∈ ['&', ';'], other ∉ name := by
  cases names with
  | @scalar mark sign digits base value member signed numeral _ _ =>
      have marks : ∀ known ∈ [("#".toList, 10), ("#x".toList, 16), ("#X".toList, 16)],
          known.2 ≤ 16 ∧ (['&', ';'].all fun other => !known.1.contains other) = true := by decide
      obtain ⟨small, plain⟩ := marks _ member
      intro other special
      rw [List.append_assoc, List.mem_append, not_or]
      exact ⟨notMem_of_all plain other special, numeral.notMem_signed small signed other
        (List.mem_append_left ['x', 'X'] special)⟩
  | _ => exact notMem_of_all (by decide)

theorem read?_eq_some_iff : read? text = some (c, rest) ↔
    ∃ name, Names name c ∧ text = name ++ ';' :: rest := by
  constructor
  · intro found
    rw [read?] at found
    split at found
    · cases found
    · rename_i first later split
      obtain ⟨known, named, pair⟩ := Option.map_eq_some_iff.mp found
      cases pair
      have semicolon : first = ';' := by
        have stop := List.head?_dropWhile_not (· != ';') text
        rw [split] at stop
        simpa using stop
      refine ⟨text.takeWhile (· != ';'), named?_eq_some_iff.mp named, ?_⟩
      rw [semicolon] at split
      rw [← split, List.takeWhile_append_dropWhile]
  · rintro ⟨name, names, rfl⟩
    rw [read?_semicolon (names.notMem ';' (by decide)), named?_eq_some_iff.mpr names, Option.map_some]

def Cut (before after : List Char) : Prop :=
  '&' ∉ before ∨ before.getLast? = some ';' ∨ after.head? = some '&'

theorem Cut.of_suffix {later : List Char} (cut : Cut before after) (suffix : later <:+ before) :
    Cut later after := by
  rcases cut with plain | closed | opened
  · exact Or.inl fun member => plain (suffix.subset member)
  · by_cases nonempty : later = []
    · exact Or.inl (by simp [nonempty])
    · obtain ⟨start, rfl⟩ := suffix
      rw [List.getLast?_append, List.getLast?_eq_some_getLast nonempty, Option.some_or] at closed
      exact Or.inr (Or.inl ((List.getLast?_eq_some_getLast nonempty).trans closed))
  · exact Or.inr (Or.inr opened)

/-- The text behind a cut is no part of a name that begins before it. -/
theorem Names.not_of_cut {more : List Char} (names : Names (before ++ more) c)
    (split : after = more ++ ';' :: rest) : ¬ Cut ('&' :: before) after := by
  rintro (plain | closed | opened)
  · exact plain List.mem_cons_self
  · have inside := List.mem_of_getLast? closed
    have named : ';' ∈ before := by simpa using inside
    exact names.notMem ';' (by decide) (List.mem_append_left _ named)
  · cases more with
    | nil => simp [split] at opened
    | cons letter more =>
        have same : letter = '&' := by simpa [split] using opened
        exact names.notMem letter (by simp [same]) (by simp)

/-- What is no reference before a cut is none with the text behind the cut either. -/
theorem read?_append_eq_none (cut : Cut ('&' :: before) after) (missing : read? before = none) :
    read? (before ++ after) = none := by
  rw [Option.eq_none_iff_forall_ne_some]
  rintro ⟨c, rest⟩ found
  obtain ⟨name, names, split⟩ := read?_eq_some_iff.mp found
  rcases List.append_eq_append_iff.mp split with ⟨more, rfl, behind⟩ | ⟨more, rfl, behind⟩
  · exact names.not_of_cut behind cut
  · cases more with
    | nil =>
        have whole : Names (name ++ [] ++ []) c := by simpa using names
        exact whole.not_of_cut behind.symm cut
    | cons letter more =>
        rw [List.cons_append, List.cons.injEq] at behind
        rw [← behind.1, read?_eq_some_iff.mpr ⟨name, names, rfl⟩] at missing
        cases missing

/-- Texts are decoded piece by piece, if they are cut where no reference can go on. -/
theorem decode_append (cut : Cut before after) :
    decode (before ++ after) = decode before ++ decode after := by
  induction before using decode.induct with
  | case1 => rw [decode, List.nil_append, List.nil_append]
  | case2 text c rest found _ ih =>
      obtain ⟨name, names, rfl⟩ := read?_eq_some_iff.mp found
      have later := ih (cut.of_suffix ⟨'&' :: name ++ [';'], by simp⟩)
      have longer : read? (name ++ ';' :: rest ++ after) = some (c, rest ++ after) :=
        read?_eq_some_iff.mpr ⟨name, names, by simp⟩
      rw [List.cons_append, decode_of_read? longer, decode_of_read? found, later, List.cons_append]
  | case3 text missing ih =>
      have later := ih (cut.of_suffix (List.suffix_cons _ _))
      rw [List.cons_append, decode_of_not_read? (read?_append_eq_none cut missing),
        decode_of_not_read? missing, later, List.cons_append]
  | case4 c text plain ih =>
      have later := ih (cut.of_suffix (List.suffix_cons _ _))
      rw [List.cons_append, decode_cons_of_ne plain, decode_cons_of_ne plain, later, List.cons_append]

theorem decode_of_notMem_semicolon (unterminated : ';' ∉ text) : decode text = text := by
  induction text using decode.induct with
  | case1 => rw [decode]
  | case2 text c rest found _ _ =>
      obtain ⟨name, _, rfl⟩ := read?_eq_some_iff.mp found
      exact (unterminated (by simp)).elim
  | case3 text missing ih =>
      rw [decode_of_not_read? missing, ih fun member => unterminated (List.mem_cons_of_mem _ member)]
  | case4 c text plain ih =>
      rw [decode_cons_of_ne plain, ih fun member => unterminated (List.mem_cons_of_mem _ member)]

theorem decode_unnamed (ampersand : '&' ∉ name) (semicolon : ';' ∉ name)
    (unnamed : ∀ c, ¬ Names name c) :
    decode ('&' :: name ++ ';' :: after) = '&' :: name ++ ';' :: decode after := by
  have missing : read? (name ++ ';' :: after) = none := by
    rw [read?_semicolon semicolon, Option.map_eq_none_iff, Option.eq_none_iff_forall_ne_some]
    exact fun c known => unnamed c (named?_eq_some_iff.mp known)
  have plain : '&' ∉ name ++ [';'] := by simpa using ampersand
  have rest : decode (name ++ [';'] ++ after) = name ++ [';'] ++ decode after :=
    (decode_append (Or.inl plain)).trans (congrArg (· ++ _) (decode_of_notMem plain))
  rw [List.cons_append, decode_of_not_read? missing]
  simpa using rest

/-- Texts are decoded piece by piece, if they are cut where no reference can go on. So a reference is its
character whatever is around it, the other names between an ampersand and a semicolon stay as they are,
and so does an ampersand without a semicolon behind it. -/
theorem decode_local (before name after : List Char) :
    (Cut before after → decode (before ++ after) = decode before ++ decode after) ∧
    (∀ c, Names name c →
      decode (before ++ ('&' :: name ++ ';' :: after)) = decode before ++ c :: decode after) ∧
    ('&' ∉ name → ';' ∉ name → (∀ c, ¬ Names name c) →
      decode (before ++ ('&' :: name ++ ';' :: after)) =
        decode before ++ ('&' :: name ++ ';' :: decode after)) ∧
    (';' ∉ name → decode (before ++ '&' :: name) = decode before ++ '&' :: name) := by
  have opened (text : List Char) : decode (before ++ '&' :: text) = decode before ++ decode ('&' :: text) :=
    decode_append (Or.inr (Or.inr rfl))
  refine ⟨decode_append, fun c names => ?_, fun ampersand semicolon unnamed => ?_, fun unterminated => ?_⟩
  · exact (opened _).trans (congrArg _ (decode_reference (named?_eq_some_iff.mpr names)
      (names.notMem ';' (by decide)) after))
  · exact (opened _).trans (congrArg _ (decode_unnamed ampersand semicolon unnamed))
  · refine (opened _).trans (congrArg _ (decode_of_notMem_semicolon ?_))
    simpa using unterminated

end

example : decode "&am&#38;lt;&bogus;&#xD800;".toList = "&am&lt;&bogus;&#xD800;".toList := by
  decide +kernel

theorem decode_local_overlapping :
    Cut "&am".toList "&#x+26;lt;".toList ∧ Names "#x+26".toList '&' ∧
    (∀ c, ¬ Names "#xD800".toList c) ∧
    decode ("&am".toList ++ "&#x+26;lt;".toList) = decode "&am".toList ++ decode "&#x+26;lt;".toList ∧
    decode ("&am".toList ++ ('&' :: "#x+26".toList ++ ';' :: "lt;".toList)) =
      decode "&am".toList ++ '&' :: decode "lt;".toList ∧
    decode ("&am".toList ++ ('&' :: "#xD800".toList ++ ';' :: "lt;".toList)) =
      decode "&am".toList ++ ('&' :: "#xD800".toList ++ ';' :: decode "lt;".toList) ∧
    decode ("&am".toList ++ '&' :: "lt".toList) = decode "&am".toList ++ '&' :: "lt".toList := by
  have cut : Cut "&am".toList "&#x+26;lt;".toList := Or.inr (Or.inr rfl)
  have named : Names "#x+26".toList '&' := named?_eq_some_iff.mp (by decide)
  have unnamed (c : Char) : ¬ Names "#xD800".toList c := by
    have missing : named? "#xD800".toList = none := by decide
    rw [← named?_eq_some_iff, missing]
    exact Option.some_ne_none c |>.symm
  exact ⟨cut, named, unnamed, (decode_local _ [] _).1 cut, (decode_local _ _ _).2.1 _ named,
    (decode_local _ _ _).2.2.1 (by decide) (by decide) unnamed, (decode_local _ _ []).2.2.2 (by decide)⟩

end Reference

end LiveTemplate
