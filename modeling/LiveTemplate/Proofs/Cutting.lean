import LiveTemplate.Placeholder.Token
import Mathlib.Data.List.TakeWhile

/-! The tokens of a text, said without a scan: the text is read into glyphs, and these are cut at their
leftmost delimiters one after another. -/

namespace LiveTemplate

structure Trims (text inner : List Char) : Prop where
  split : ∃ front back, text = front ++ inner ++ back ∧ (∀ c ∈ front ++ back, isBlank c = true)
  head : ∀ c, inner.head? = some c → isBlank c = false
  last : ∀ c, inner.getLast? = some c → isBlank c = false

theorem head?_dropWhile_isBlank {text : List Char} {c : Char}
    (found : (text.dropWhile isBlank).head? = some c) : isBlank c = false := by
  rw [← List.find?_not_eq_head?_dropWhile] at found
  simpa using List.find?_some found

theorem Trims.eq_trim {text inner : List Char} (trims : Trims text inner) : trim text = inner := by
  obtain ⟨front, back, split, blank⟩ := trims.split
  have frontBlank : ∀ c ∈ front, isBlank c = true := fun c member => blank c (by simp [member])
  have backBlank : ∀ c ∈ back.reverse, isBlank c = true :=
    fun c member => blank c (by simp [List.mem_reverse.mp member])
  rw [trim, split, List.append_assoc, List.dropWhile_append_of_pos frontBlank]
  rcases List.eq_nil_or_concat inner with rfl | ⟨start, last, rfl⟩
  · have nothing : back.dropWhile isBlank = [] :=
      List.dropWhile_eq_nil_iff.mpr fun c member => blank c (by simp [member])
    rw [List.nil_append, nothing]
    rfl
  · rw [List.concat_eq_append] at trims ⊢
    have kept : (start ++ [last] ++ back).dropWhile isBlank = start ++ [last] ++ back := by
      cases start with
      | nil => exact List.dropWhile_cons_of_neg (by simp [trims.head last rfl])
      | cons c rest => exact List.dropWhile_cons_of_neg (by simp [trims.head c rfl])
    rw [kept, List.reverse_append, List.dropWhile_append_of_pos backBlank, List.reverse_append,
      List.reverse_singleton, List.singleton_append,
      List.dropWhile_cons_of_neg (by simp [trims.last last (by simp)]), List.reverse_cons,
      List.reverse_reverse]

theorem trims_trim (text : List Char) : Trims text (trim text) := by
  have inner : text.dropWhile isBlank = trim text ++
      ((text.dropWhile isBlank).reverse.takeWhile isBlank).reverse := by
    rw [trim, ← List.reverse_append, List.takeWhile_append_dropWhile, List.reverse_reverse]
  refine ⟨⟨text.takeWhile isBlank, ((text.dropWhile isBlank).reverse.takeWhile isBlank).reverse, ?_, ?_⟩,
    ?_, ?_⟩
  · rw [List.append_assoc, ← inner, List.takeWhile_append_dropWhile]
  · intro c member
    rcases List.mem_append.mp member with front | back
    · exact List.mem_takeWhile_imp front
    · exact List.mem_takeWhile_imp (List.mem_reverse.mp back)
  · intro c first
    have leading : (text.dropWhile isBlank).head? = some c := by
      rw [inner, List.head?_append, first, Option.some_or]
    exact head?_dropWhile_isBlank leading
  · intro c last
    rw [trim, List.getLast?_reverse] at last
    exact head?_dropWhile_isBlank last

namespace Glyph

inductive Reads : List Char → List Glyph → Prop
  | nil : Reads [] []
  | escaped {c : Char} {text : List Char} {glyphs : List Glyph} : c ∈ ['{', '}', '\\'] →
      Reads text glyphs → Reads ('\\' :: c :: text) (⟨c, true⟩ :: glyphs)
  | plain {c : Char} {text : List Char} {glyphs : List Glyph} :
      (c = '\\' → ∀ next, text.head? = some next → next ∉ ['{', '}', '\\']) →
      Reads text glyphs → Reads (c :: text) (⟨c, false⟩ :: glyphs)

theorem isSpecial_iff (c : Char) : isSpecial c = true ↔ c ∈ ['{', '}', '\\'] := by
  simp [isSpecial, or_assoc]

theorem Reads.eq_read {text : List Char} {glyphs : List Glyph} (reads : Reads text glyphs) :
    read text = glyphs := by
  induction reads with
  | nil => rfl
  | escaped special _ ih => rw [read, if_pos ⟨rfl, (isSpecial_iff _).mpr special⟩, ih]
  | @plain c text glyphs lone _ ih =>
      cases text with
      | nil =>
          rw [← ih]
          rfl
      | cons next rest =>
          rw [read, if_neg, ih]
          rintro ⟨backslash, special⟩
          exact lone backslash next rfl ((isSpecial_iff next).mp special)

theorem reads_read (text : List Char) : Reads text (read text) := by
  fun_induction read text with
  | case1 => exact .nil
  | case2 c => exact .plain (by simp) .nil
  | case3 c next rest both ih =>
      obtain ⟨rfl, special⟩ := both
      exact .escaped ((isSpecial_iff next).mp special) ih
  | case4 c next rest neither ih =>
      refine .plain ?_ ih
      rintro backslash _ ⟨⟩ special
      exact neither ⟨backslash, (isSpecial_iff next).mpr special⟩

def opening : Glyph :=
  ⟨'{', false⟩

def closing : Glyph :=
  ⟨'}', false⟩

theorem opens_iff (glyph : Glyph) : glyph.opens = true ↔ glyph = opening := by
  obtain ⟨c, escaped⟩ := glyph
  simp [opens, opening, and_comm]

theorem closes_iff (glyph : Glyph) : glyph.closes = true ↔ glyph = closing := by
  obtain ⟨c, escaped⟩ := glyph
  simp [closes, closing, and_comm]

structure CutsAt (brace : Glyph) (glyphs before after : List Glyph) : Prop where
  split : glyphs = before ++ brace :: brace :: after
  leftmost : ∀ earlier later, glyphs = earlier ++ brace :: brace :: later →
    before.length ≤ earlier.length

def Unpaired (brace : Glyph) (glyphs : List Glyph) : Prop :=
  ∀ before after, glyphs ≠ before ++ brace :: brace :: after

variable {brace first : Glyph} {glyphs before after : List Glyph}

theorem CutsAt.exists_tail (cuts : CutsAt brace glyphs (first :: before) after) :
    ∃ second rest, glyphs = first :: second :: rest ∧ ¬ (first = brace ∧ second = brace) ∧
      CutsAt brace (second :: rest) before after := by
  obtain ⟨second, rest, split⟩ :
      ∃ second rest, before ++ brace :: brace :: after = second :: rest := by
    cases before <;> exact ⟨_, _, rfl⟩
  have whole : glyphs = first :: second :: rest := cuts.split.trans (congrArg (first :: ·) split)
  refine ⟨second, rest, whole, ?_, split.symm, ?_⟩
  · rintro ⟨rfl, rfl⟩
    have short := cuts.leftmost [] rest whole
    simp at short
  · intro earlier later other
    have further := cuts.leftmost (first :: earlier) later (by rw [whole, other]; rfl)
    simpa using further

theorem Unpaired.tail (unpaired : Unpaired brace (first :: glyphs)) : Unpaired brace glyphs := by
  intro before after split
  exact unpaired (first :: before) after (by rw [split]; rfl)

theorem exists_cutsAt (brace : Glyph) (glyphs : List Glyph) :
    (∃ before after, CutsAt brace glyphs before after) ∨ Unpaired brace glyphs := by
  induction glyphs with
  | nil => exact Or.inr fun before after split => by simp at split
  | cons first rest ih =>
      by_cases pair : first = brace ∧ rest.head? = some brace
      · obtain ⟨rfl, head⟩ := pair
        obtain ⟨after, rfl⟩ := List.head?_eq_some_iff.mp head
        exact Or.inl ⟨[], after, rfl, fun _ _ _ => Nat.zero_le _⟩
      · refine ih.imp ?_ ?_
        · rintro ⟨before, after, split, leftmost⟩
          refine ⟨first :: before, after, by rw [split]; rfl, ?_⟩
          intro earlier later other
          cases earlier with
          | nil =>
              cases other
              exact (pair ⟨rfl, rfl⟩).elim
          | cons _ earlier =>
              have shorter := leftmost earlier later (List.cons.inj other).2
              simpa using shorter
        · intro unpaired before after split
          cases before with
          | nil =>
              cases split
              exact pair ⟨rfl, rfl⟩
          | cons _ before => exact unpaired before after (List.cons.inj split).2

end Glyph

namespace Token

/-- The tokens that glyphs are cut into. What stands before the leftmost opening pair is a literal, what
follows it up to the next closing pair is a placeholder, and without one it is dropped. Glyphs without
an opening pair are a literal, unless they are none and tokens came before (`later`). -/
inductive Cut : (later : Bool) → List Glyph → List Token → Prop
  | placeholder {later : Bool} {glyphs before rest inside after : List Glyph} {expression : List Char}
      {tokens : List Token} : Glyph.CutsAt .opening glyphs before rest →
      Glyph.CutsAt .closing rest inside after → Trims (inside.map Glyph.char) expression →
      Cut true after tokens →
      Cut later glyphs (.literal (String.ofList (before.map Glyph.char)) ::
        .placeholder (String.ofList expression) :: tokens)
  | dropped {later : Bool} {glyphs before rest : List Glyph} : Glyph.CutsAt .opening glyphs before rest →
      Glyph.Unpaired .closing rest →
      Cut later glyphs [.literal (String.ofList (before.map Glyph.char))]
  | literal {later : Bool} {glyphs : List Glyph} : Glyph.Unpaired .opening glyphs →
      (glyphs ≠ [] ∨ later = false) → Cut later glyphs [.literal (String.ofList (glyphs.map Glyph.char))]
  | done : Cut true [] []

variable {glyphs before after : List Glyph}

theorem scanLiteral_of_cutsAt (cuts : Glyph.CutsAt .opening glyphs before after) (seen : List Glyph) :
    scanLiteral seen glyphs =
      .literal (String.ofList (textOf seen ++ before.map Glyph.char)) :: scanExpression [] after := by
  induction before generalizing glyphs seen with
  | nil =>
      rw [cuts.split, List.nil_append, scanLiteral, if_pos (by decide), List.map_nil, List.append_nil]
  | cons glyph before ih =>
      obtain ⟨second, rest, rfl, apart, further⟩ := cuts.exists_tail
      rw [scanLiteral, if_neg, ih further]
      · simp [textOf]
      · rwa [Bool.and_eq_true, Glyph.opens_iff, Glyph.opens_iff]

theorem scanExpression_of_cutsAt (cuts : Glyph.CutsAt .closing glyphs before after) (seen : List Glyph) :
    scanExpression seen glyphs =
      .placeholder (String.ofList (trim (textOf seen ++ before.map Glyph.char))) ::
        scanLiteral [] after := by
  induction before generalizing glyphs seen with
  | nil =>
      rw [cuts.split, List.nil_append, scanExpression, if_pos (by decide), List.map_nil, List.append_nil]
  | cons glyph before ih =>
      obtain ⟨second, rest, rfl, apart, further⟩ := cuts.exists_tail
      rw [scanExpression, if_neg, ih further]
      · simp [textOf]
      · rwa [Bool.and_eq_true, Glyph.closes_iff, Glyph.closes_iff]

theorem scanLiteral_of_unpaired (unpaired : Glyph.Unpaired .opening glyphs) (seen : List Glyph) :
    scanLiteral seen glyphs = if seen = [] ∧ glyphs = [] then []
      else [.literal (String.ofList (textOf seen ++ glyphs.map Glyph.char))] := by
  induction glyphs generalizing seen with
  | nil => cases seen <;> simp [scanLiteral]
  | cons first rest ih =>
      cases rest with
      | nil => simp [scanLiteral, textOf]
      | cons second rest =>
          rw [scanLiteral, if_neg, ih unpaired.tail]
          · simp [textOf]
          · rw [Bool.and_eq_true, Glyph.opens_iff, Glyph.opens_iff]
            rintro ⟨rfl, rfl⟩
            exact unpaired [] rest rfl

theorem scanExpression_of_unpaired (unpaired : Glyph.Unpaired .closing glyphs) (seen : List Glyph) :
    scanExpression seen glyphs = [] := by
  induction glyphs generalizing seen with
  | nil => simp [scanExpression]
  | cons first rest ih =>
      cases rest with
      | nil => simp [scanExpression]
      | cons second rest =>
          rw [scanExpression, if_neg, ih unpaired.tail]
          rw [Bool.and_eq_true, Glyph.closes_iff, Glyph.closes_iff]
          rintro ⟨rfl, rfl⟩
          exact unpaired [] rest rfl

theorem Cut.scanLiteral_eq {later : Bool} {tokens : List Token} (cut : Cut later glyphs tokens) :
    scanLiteral [] glyphs = tokens ∨ later = false ∧ scanLiteral [] glyphs = [] ∧ tokens = [.literal ""] := by
  -- The scan leaves out the empty literal of a text without tokens, which `tokenize` adds.
  induction cut with
  | placeholder opened closed trims _ ih =>
      left
      rw [scanLiteral_of_cutsAt opened, scanExpression_of_cutsAt closed]
      simp only [textOf, List.reverse_nil, List.map_nil, List.nil_append, trims.eq_trim]
      rcases ih with same | ⟨⟨⟩, _⟩
      rw [same]
  | dropped opened unclosed =>
      left
      rw [scanLiteral_of_cutsAt opened, scanExpression_of_unpaired unclosed]
      rfl
  | @literal later glyphs unopened shown =>
      rw [scanLiteral_of_unpaired unopened]
      by_cases none : glyphs = []
      · subst none
        exact Or.inr ⟨shown.resolve_left (by simp), by simp, rfl⟩
      · exact Or.inl (by simp [none, textOf])
  | done => exact Or.inl (by simp [scanLiteral])

theorem exists_cut (later : Bool) (glyphs : List Glyph) : ∃ tokens, Cut later glyphs tokens := by
  -- On the number of glyphs: a placeholder uses up two pairs of braces.
  induction length : glyphs.length using Nat.strongRecOn generalizing later glyphs with
  | _ length ih =>
      subst length
      rcases Glyph.exists_cutsAt .opening glyphs with ⟨before, rest, opened⟩ | unopened
      · rcases Glyph.exists_cutsAt .closing rest with ⟨inside, after, closed⟩ | unclosed
        · have shorter : after.length < glyphs.length := by
            rw [opened.split, closed.split]
            simp only [List.length_append, List.length_cons]
            omega
          obtain ⟨tokens, cut⟩ := ih after.length shorter true after rfl
          exact ⟨_, .placeholder opened closed (trims_trim _) cut⟩
        · exact ⟨_, .dropped opened unclosed⟩
      · by_cases nothing : glyphs = [] ∧ later = true
        · obtain ⟨rfl, rfl⟩ := nothing
          exact ⟨_, .done⟩
        · refine ⟨_, .literal unopened ?_⟩
          by_cases none : glyphs = []
          · exact Or.inr (by simpa [none] using nothing)
          · exact Or.inl none

theorem tokenize_of_cut {text : List Char} {tokens : List Token}
    (cut : Cut false (Glyph.read text) tokens) : tokenize text = tokens := by
  rw [tokenize]
  rcases cut.scanLiteral_eq with same | ⟨_, none, rfl⟩
  · cases cut <;> rw [same]
  · rw [none]

/-- The tokens of a text are those that its glyphs are cut into. -/
theorem tokenize_eq_iff (text : List Char) (tokens : List Token) :
    tokenize text = tokens ↔ ∃ glyphs, Glyph.Reads text glyphs ∧ Cut false glyphs tokens := by
  constructor
  · rintro rfl
    obtain ⟨tokens, cut⟩ := exists_cut false (Glyph.read text)
    exact ⟨_, Glyph.reads_read text, tokenize_of_cut cut ▸ cut⟩
  · rintro ⟨glyphs, reads, cut⟩
    exact tokenize_of_cut (reads.eq_read ▸ cut)

example : tokenize "\\\x7ba\x7b\x7b\x7b b\x7d \\\x7d\x7d\x7d\x7d\x7b\x7bc\x7d".toList =
    [.literal "\x7ba", .placeholder "\x7b b\x7d \x7d", .literal "\x7d"] := by
  decide +kernel

/-! The scan as a machine, which keeps a brace back until the next glyph tells whether there is a pair. -/

inductive Phase where
  | outside
  | opening
  | inside
  | closing

structure Machine where
  phase : Phase
  tokens : List Token
  literal : List Char
  expression : List Char

namespace Machine

def start : Machine :=
  ⟨.outside, [], [], []⟩

def step (machine : Machine) (glyph : Glyph) : Machine :=
  match machine.phase with
  | .outside =>
    if glyph.opens then { machine with phase := .opening }
    else { machine with literal := machine.literal ++ [glyph.char] }
  | .opening =>
    if glyph.opens then
      { machine with
        phase := .inside
        tokens := machine.tokens ++ [.literal (String.ofList machine.literal)]
        literal := [] }
    else { machine with phase := .outside, literal := machine.literal ++ ['{', glyph.char] }
  | .inside =>
    if glyph.closes then { machine with phase := .closing }
    else { machine with expression := machine.expression ++ [glyph.char] }
  | .closing =>
    if glyph.closes then
      { machine with
        phase := .outside
        tokens := machine.tokens ++ [.placeholder (String.ofList (trim machine.expression))]
        expression := [] }
    else { machine with phase := .inside, expression := machine.expression ++ ['}', glyph.char] }

def finish (machine : Machine) : List Token :=
  let literal := match machine.phase with
    | .opening => machine.literal ++ ['{']
    | _ => machine.literal
  if literal = [] ∧ machine.tokens ≠ [] then machine.tokens
  else machine.tokens ++ [.literal (String.ofList literal)]

end Machine

def complete (tokens : List Token) : List Token :=
  match tokens with
  | [] => [.literal ""]
  | _ => tokens

/-- What the machine makes of the glyphs that follow is what the scan makes of them. A brace that the
machine keeps back is still to be scanned. -/
structure Machine.Scans (glyphs : List Glyph) : Prop where
  outside : ∀ tokens seen, (glyphs.foldl step ⟨.outside, tokens, textOf seen, []⟩).finish =
    complete (tokens ++ scanLiteral seen glyphs)
  opening : ∀ tokens seen, (glyphs.foldl step ⟨.opening, tokens, textOf seen, []⟩).finish =
    complete (tokens ++ scanLiteral seen (.opening :: glyphs))
  inside : ∀ tokens seen, (glyphs.foldl step ⟨.inside, tokens, [], textOf seen⟩).finish =
    complete (tokens ++ scanExpression seen glyphs)
  closing : ∀ tokens seen, (glyphs.foldl step ⟨.closing, tokens, [], textOf seen⟩).finish =
    complete (tokens ++ scanExpression seen (.closing :: glyphs))

theorem scanLiteral_of_not_opens {glyph : Glyph} (plain : ¬ glyph.opens = true) (seen glyphs : List Glyph) :
    scanLiteral seen (glyph :: glyphs) = scanLiteral (glyph :: seen) glyphs := by
  cases glyphs with
  | nil => simp [scanLiteral]
  | cons second rest => rw [scanLiteral, if_neg (by simp [plain])]

theorem scanExpression_of_not_closes {glyph : Glyph} (plain : ¬ glyph.closes = true)
    (seen glyphs : List Glyph) :
    scanExpression seen (glyph :: glyphs) = scanExpression (glyph :: seen) glyphs := by
  cases glyphs with
  | nil => simp [scanExpression]
  | cons second rest => rw [scanExpression, if_neg (by simp [plain])]

theorem Machine.scans (glyphs : List Glyph) : Machine.Scans glyphs := by
  induction glyphs with
  | nil =>
      refine ⟨?_, ?_, ?_, ?_⟩ <;> intro tokens seen <;> cases tokens <;> cases seen <;>
        simp [finish, complete, scanLiteral, scanExpression, textOf, Glyph.opening]
  | cons glyph rest ih =>
      refine ⟨?_, ?_, ?_, ?_⟩ <;> intro tokens seen <;> rw [List.foldl_cons, step] <;> dsimp only <;> split
      · rename_i opens
        rw [ih.opening, (Glyph.opens_iff glyph).mp opens]
      · rename_i plain
        rw [scanLiteral_of_not_opens plain, ← ih.outside]
        simp [textOf]
      · rename_i opens
        have later := ih.inside (tokens ++ [.literal (String.ofList (textOf seen))]) []
        rw [(Glyph.opens_iff glyph).mp opens, scanLiteral, if_pos (by decide)]
        simpa [textOf] using later
      · rename_i plain
        rw [scanLiteral, if_neg (by simp [plain]), scanLiteral_of_not_opens plain, ← ih.outside]
        simp [textOf, Glyph.opening]
      · rename_i closes
        rw [ih.closing, (Glyph.closes_iff glyph).mp closes]
      · rename_i plain
        rw [scanExpression_of_not_closes plain, ← ih.inside]
        simp [textOf]
      · rename_i closes
        have later := ih.outside (tokens ++ [.placeholder (String.ofList (trim (textOf seen)))]) []
        rw [(Glyph.closes_iff glyph).mp closes, scanExpression, if_pos (by decide)]
        simpa [textOf] using later
      · rename_i plain
        rw [scanExpression, if_neg (by simp [plain]), scanExpression_of_not_closes plain, ← ih.inside]
        simp [textOf, Glyph.closing]

/-- The tokens of a text are those that a machine with four states finds in one pass over its glyphs. -/
theorem tokenize_eq_finish (text : List Char) :
    tokenize text = ((Glyph.read text).foldl Machine.step .start).finish := by
  have scanned := (Machine.scans (Glyph.read text)).outside [] []
  rw [List.nil_append] at scanned
  have completed : tokenize text = complete (scanLiteral [] (Glyph.read text)) := by
    rw [tokenize]
    cases scanLiteral [] (Glyph.read text) <;> rfl
  exact completed.trans scanned.symm

end Token

end LiveTemplate
