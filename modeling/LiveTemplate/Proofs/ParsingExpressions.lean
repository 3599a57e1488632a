import LiveTemplate.Proofs.RoundTrip

/-! Parsing expression grammars: ordered choice, repetition that gives nothing back, look-ahead, and a
stack of texts which an attempt that fails leaves as it was. A rule leaves a mark of what it took around the
marks of the rules it calls, or only those, or only its own. -/

namespace LiveTemplate.Peg

inductive Expression (Rule : Type) where
  | start
  | stop
  | char (member : Char → Bool)
  | exact (text : List Char)
  | caseless (text : List Char)
  | call (rule : Rule)
  | seq (first second : Expression Rule)
  | choice (first second : Expression Rule)
  | star (operand : Expression Rule)
  | absent (operand : Expression Rule)
  | push (operand : Expression Rule)
  | pop

namespace Expression

variable {Rule : Type}

def any : Expression Rule :=
  char fun _ => true

def plus (operand : Expression Rule) : Expression Rule :=
  seq operand (star operand)

def optional (operand : Expression Rule) : Expression Rule :=
  choice operand (exact [])

def all : List (Expression Rule) → Expression Rule
  | [] => exact []
  | [last] => last
  | first :: rest => seq first (all rest)

def oneOf : List (Expression Rule) → Expression Rule
  | [] => char fun _ => false
  | [last] => last
  | first :: rest => choice first (oneOf rest)

end Expression

inductive Marking where
  | plain
  | hidden
  | atomic

structure Mark (Rule : Type) where
  rule : Rule
  taken : List Char

def Marking.leave {Rule : Type} (marking : Marking) (mark : Mark Rule)
    (inside : List (Tree (Mark Rule))) : List (Tree (Mark Rule)) :=
  match marking with
  | plain => [.node mark inside]
  | hidden => inside
  | atomic => [.node mark []]

structure Grammar (Rule : Type) where
  body : Rule → Expression Rule
  marking : Rule → Marking

structure Match (Rule : Type) where
  marks : List (Tree (Mark Rule))
  rest : List Char
  stack : List (List Char)

def lower (text : List Char) : List Char :=
  text.map Char.toLower

inductive Parses {Rule : Type} (grammar : Grammar Rule) (whole : List Char) :
    Expression Rule → List Char → List (List Char) → Option (Match Rule) → Prop
  | start {text stack} : text = whole → Parses grammar whole .start text stack (some ⟨[], text, stack⟩)
  | notStart {text stack} : text ≠ whole → Parses grammar whole .start text stack none
  | stop {text stack} : text = [] → Parses grammar whole .stop text stack (some ⟨[], text, stack⟩)
  | notStop {text stack} : text ≠ [] → Parses grammar whole .stop text stack none
  | char {member c rest stack} : member c = true →
      Parses grammar whole (.char member) (c :: rest) stack (some ⟨[], rest, stack⟩)
  | notChar {member text stack} : (∀ c, text.head? = some c → member c = false) →
      Parses grammar whole (.char member) text stack none
  | exact {start text rest stack} : text = start ++ rest →
      Parses grammar whole (.exact start) text stack (some ⟨[], rest, stack⟩)
  | notExact {start text stack} : ¬ start <+: text →
      Parses grammar whole (.exact start) text stack none
  | caseless {start own text rest stack} : text = own ++ rest → lower own = lower start →
      Parses grammar whole (.caseless start) text stack (some ⟨[], rest, stack⟩)
  | notCaseless {start text stack} : ¬ lower start <+: lower text →
      Parses grammar whole (.caseless start) text stack none
  | call {rule text stack own found} : Parses grammar whole (grammar.body rule) text stack (some found) →
      text = own ++ found.rest → Parses grammar whole (.call rule) text stack
        (some ⟨(grammar.marking rule).leave ⟨rule, own⟩ found.marks, found.rest, found.stack⟩)
  | notCall {rule text stack} : Parses grammar whole (grammar.body rule) text stack none →
      Parses grammar whole (.call rule) text stack none
  | seq {first second text stack found next} : Parses grammar whole first text stack (some found) →
      Parses grammar whole second found.rest found.stack (some next) →
      Parses grammar whole (.seq first second) text stack
        (some ⟨found.marks ++ next.marks, next.rest, next.stack⟩)
  | notFirst {first second text stack} : Parses grammar whole first text stack none →
      Parses grammar whole (.seq first second) text stack none
  | notSecond {first second text stack found} : Parses grammar whole first text stack (some found) →
      Parses grammar whole second found.rest found.stack none →
      Parses grammar whole (.seq first second) text stack none
  | chosen {first second text stack found} : Parses grammar whole first text stack (some found) →
      Parses grammar whole (.choice first second) text stack (some found)
  | otherwise {first second text stack outcome} : Parses grammar whole first text stack none →
      Parses grammar whole second text stack outcome →
      Parses grammar whole (.choice first second) text stack outcome
  | enough {operand text stack} : Parses grammar whole operand text stack none →
      Parses grammar whole (.star operand) text stack (some ⟨[], text, stack⟩)
  | more {operand text stack found next} : Parses grammar whole operand text stack (some found) →
      Parses grammar whole (.star operand) found.rest found.stack (some next) →
      Parses grammar whole (.star operand) text stack
        (some ⟨found.marks ++ next.marks, next.rest, next.stack⟩)
  | absent {operand text stack} : Parses grammar whole operand text stack none →
      Parses grammar whole (.absent operand) text stack (some ⟨[], text, stack⟩)
  | notAbsent {operand text stack found} : Parses grammar whole operand text stack (some found) →
      Parses grammar whole (.absent operand) text stack none
  | push {operand text stack own found} : Parses grammar whole operand text stack (some found) →
      text = own ++ found.rest → Parses grammar whole (.push operand) text stack
        (some ⟨found.marks, found.rest, own :: found.stack⟩)
  | notPush {operand text stack} : Parses grammar whole operand text stack none →
      Parses grammar whole (.push operand) text stack none
  | pop {own text rest stack} : text = own ++ rest →
      Parses grammar whole .pop text (own :: stack) (some ⟨[], rest, stack⟩)
  | notPop {own text stack} : ¬ own <+: text → Parses grammar whole .pop text (own :: stack) none

def Derives {Rule : Type} (grammar : Grammar Rule) (rule : Rule) (whole : List Char)
    (marks : List (Tree (Mark Rule))) : Prop :=
  Parses grammar whole (.call rule) whole [] (some ⟨marks, [], []⟩)

section
variable {Rule : Type} {grammar : Grammar Rule} {whole text rest : List Char}
  {stack : List (List Char)} {operand : Expression Rule}

theorem Parses.unique {outcome other : Option (Match Rule)}
    (parses : Parses grammar whole operand text stack outcome)
    (also : Parses grammar whole operand text stack other) : outcome = other := by
  -- The second run can only end by a rule of the same operator; the stack and the place are the same.
  induction parses generalizing other with
  | start same =>
      cases also with
      | start => rfl
      | notStart differ => exact (differ same).elim
  | notStart differ =>
      cases also with
      | start same => exact (differ same).elim
      | notStart => rfl
  | stop same =>
      cases also with
      | stop => rfl
      | notStop differ => exact (differ same).elim
  | notStop differ =>
      cases also with
      | stop same => exact (differ same).elim
      | notStop => rfl
  | char inside =>
      cases also with
      | char => rfl
      | notChar outside => rw [outside _ rfl] at inside; cases inside
  | notChar outside =>
      cases also with
      | char inside => rw [outside _ rfl] at inside; cases inside
      | notChar => rfl
  | exact split =>
      cases also with
      | exact again => rw [List.append_cancel_left (split.symm.trans again)]
      | notExact apart => exact (apart ⟨_, split.symm⟩).elim
  | notExact apart =>
      cases also with
      | exact split => exact (apart ⟨_, split.symm⟩).elim
      | notExact => rfl
  | caseless split same =>
      cases also with
      | caseless again alike =>
          have long := congrArg List.length (same.trans alike.symm)
          rw [lower, lower, List.length_map, List.length_map] at long
          rw [(List.append_inj (split.symm.trans again) long).2]
      | notCaseless apart => exact (apart ⟨_, by rw [split, ← same, lower, lower, ← List.map_append]⟩).elim
  | notCaseless apart =>
      cases also with
      | caseless split same => exact (apart ⟨_, by rw [split, ← same, lower, lower, ← List.map_append]⟩).elim
      | notCaseless => rfl
  | call _ split ih =>
      cases also with
      | call body again =>
          cases ih body
          rw [List.append_cancel_right (split.symm.trans again)]
      | notCall body => cases ih body
  | notCall _ ih =>
      cases also with
      | call body => cases ih body
      | notCall => rfl
  | seq _ _ ihFirst ihSecond =>
      cases also with
      | seq first second =>
          cases ihFirst first
          cases ihSecond second
          rfl
      | notFirst first => cases ihFirst first
      | notSecond first second =>
          cases ihFirst first
          cases ihSecond second
  | notFirst _ ih =>
      cases also with
      | seq first => cases ih first
      | notFirst => rfl
      | notSecond => rfl
  | notSecond _ _ ihFirst ihSecond =>
      cases also with
      | seq first second =>
          cases ihFirst first
          cases ihSecond second
      | notFirst => rfl
      | notSecond => rfl
  | chosen _ ih =>
      cases also with
      | chosen first => exact ih first
      | otherwise first => cases ih first
  | otherwise _ _ ihFirst ihSecond =>
      cases also with
      | chosen first => cases ihFirst first
      | otherwise _ second => exact ihSecond second
  | enough _ ih =>
      cases also with
      | enough => rfl
      | more first => cases ih first
  | more _ _ ihFirst ihRest =>
      cases also with
      | enough first => cases ihFirst first
      | more first later =>
          cases ihFirst first
          cases ihRest later
          rfl
  | absent _ ih =>
      cases also with
      | absent => rfl
      | notAbsent found => cases ih found
  | notAbsent _ ih =>
      cases also with
      | absent found => cases ih found
      | notAbsent => rfl
  | push _ split ih =>
      cases also with
      | push body again =>
          cases ih body
          rw [List.append_cancel_right (split.symm.trans again)]
      | notPush body => cases ih body
  | notPush _ ih =>
      cases also with
      | push body => cases ih body
      | notPush => rfl
  | pop split =>
      cases also with
      | pop again => rw [List.append_cancel_left (split.symm.trans again)]
      | notPop apart => exact (apart ⟨_, split.symm⟩).elim
  | notPop apart =>
      cases also with
      | pop split => exact (apart ⟨_, split.symm⟩).elim
      | notPop => rfl

theorem Parses.exists_taken {outcome : Option (Match Rule)} {found : Match Rule}
    (parses : Parses grammar whole operand text stack outcome) (some : outcome = some found) :
    ∃ own, text = own ++ found.rest := by
  induction parses generalizing found with
  | start | stop | enough | absent =>
      cases some
      exact ⟨[], rfl⟩
  | @char _ c =>
      cases some
      exact ⟨[c], rfl⟩
  | exact split | caseless split | pop split | call _ split | push _ split =>
      cases some
      exact ⟨_, split⟩
  | seq _ _ ihFirst ihSecond | more _ _ ihFirst ihSecond =>
      cases some
      obtain ⟨own, split⟩ := ihFirst rfl
      obtain ⟨later, laterSplit⟩ := ihSecond rfl
      exact ⟨own ++ later, by rw [split, laterSplit, List.append_assoc]⟩
  | chosen _ ih => exact ih some
  | otherwise _ _ _ ih => exact ih some
  | _ => cases some

theorem Parses.mark {rule : Rule} {found : Match Rule}
    (parses : Parses grammar whole (grammar.body rule) text stack (some found)) :
    ∃ own, text = own ++ found.rest ∧ Parses grammar whole (.call rule) text stack
      (some ⟨(grammar.marking rule).leave ⟨rule, own⟩ found.marks, found.rest, found.stack⟩) := by
  obtain ⟨own, split⟩ := parses.exists_taken rfl
  exact ⟨own, split, .call parses split⟩

theorem parses_exact (start text : List Char) (stack : List (List Char)) :
    Parses grammar whole (.exact start) text stack
      ((Markup.skip? start text).map fun rest => ⟨[], rest, stack⟩) := by
  cases found : Markup.skip? start text with
  | some rest => exact .exact (Markup.skip?_eq_some_iff.mp found)
  | none =>
      refine .notExact ?_
      rintro ⟨rest, rfl⟩
      rw [Markup.skip?_append] at found
      cases found

structure Takes (grammar : Grammar Rule) (whole : List Char) (operand : Expression Rule)
    (member : Char → Bool) : Prop where
  takes : ∀ {c rest stack}, member c = true →
    Parses grammar whole operand (c :: rest) stack (some ⟨[], rest, stack⟩)
  refuses : ∀ {text stack}, (∀ c, text.head? = some c → member c = false) →
    Parses grammar whole operand text stack none

theorem takes_char (member : Char → Bool) : Takes grammar whole (.char member) member :=
  ⟨.char, .notChar⟩

theorem takes_exact (c : Char) : Takes grammar whole (.exact [c]) (· == c) where
  takes inside := .exact (by rw [eq_of_beq inside]; rfl)
  refuses := by
    rintro text stack outside
    refine .notExact ?_
    rintro ⟨rest, rfl⟩
    simpa using outside c rfl

namespace Takes

variable {first second : Expression Rule} {member other : Char → Bool}

theorem of_eq (taken : Takes grammar whole first member) (same : ∀ c, member c = other c) :
    Takes grammar whole first other := by
  rwa [← funext same]

theorem choice (left : Takes grammar whole first member) (right : Takes grammar whole second other) :
    Takes grammar whole (.choice first second) fun c => member c || other c where
  takes := by
    intro c rest stack inside
    by_cases here : member c = true
    · exact .chosen (left.takes here)
    · refine .otherwise (left.refuses ?_) (right.takes ?_)
      · rintro _ ⟨⟩
        exact Bool.eq_false_iff.mpr here
      · exact ((Bool.or_eq_true _ _).mp inside).resolve_left here
  refuses := by
    intro text stack outside
    have both := fun c head => Bool.or_eq_false_iff.mp (outside c head)
    exact .otherwise (left.refuses fun c head => (both c head).1)
      (right.refuses fun c head => (both c head).2)

theorem except (taken : Takes grammar whole operand member) :
    Takes grammar whole (.seq (.absent operand) .any) fun c => !member c where
  takes := by
    intro c rest stack outside
    refine .seq (.absent (taken.refuses ?_)) (.char rfl)
    rintro _ ⟨⟩
    simpa using outside
  refuses := by
    intro text stack inside
    cases text with
    | nil => exact .notSecond (.absent (taken.refuses (by rintro c ⟨⟩))) (.notChar (by rintro c ⟨⟩))
    | cons c rest => exact .notFirst (.notAbsent (taken.takes (by simpa using inside c rfl)))

theorem call {rule : Rule} (hidden : grammar.marking rule = .hidden)
    (taken : Takes grammar whole (grammar.body rule) member) :
    Takes grammar whole (.call rule) member where
  takes := by
    intro c rest stack inside
    have parses : Parses grammar whole (grammar.body rule) (c :: rest) stack (some ⟨[], rest, stack⟩) :=
      taken.takes inside
    have called := Parses.call parses (List.singleton_append).symm
    rwa [hidden] at called
  refuses outside := .notCall (taken.refuses outside)

theorem star (taken : Takes grammar whole operand member) (text : List Char)
    (stack : List (List Char)) :
    Parses grammar whole operand.star text stack (some ⟨[], text.dropWhile member, stack⟩) := by
  induction text with
  | nil => exact .enough (taken.refuses (by rintro c ⟨⟩))
  | cons c rest ih =>
      by_cases inside : member c = true
      · rw [List.dropWhile_cons_of_pos inside]
        exact .more (taken.takes inside) ih
      · rw [List.dropWhile_cons_of_neg inside]
        refine .enough (taken.refuses ?_)
        rintro _ ⟨⟩
        exact Bool.eq_false_iff.mpr inside

theorem plus (taken : Takes grammar whole operand member) (text : List Char)
    (stack : List (List Char)) :
    Parses grammar whole operand.plus text stack
      ((Markup.run? member text).map fun (_, rest) => ⟨[], rest, stack⟩) := by
  cases text with
  | nil => exact .notFirst (taken.refuses (by rintro c ⟨⟩))
  | cons c rest =>
      by_cases inside : member c = true
      · rw [Markup.run?, List.takeWhile_cons_of_pos inside, List.dropWhile_cons_of_pos inside]
        exact .seq (taken.takes inside) (taken.star rest stack)
      · rw [Markup.run?, List.takeWhile_cons_of_neg inside]
        refine .notFirst (taken.refuses ?_)
        rintro _ ⟨⟩
        exact Bool.eq_false_iff.mpr inside

end Takes

def Consumes (grammar : Grammar Rule) (whole : List Char) (operand : Expression Rule) : Prop :=
  ∀ text stack found, Parses grammar whole operand text stack (some found) →
    found.rest.length < text.length

namespace Consumes

variable {first second : Expression Rule}

theorem char (member : Char → Bool) : Consumes grammar whole (.char member) := by
  rintro _ _ _ ⟨⟩
  exact Nat.lt_succ_self _

theorem exact {start : List Char} (nonempty : start ≠ []) : Consumes grammar whole (.exact start) := by
  rintro _ _ _ ⟨⟩
  rename_i split
  rw [split, List.length_append]
  have := List.length_pos_iff.mpr nonempty
  dsimp only
  omega

theorem choice (left : Consumes grammar whole first) (right : Consumes grammar whole second) :
    Consumes grammar whole (.choice first second) := by
  intro _ _ _ parses
  cases parses with
  | chosen parses => exact left _ _ _ parses
  | otherwise _ parses => exact right _ _ _ parses

theorem call {rule : Rule} (body : Consumes grammar whole (grammar.body rule)) :
    Consumes grammar whole (.call rule) := by
  intro _ _ _ parses
  cases parses with
  | call parses =>
      have shorter := body _ _ _ parses
      exact shorter

theorem left (consumes : Consumes grammar whole first) : Consumes grammar whole (.seq first second) := by
  intro _ _ _ parses
  cases parses with
  | seq here later =>
      obtain ⟨own, split⟩ := later.exists_taken rfl
      have shorter := consumes _ _ _ here
      rw [split, List.length_append] at shorter
      dsimp only
      omega

theorem right (consumes : Consumes grammar whole second) : Consumes grammar whole (.seq first second) := by
  intro _ _ _ parses
  cases parses with
  | seq here later =>
      obtain ⟨own, split⟩ := here.exists_taken rfl
      have shorter := consumes _ _ _ later
      rw [split, List.length_append]
      dsimp only
      omega

end Consumes

/-- An expression has the outcome that a reader's answer tells: it fails where nothing is read, and else
it leaves the same rest, with marks that stand for what is read. -/
def Follows {α : Type} (grammar : Grammar Rule) (whole : List Char) (operand : Expression Rule)
    (stack left : List (List Char)) (stands : List (Tree (Mark Rule)) → α → Prop) (text : List Char) :
    Option (α × List Char) → Prop
  | none => Parses grammar whole operand text stack none
  | some (value, rest) => ∃ marks, stands marks value ∧
      Parses grammar whole operand text stack (some ⟨marks, rest, left⟩)

namespace Follows

variable {α β : Type} {second : Expression Rule} {stands : List (Tree (Mark Rule)) → α → Prop}
  {left middle : List (List Char)} {answer other : Option (α × List Char)}

theorem mono {before : List (Tree (Mark Rule)) → α → Prop}
    (follows : Follows grammar whole operand stack left before text answer)
    (standing : ∀ marks value, before marks value → stands marks value) :
    Follows grammar whole operand stack left stands text answer := by
  match answer, follows with
  | none, fails => exact fails
  | some _, ⟨marks, here, parses⟩ => exact ⟨marks, standing marks _ here, parses⟩

theorem map (change : α → β) {changed : List (Tree (Mark Rule)) → β → Prop}
    (follows : Follows grammar whole operand stack left stands text answer)
    (standing : ∀ marks value, stands marks value → changed marks (change value)) :
    Follows grammar whole operand stack left changed text
      (answer.map fun (value, rest) => (change value, rest)) := by
  match answer, follows with
  | none, fails => exact fails
  | some _, ⟨marks, here, parses⟩ => exact ⟨marks, standing marks _ here, parses⟩

theorem choice (first : Follows grammar whole operand stack left stands text answer)
    (otherwise : Follows grammar whole second stack left stands text other) :
    Follows grammar whole (.choice operand second) stack left stands text (answer <|> other) := by
  match answer, other, first, otherwise with
  | some _, _, ⟨marks, standing, parses⟩, _ => exact ⟨marks, standing, .chosen parses⟩
  | none, some _, fails, ⟨marks, standing, parses⟩ => exact ⟨marks, standing, .otherwise fails parses⟩
  | none, none, fails, alsoFails => exact .otherwise fails alsoFails

theorem exact {value : α} (start : List Char) (standing : stands [] value) :
    Follows grammar whole (.exact start) stack stack stands text
      ((Markup.skip? start text).map fun rest => (value, rest)) := by
  have parses : Parses grammar whole (.exact start) text stack _ := parses_exact start text stack
  cases found : Markup.skip? start text with
  | none => rwa [found] at parses
  | some rest =>
      rw [found] at parses
      exact ⟨[], standing, parses⟩

theorem call {rule : Rule} (inside : List (Tree (Mark Rule)) → α → Prop)
    (follows : Follows grammar whole (grammar.body rule) stack left inside text answer)
    (standing : ∀ value rest own marks, answer = some (value, rest) → text = own ++ rest →
      inside marks value → stands ((grammar.marking rule).leave ⟨rule, own⟩ marks) value) :
    Follows grammar whole (.call rule) stack left stands text answer := by
  match answer, follows, standing with
  | none, fails, _ => exact .notCall fails
  | some (value, rest), ⟨marks, here, parses⟩, standing =>
      obtain ⟨own, split, parses⟩ := parses.mark
      exact ⟨_, standing value rest own marks rfl split here, parses⟩

/-- A rule that takes a run of characters of a class, one at least. -/
theorem run {rule : Rule} {member : Char → Bool} (atomic : grammar.marking rule = .atomic)
    (body : grammar.body rule = operand.plus) (taken : Takes grammar whole operand member) :
    Follows grammar whole (.call rule) stack stack (fun marks run => marks = [.node ⟨rule, run⟩ []])
      text (Markup.run? member text) := by
  have parses := taken.plus text stack
  rw [← body] at parses
  cases found : Markup.run? member text with
  | none =>
      rw [found] at parses
      exact .notCall parses
  | some pair =>
      rw [found] at parses
      rw [Markup.run?] at found
      split at found
      · cases found
      · cases found
        have call := Parses.call parses (List.takeWhile_append_dropWhile (p := member)).symm
        rw [atomic] at call
        exact ⟨_, rfl, call⟩

theorem seq {found : Match Rule} (parses : Parses grammar whole operand text stack (some found))
    (follows : Follows grammar whole second found.stack left
      (fun more value => stands (found.marks ++ more) value) found.rest answer) :
    Follows grammar whole (.seq operand second) stack left stands text answer := by
  match answer, follows with
  | none, fails => exact .notSecond parses fails
  | some _, ⟨marks, standing, more⟩ => exact ⟨_, standing, .seq parses more⟩

/-- One expression after another, where what is read next depends on what was read before. -/
theorem bind {before : List (Tree (Mark Rule)) → β → Prop} {first : Option (β × List Char)}
    {next : β × List Char → Option (α × List Char)}
    (follows : Follows grammar whole operand stack middle before text first)
    (later : ∀ value rest marks, first = some (value, rest) → before marks value →
      Follows grammar whole second middle left (fun more result => stands (marks ++ more) result) rest
        (next (value, rest))) :
    Follows grammar whole (.seq operand second) stack left stands text (first.bind next) := by
  match first, follows, later with
  | none, fails, _ => exact .notFirst fails
  | some (value, rest), ⟨marks, here, parses⟩, later => exact seq parses (later value rest marks rfl here)

theorem afterExact {start : List Char} {next : List Char → Option (α × List Char)}
    (follows : ∀ rest, text = start ++ rest →
      Follows grammar whole second stack left stands rest (next rest)) :
    Follows grammar whole (.seq (.exact start) second) stack left stands text
      ((Markup.skip? start text).bind next) := by
  have parses : Parses grammar whole (.exact start) text stack _ := parses_exact start text stack
  cases found : Markup.skip? start text with
  | none =>
      rw [found] at parses
      exact .notFirst parses
  | some rest =>
      rw [found] at parses
      exact seq parses (follows rest (Markup.skip?_eq_some_iff.mp found))

theorem afterPop {own : List Char} {next : List Char → Option (α × List Char)}
    (follows : ∀ rest, text = own ++ rest →
      Follows grammar whole second stack left stands rest (next rest)) :
    Follows grammar whole (.seq .pop second) (own :: stack) left stands text
      ((Markup.skip? own text).bind next) := by
  cases found : Markup.skip? own text with
  | none =>
      refine .notFirst (.notPop ?_)
      rintro ⟨rest, rfl⟩
      rw [Markup.skip?_append] at found
      cases found
  | some rest =>
      have split := Markup.skip?_eq_some_iff.mp found
      exact seq (.pop split) (follows rest split)

theorem afterCaseless {start : List Char}
    (follows : Follows grammar whole second stack left stands (text.drop start.length) answer) :
    Follows grammar whole (.seq (.caseless start) second) stack left stands text
      (if lower (text.take start.length) = lower start then answer else none) := by
  split
  · rename_i same
    exact seq (.caseless (List.take_append_drop _ _).symm same) follows
  · rename_i differs
    refine .notFirst (.notCaseless ?_)
    rintro ⟨rest, split⟩
    have long : (lower start).length = start.length := List.length_map _
    rw [lower, List.map_take, ← lower, ← split, List.take_left' long] at differs
    exact differs rfl

/-- One expression after as many characters of a class as there are, one at least. -/
theorem afterRun {member : Char → Bool} {next : List Char × List Char → Option (α × List Char)}
    (taken : Takes grammar whole operand member)
    (follows : ∀ run rest, Markup.run? member text = some (run, rest) →
      Follows grammar whole second stack left stands rest (next (run, rest))) :
    Follows grammar whole (.seq operand.plus second) stack left stands text
      ((Markup.run? member text).bind next) := by
  have parses := taken.plus text stack
  cases found : Markup.run? member text with
  | none =>
      rw [found] at parses
      exact .notFirst parses
  | some pair =>
      rw [found] at parses
      exact seq parses (follows pair.1 pair.2 found)

end Follows

end

end LiveTemplate.Peg
