import LiveTemplate.Proofs.MarkupGrammar

/-! Markup is read exactly as its grammar derives it: each reader has the outcome of its rule, and the
trees that it gives are those that the marks stand for. -/

namespace LiveTemplate.Markup

open Peg (Expression Grammar Marking Mark Match Parses Takes Follows)
open Peg.Expression

variable {whole text : List Char} {stack : List (List Char)}

section Classes

theorem takes_word (c : Char) : Takes grammar whole (.exact [c]) (· == c) :=
  Peg.takes_exact c

theorem takes_otherWord (c : Char) : Takes grammar whole (Rule.other (.exact [c])) (· != c) :=
  (takes_word c).except

theorem takes_space : Takes grammar whole (.call .space) isSpace := by
  refine Takes.call rfl ?_
  have taken : Takes grammar whole _ _ := (takes_word ' ').choice ((takes_word '\t').choice
    ((takes_word '\r').choice ((takes_word '\n').choice (takes_word '\x0c'))))
  exact taken.of_eq fun c => by simp only [isSpace, Bool.or_assoc]

theorem takes_nameChar : Takes grammar whole (.call .nameChar) isNameChar := by
  refine Takes.call rfl ?_
  have taken : Takes grammar whole _ _ :=
    (Peg.takes_char Char.isAlphanum).choice ((takes_word '-').choice ((takes_word '_').choice
      ((takes_word ':').choice (takes_word '.'))))
  exact taken.of_eq fun c => by simp only [isNameChar, Bool.or_assoc]

theorem takes_attributeNameChar : Takes grammar whole
    (Rule.other (oneOf [.call .space, Rule.word "=", Rule.word ">", Rule.word "/", Rule.word "\"",
      Rule.word "'", Rule.word "<"])) isAttributeNameChar := by
  have taken : Takes grammar whole _ _ := takes_space.choice ((takes_word '=').choice ((takes_word '>').choice
    ((takes_word '/').choice ((takes_word '"').choice
      ((takes_word '\'').choice (takes_word '<'))))))
  exact taken.except.of_eq fun c => by simp only [isAttributeNameChar, Bool.or_assoc]

theorem takes_unquotedChar : Takes grammar whole
    (Rule.other (oneOf [.call .space, Rule.word ">", Rule.word "\"", Rule.word "'", Rule.word "=",
      Rule.word "<", Rule.word "\x60"])) isUnquotedChar := by
  have taken : Takes grammar whole _ _ := takes_space.choice ((takes_word '>').choice ((takes_word '"').choice
    ((takes_word '\'').choice ((takes_word '=').choice
      ((takes_word '<').choice (takes_word '\x60'))))))
  exact taken.except.of_eq fun c => by simp only [isUnquotedChar, Bool.or_assoc]

theorem takes_doctypeNameChar : Takes grammar whole
    (Rule.other (oneOf [.call .space, Rule.word ">"])) isDoctypeNameChar :=
  (takes_space.choice (takes_word '>')).except

theorem parses_spaces (text : List Char) :
    Parses grammar whole (.star (.call .space)) text stack (some ⟨[], skipSpace text, stack⟩) :=
  takes_space.star text stack

end Classes

def marked (rule : Rule) (own : List Char) : Tree (Mark Rule) :=
  .node ⟨rule, own⟩ []

section Values

theorem skip?_cons (c : Char) (text : List Char) : skip? [c] (c :: text) = some text := by
  rw [skip?, if_pos rfl, skip?]

theorem skip?_other {c other : Char} (differs : other ≠ c) (text : List Char) :
    skip? [c] (other :: text) = none := by
  rw [skip?, if_neg differs]

theorem run?_shorter {member : Char → Bool} {run rest : List Char}
    (found : run? member text = some (run, rest)) : rest.length < text.length := by
  have split := congrArg List.length (List.takeWhile_append_dropWhile (p := member) (l := text))
  rw [List.length_append] at split
  rw [run?] at found
  split at found
  · cases found
  · rename_i nonempty
    cases found
    have := List.length_pos_iff.mpr nonempty
    omega

theorem value?_eq (text : List Char) :
    value? text = ((skip? ['"'] text).bind (untilQuote? '"') <|>
      (skip? ['\''] text).bind (untilQuote? '\'') <|> run? isUnquotedChar text) := by
  fun_cases value? text
  · rename_i text
    rw [skip?_cons, skip?_other (by decide), run?_none (by rintro c ⟨⟩; decide), Option.bind_some]
    cases untilQuote? '"' text <;> rfl
  · rename_i text
    rw [skip?_cons, skip?_other (by decide), run?_none (by rintro c ⟨⟩; decide), Option.bind_some]
    cases untilQuote? '\'' text <;> rfl
  · rename_i noDouble noSingle
    cases text with
    | nil => rfl
    | cons c text =>
        rw [skip?_other (by rintro rfl; exact noDouble _ rfl),
          skip?_other (by rintro rfl; exact noSingle _ rfl)]
        rfl

def IsValue (marks : List (Tree (Mark Rule))) (value : List Char) : Prop :=
  ∃ rule ∈ [Rule.doubleQuoted, .singleQuoted, .unquoted], marks = [marked rule value]

theorem follows_untilQuote {rule : Rule} {quote : Char} (atomic : grammar.marking rule = .atomic)
    (body : grammar.body rule = .star (Rule.other (.exact [quote])))
    (member : rule ∈ [Rule.doubleQuoted, .singleQuoted, .unquoted]) :
    Follows grammar whole (.seq (.call rule) (.exact [quote])) stack stack IsValue text
      (untilQuote? quote text) := by
  have parses : Parses grammar whole _ _ _ _ := (takes_otherWord quote).star text stack
  rw [← body] at parses
  have call := Parses.call parses List.takeWhile_append_dropWhile.symm
  rw [atomic] at call
  fun_cases untilQuote? quote text
  · rename_i none
    rw [none] at call
    exact .notSecond call (.notExact (by rintro ⟨rest, ⟨⟩⟩))
  · rename_i c rest split
    have same : c = quote := by
      have head := List.head?_dropWhile_not (· != quote) text
      rw [split] at head
      simpa using head
    rw [split, same] at call
    refine ⟨[marked rule (text.takeWhile (· != quote))], ⟨rule, member, rfl⟩, ?_⟩
    exact .seq call (.exact rfl)

theorem follows_value :
    Follows grammar whole (.call .attributeValue) stack stack IsValue text (value? text) := by
  rw [value?_eq]
  refine .call IsValue ?_ fun _ _ _ _ _ _ standing => standing
  refine .choice ?_ (.choice ?_ ?_)
  · exact .afterExact fun _ _ => follows_untilQuote rfl rfl (by decide)
  · exact .afterExact fun _ _ => follows_untilQuote rfl rfl (by decide)
  · refine (Follows.run rfl rfl takes_unquotedChar).mono fun marks value standing => ?_
    exact ⟨.unquoted, by decide, standing⟩

theorem follows_assigned : Follows grammar whole
    (all [.star (.call .space), Rule.word "=", .star (.call .space), .call .attributeValue]) stack stack
    IsValue text (assigned? text) := by
  refine .seq (parses_spaces text) (.afterExact fun rest _ => ?_)
  exact .seq (parses_spaces rest) follows_value

def IsAttribute (marks : List (Tree (Mark Rule))) (entry : Attribute) : Prop :=
  ∃ own inside, marks = [.node ⟨.attributeEntry, own⟩ inside] ∧
    attributeOf? (.node ⟨.attributeEntry, own⟩ inside) = some entry ∧ ClosedAll inside

theorem closed_marked {rule : Rule} (unpaired : rule ≠ .pairedElement) (own : List Char) :
    Closed (marked rule own) :=
  ⟨fun paired => (unpaired paired).elim, trivial⟩

theorem follows_attribute :
    Follows grammar whole (.call .attributeEntry) stack stack IsAttribute text (attribute? text) := by
  rw [attribute?, Option.map_eq_bind]
  refine .call (fun marks entry => ∀ own, IsAttribute [.node ⟨.attributeEntry, own⟩ marks] entry)
    (.bind (.run rfl rfl takes_attributeNameChar) ?_) fun _ _ own _ _ _ standing => standing own
  rintro name rest marks read rfl
  dsimp only [Function.comp]
  have assigned : Follows grammar whole _ stack stack _ rest _ := follows_assigned
  have named : Closed (marked .attributeName name) := closed_marked (by decide) name
  cases value : assigned? rest with
  | none =>
      rw [value] at assigned
      refine ⟨[], fun own => ⟨own, _, rfl, ?_, named, trivial⟩, .otherwise assigned (.exact rfl)⟩
      change some (Attribute.mk _ (String.ofList (Reference.decode []))) = _
      rw [Reference.decode]
      rfl
  | some pair =>
      rw [value] at assigned
      obtain ⟨_, ⟨rule, member, rfl⟩, parses⟩ := assigned
      refine ⟨[marked rule pair.1], fun own => ⟨own, _, rfl, ?_, named, ?_, trivial⟩, .chosen parses⟩
      · revert member
        cases rule <;> first | exact fun _ => rfl | exact fun member => absurd member (by decide)
      · exact closed_marked (by rintro rfl; exact absurd member (by decide)) _

structure AreAttributes (marks : List (Tree (Mark Rule))) (entries : List Attribute) : Prop where
  entries : marks.filterMap attributeOf? = entries
  rules : ∀ mark ∈ marks, mark.label.rule = .attributeEntry
  closed : ClosedAll marks

theorem IsAttribute.cons {first marks : List (Tree (Mark Rule))} {entry : Attribute}
    {entries : List Attribute} (stands : IsAttribute first entry) (later : AreAttributes marks entries) :
    AreAttributes (first ++ marks) (entry :: entries) := by
  obtain ⟨own, inside, rfl, same, closed⟩ := stands
  refine ⟨?_, ?_, ⟨?_, closed⟩, later.closed⟩
  · rw [List.singleton_append, List.filterMap_cons, same, later.entries]
  · intro mark member
    rcases List.mem_cons.mp member with rfl | member
    · rfl
    · exact later.rules mark member
  · rintro ⟨⟩

def spacedAttribute? (text : List Char) : Option (Attribute × List Char) :=
  (run? isSpace text).bind fun (_, rest) => attribute? rest

theorem attributes_succ (limit : Nat) (text : List Char) : attributes (limit + 1) text =
    match spacedAttribute? text with
    | none => ([], text)
    | some (entry, rest) => (entry :: (attributes limit rest).1, (attributes limit rest).2) :=
  rfl

/-- Any limit that is not below the length of a text gives all attributes that there are. -/
theorem parses_attributes (limit : Nat) {text : List Char} (enough : text.length ≤ limit)
    (stack : List (List Char)) :
    ∃ marks, AreAttributes marks (attributes limit text).1 ∧
      Parses grammar whole (.call .attributeList) text stack
        (some ⟨marks, (attributes limit text).2, stack⟩) := by
  suffices ∃ marks, AreAttributes marks (attributes limit text).1 ∧
      Parses grammar whole (grammar.body .attributeList) text stack
        (some ⟨marks, (attributes limit text).2, stack⟩) by
    obtain ⟨marks, are, parses⟩ := this
    obtain ⟨own, _, parses⟩ := parses.mark
    exact ⟨marks, are, parses⟩
  induction limit generalizing text with
  | zero =>
      obtain rfl := List.length_eq_zero_iff.mp (Nat.le_zero.mp enough)
      refine ⟨[], ⟨rfl, by rintro mark ⟨⟩, trivial⟩, .enough (.notFirst ?_)⟩
      exact takes_space.plus [] stack
  | succ limit ih =>
      have first : Follows grammar whole (all [.plus (.call .space), .call .attributeEntry]) stack stack
          IsAttribute text (spacedAttribute? text) :=
        .afterRun takes_space fun _ _ _ => follows_attribute
      rw [attributes_succ]
      split
      · rename_i read
        rw [read] at first
        exact ⟨[], ⟨rfl, by rintro mark ⟨⟩, trivial⟩, .enough first⟩
      · rename_i entry rest read
        rw [read] at first
        obtain ⟨marks, stands, parses⟩ := first
        -- Every attribute has some space before it, so that less is left to be read.
        have shorter : rest.length < text.length := by
          obtain ⟨⟨run, after⟩, spaced, found⟩ := Option.bind_eq_some_iff.mp read
          have follows : Follows grammar whole _ stack stack _ after _ := follows_attribute
          dsimp only at found
          rw [found] at follows
          obtain ⟨_, _, parsed⟩ := follows
          obtain ⟨own, split⟩ := parsed.exists_taken rfl
          have passed := run?_shorter spaced
          rw [split, List.length_append] at passed
          dsimp only at passed
          omega
        have less : rest.length ≤ limit := by omega
        obtain ⟨more, later, moreParses⟩ := ih less
        exact ⟨marks ++ more, stands.cons later, .more parses moreParses⟩

end Values

structure AreNodes (marks : List (Tree (Mark Rule))) (trees : List (Tree Content)) : Prop where
  trees : nodesOf marks = trees
  rules : ∀ mark ∈ marks, mark.label.rule ≠ .attributeEntry
  closed : ClosedAll marks

def IsNode (marks : List (Tree (Mark Rule))) (tree : Tree Content) : Prop :=
  AreNodes marks [tree]

theorem AreNodes.append {marks more : List (Tree (Mark Rule))} {trees others : List (Tree Content)}
    (first : AreNodes marks trees) (later : AreNodes more others) :
    AreNodes (marks ++ more) (trees ++ others) where
  trees := by rw [nodesOf_append, first.trees, later.trees]
  rules := fun mark member =>
    (List.mem_append.mp member).elim (first.rules mark) (later.rules mark)
  closed := closedAll_append first.closed later.closed

theorem isNode_mark {mark : Tree (Mark Rule)} {tree : Tree Content} (stands : nodeOf? mark = some tree)
    (closed : Closed mark) : IsNode [mark] tree where
  trees := by rw [nodesOf, stands, nodesOf]; rfl
  rules := by
    rintro _ member same
    cases List.mem_singleton.mp member
    cases mark with
    | node label inside =>
        rw [Tree.label] at same
        rw [nodeOf?, same] at stands
        cases stands
  closed := ⟨closed, trivial⟩

section Leaves

theorem follows_text : Follows grammar whole (.call .text) stack stack IsNode text (text? text) :=
  have run : Follows grammar whole (.call .text) stack stack _ text _ :=
    .run rfl rfl (takes_otherWord '<')
  run.map _ fun _ run standing => standing ▸ isNode_mark rfl (closed_marked (by decide) run)

theorem parses_commentBody (text : List Char) (stack : List (List Char)) :
    Parses grammar whole (.star (Rule.other (Rule.word "-->"))) text stack
      (some ⟨[], ((untilCommentEnd? text).map fun (_, rest) => "-->".toList ++ rest).getD [], stack⟩) := by
  induction text with
  | nil => exact .enough (.notSecond (.absent (.notExact (by simp))) (.notChar (by rintro c ⟨⟩)))
  | cons c text ih =>
      have ended : Parses grammar whole (Rule.word "-->") (c :: text) stack _ := Peg.parses_exact _ _ _
      rw [untilCommentEnd?]
      cases found : skip? "-->".toList (c :: text) with
      | some rest =>
          rw [found] at ended
          rw [skip?_eq_some_iff.mp found] at ended ⊢
          exact .enough (.notFirst (.notAbsent ended))
      | none =>
          rw [found] at ended
          have one : Parses grammar whole (Rule.other (Rule.word "-->")) (c :: text) stack
              (some ⟨[], text, stack⟩) := .seq (.absent ended) (.char rfl)
          cases later : untilCommentEnd? text with
          | none =>
              rw [later] at ih
              exact .more one ih
          | some pair =>
              rw [later] at ih
              exact .more one ih

theorem untilCommentEnd?_split {body rest : List Char} (found : untilCommentEnd? text = some (body, rest)) :
    text = body ++ ("-->".toList ++ rest) := by
  induction text generalizing body with
  | nil => cases found
  | cons c text ih =>
      rw [untilCommentEnd?] at found
      split at found
      · rename_i ended
        cases found
        rw [List.nil_append]
        exact skip?_eq_some_iff.mp ended
      · obtain ⟨⟨inner, after⟩, later, pair⟩ := Option.map_eq_some_iff.mp found
        cases pair
        rw [ih later, List.cons_append]

theorem follows_commentBody : Follows grammar whole (all [.call .commentBody, Rule.word "-->"]) stack
    stack (fun marks body => marks = [marked .commentBody body]) text (untilCommentEnd? text) := by
  have parses : Parses grammar whole (grammar.body .commentBody) text stack _ :=
    parses_commentBody text stack
  cases found : untilCommentEnd? text with
  | none =>
      rw [found] at parses
      have called := Parses.call parses (List.append_nil text).symm
      exact .notSecond called (.notExact (by rintro ⟨rest, ⟨⟩⟩))
  | some pair =>
      rw [found] at parses
      have called := Parses.call parses (untilCommentEnd?_split found)
      exact ⟨_, rfl, .seq called (.exact rfl)⟩

theorem follows_comment : Follows grammar whole (.call .comment) stack stack IsNode text (comment? text) := by
  refine .call (fun marks tree => ∃ body, marks = [marked .commentBody body] ∧
    tree = .node (.comment (String.ofList body)) []) (.afterExact fun rest _ => ?_) ?_
  · have body : Follows grammar whole _ stack stack _ rest _ := follows_commentBody
    exact body.map (fun body => Tree.node (Content.comment (String.ofList body)) []) fun marks body same =>
      ⟨body, same, rfl⟩
  · rintro _ rest own _ _ _ ⟨body, rfl, rfl⟩
    refine isNode_mark rfl ⟨?_, closed_marked (by decide) body, trivial⟩
    rintro ⟨⟩

theorem follows_doctype : Follows grammar whole (.call .doctype) stack stack IsNode text (doctype? text) := by
  refine .call (fun marks tree => ∃ name, marks = [marked .doctypeName name] ∧
    tree = .node (.doctype (String.ofList name)) []) (.afterExact fun rest _ => ?_) ?_
  · have caseless (answer : Option (Tree Content × List Char)) :
        (if ((rest.take 7).map Char.toLower == "doctype".toList) = true then answer else none) =
          if Peg.lower (rest.take 7) = Peg.lower "doctype".toList then answer else none := by
      simp only [Peg.lower, beq_iff_eq]
      rfl
    rw [caseless]
    refine .afterCaseless (.afterRun takes_space fun _ after _ => ?_)
    refine .bind (.run rfl rfl takes_doctypeNameChar) ?_
    rintro name after _ _ rfl
    exact .seq (parses_spaces after) (.exact _ ⟨name, rfl, rfl⟩)
  · rintro _ rest own _ _ _ ⟨name, rfl, rfl⟩
    refine isNode_mark rfl ⟨?_, closed_marked (by decide) name, trivial⟩
    rintro ⟨⟩

end Leaves

section Names

def tagName? (text : List Char) : Option (List Char × List Char) :=
  if text.head?.any Char.isAlpha = true then some (text.takeWhile isNameChar, text.dropWhile isNameChar)
  else none

def voidName? (text : List Char) : Option (List Char × List Char) :=
  if isVoidElement (String.ofList (text.takeWhile isNameChar)) = true then
    some (text.takeWhile isNameChar, text.dropWhile isNameChar)
  else none

theorem isAlpha_of_toLower {c : Char} (alpha : c.toLower.isAlpha = true) : c.isAlpha = true := by
  by_cases upper : c.isUpper = true
  · change (c.isUpper || c.isLower) = true
    rw [upper, Bool.true_or]
  · have same : c.toLower = c := by
      unfold Char.toLower
      split
      · rename_i inside
        exact absurd (decide_eq_true inside) upper
      · rfl
    rwa [same] at alpha

theorem isNameChar_of_isAlpha {c : Char} (alpha : c.isAlpha = true) : isNameChar c = true := by
  simp [isNameChar, Char.isAlphanum, alpha]

theorem follows_tagName : Follows grammar whole (.call .tagName) stack stack
    (fun marks name => marks = [marked .tagName name]) text (tagName? text) := by
  rw [tagName?]
  cases text with
  | nil => exact .notCall (.notFirst (.notChar (by rintro c ⟨⟩)))
  | cons c text =>
      split
      · rename_i alpha
        have alpha : c.isAlpha = true := by simpa using alpha
        have parses : Parses grammar whole (grammar.body .tagName) (c :: text) stack _ :=
          .seq (.char alpha) (takes_nameChar.star text stack)
        have inside := isNameChar_of_isAlpha alpha
        rw [List.takeWhile_cons_of_pos inside, List.dropWhile_cons_of_pos inside]
        refine ⟨_, rfl, .call parses ?_⟩
        rw [List.cons_append, List.takeWhile_append_dropWhile]
      · rename_i other
        refine .notCall (.notFirst (.notChar ?_))
        rintro _ ⟨⟩
        simpa using other

/-- Of several words, the first that stands at the front of the text is taken. -/
theorem parses_oneOf_caseless (words : List String) (text : List Char) (stack : List (List Char)) :
    (∃ word ∈ words, ∃ own rest, text = own ++ rest ∧ Peg.lower own = Peg.lower word.toList ∧
      Parses grammar whole (oneOf (words.map fun word => .caseless word.toList)) text stack
        (some ⟨[], rest, stack⟩)) ∨
    ((∀ word ∈ words, ¬ Peg.lower word.toList <+: Peg.lower text) ∧
      Parses grammar whole (oneOf (words.map fun word => .caseless word.toList)) text stack none) := by
  have one (word : String) : (∃ own rest, text = own ++ rest ∧ Peg.lower own = Peg.lower word.toList ∧
      Parses grammar whole (.caseless word.toList) text stack (some ⟨[], rest, stack⟩)) ∨
      (¬ Peg.lower word.toList <+: Peg.lower text ∧
        Parses grammar whole (.caseless word.toList) text stack none) := by
    by_cases front : Peg.lower word.toList <+: Peg.lower text
    · obtain ⟨after, split⟩ := front
      obtain ⟨own, rest, rfl, same, _⟩ := List.map_eq_append_iff.mp split.symm
      exact .inl ⟨own, rest, rfl, same, .caseless rfl same⟩
    · exact .inr ⟨front, .notCaseless front⟩
  induction words with
  | nil => exact .inr ⟨by rintro word ⟨⟩, .notChar fun _ _ => rfl⟩
  | cons word words ih =>
      cases words with
      | nil =>
          rcases one word with ⟨own, rest, split, same, parses⟩ | ⟨apart, fails⟩
          · exact .inl ⟨word, by simp, own, rest, split, same, parses⟩
          · exact .inr ⟨by simpa using apart, fails⟩
      | cons next words =>
          rcases one word with ⟨own, rest, split, same, parses⟩ | ⟨apart, fails⟩
          · exact .inl ⟨word, by simp, own, rest, split, same, .chosen parses⟩
          · rcases ih with ⟨other, member, own, rest, split, same, parses⟩ | ⟨allApart, allFail⟩
            · exact .inl ⟨other, by simp [member], own, rest, split, same, .otherwise fails parses⟩
            · exact .inr ⟨List.forall_mem_cons.mpr ⟨apart, allApart⟩, .otherwise fails allFail⟩

theorem voidNames_lower : ∀ name ∈ Rule.voidNames, Peg.lower name.toList = name.toList := by
  decide

theorem voidNames_letters : ∀ name ∈ Rule.voidNames, name.toList ≠ [] ∧
    name.toList.all Char.isAlpha = true := by
  decide

theorem voidNames_prefixFree : ∀ first ∈ Rule.voidNames, ∀ second ∈ Rule.voidNames,
    first.toList.isPrefixOf second.toList = true → first = second := by
  decide

theorem isVoidElement_iff (name : List Char) :
    isVoidElement (String.ofList name) = true ↔ ∃ word ∈ Rule.voidNames, Peg.lower name = word.toList := by
  rw [isVoidElement, List.any_eq_true]
  refine exists_congr fun word => and_congr_right fun member => ?_
  rw [sameTag, beq_iff_eq, String.toList_ofList]
  change Peg.lower name = Peg.lower word.toList ↔ _
  rw [voidNames_lower word member]

theorem isAlpha_of_lower {name : List Char} {word : String} (member : word ∈ Rule.voidNames)
    (same : Peg.lower name = word.toList) : ∀ c ∈ name, c.isAlpha = true := by
  intro c inside
  refine isAlpha_of_toLower ?_
  have letters := List.all_eq_true.mp (voidNames_letters word member).2
  exact letters _ (same ▸ List.mem_map_of_mem inside)

theorem void_unique {first second : String} (firstMember : first ∈ Rule.voidNames)
    (secondMember : second ∈ Rule.voidNames) (firstFront : first.toList <+: text)
    (secondFront : second.toList <+: text) : first = second := by
  rcases List.prefix_or_prefix_of_prefix firstFront secondFront with shorter | longer
  · exact voidNames_prefixFree first firstMember second secondMember (List.isPrefixOf_iff_prefix.mpr shorter)
  · exact (voidNames_prefixFree second secondMember first firstMember
      (List.isPrefixOf_iff_prefix.mpr longer)).symm

theorem follows_voidName : Follows grammar whole (.call .voidName) stack stack
    (fun marks name => marks = [marked .voidName name]) text (voidName? text) := by
  have front := (List.takeWhile_append_dropWhile (p := isNameChar) (l := text)).symm
  rw [voidName?]
  rcases parses_oneOf_caseless Rule.voidNames text stack with
    ⟨word, member, own, rest, split, same, parses⟩ | ⟨apart, fails⟩
  · rw [voidNames_lower word member] at same
    split
    · rename_i void
      obtain ⟨other, otherMember, lowered⟩ := (isVoidElement_iff _).mp void
      have wordFront : word.toList <+: Peg.lower text := by
        rw [← same, split]
        exact (List.prefix_append own rest).map Char.toLower
      have otherFront : other.toList <+: Peg.lower text := by
        rw [← lowered]
        exact (List.takeWhile_prefix isNameChar).map Char.toLower
      obtain rfl := void_unique member otherMember wordFront otherFront
      have long := congrArg List.length (same.trans lowered.symm)
      rw [Peg.lower, Peg.lower, List.length_map, List.length_map] at long
      obtain ⟨ownEq, restEq⟩ := List.append_inj (split.symm.trans front) long
      rw [restEq] at parses
      have ended : ∀ c, (text.dropWhile isNameChar).head? = some c → isNameChar c = false := by
        intro c head
        have stop := List.head?_dropWhile_not isNameChar text
        rw [head] at stop
        simpa using stop
      have inside : Parses grammar whole (grammar.body .voidName) text stack
          (some ⟨[], text.dropWhile isNameChar, stack⟩) :=
        .seq parses (.absent (takes_nameChar.refuses ended))
      exact ⟨_, rfl, .call inside front⟩
    · rename_i other
      refine .notCall (.notSecond parses ?_)
      -- Else the word would be the whole name.
      have inside c member_ := isNameChar_of_isAlpha (isAlpha_of_lower member same c member_)
      have runsOn : ¬ ∀ c, rest.head? = some c → isNameChar c = false := by
        intro ended
        refine other ((isVoidElement_iff _).mpr ⟨word, member, ?_⟩)
        rw [split, takeWhile_append_stop inside ended, same]
      cases rest with
      | nil => exact absurd (by rintro c ⟨⟩) runsOn
      | cons c rest =>
          refine .notAbsent (takes_nameChar.takes ?_)
          by_contra outside
          refine runsOn ?_
          rintro _ ⟨⟩
          exact Bool.eq_false_iff.mpr outside
  · split
    · rename_i void
      obtain ⟨word, member, lowered⟩ := (isVoidElement_iff _).mp void
      refine absurd ?_ (apart word member)
      rw [voidNames_lower word member, ← lowered]
      exact (List.takeWhile_prefix isNameChar).map Char.toLower
    · exact .notCall (.notFirst fails)

end Names

section Elements

def elementWith (name : List Char) (entries : List Attribute) (children : List (Tree Content)) :
    Tree Content :=
  .node (.element (String.ofList (name.map Char.toLower)) (collect entries)) children

def childless? (name? : List Char → Option (List Char × List Char)) (close text : List Char) :
    Option (Tree Content × List Char) :=
  (skip? ['<'] text).bind fun rest =>
    (name? rest).bind fun (name, rest) =>
      (skip? close (skipSpace (attributes rest.length rest).2)).map fun after =>
        (elementWith name (attributes rest.length rest).1 [], after)

def paired? (inside : List Char → List (Tree Content) × List Char) (text : List Char) :
    Option (Tree Content × List Char) :=
  (skip? ['<'] text).bind fun rest =>
    (tagName? rest).bind fun (name, rest) =>
      (skip? ['>'] (skipSpace (attributes rest.length rest).2)).bind fun opened =>
        (closingTag? name (inside opened).2).map fun after =>
          (elementWith name (attributes rest.length rest).1 (inside opened).1, after)

theorem attributes_limit {limit : Nat} (enough : text.length ≤ limit) :
    attributes limit text = attributes text.length text := by
  obtain ⟨marks, are, parses⟩ := @parses_attributes text limit _ enough []
  obtain ⟨others, areToo, parsesToo⟩ := @parses_attributes text _ _ (Nat.le_refl text.length) []
  have same := Option.some.inj (parses.unique parsesToo)
  have marksEq : marks = others := congrArg Match.marks same
  have restEq : (attributes limit text).2 = (attributes text.length text).2 := congrArg Match.rest same
  exact Prod.ext (by rw [← are.entries, ← areToo.entries, marksEq]) restEq

theorem voidName?_eq (text : List Char) : voidName? text = (tagName? text).bind fun (name, rest) =>
    if isVoidElement (String.ofList name) = true then some (name, rest) else none := by
  rw [voidName?, tagName?]
  by_cases alpha : text.head?.any Char.isAlpha = true
  · rw [if_pos alpha, Option.bind_some]
  · rw [if_neg alpha, Option.bind_none, if_neg]
    intro void
    obtain ⟨word, member, lowered⟩ := (isVoidElement_iff _).mp void
    have letters := isAlpha_of_lower member lowered
    cases text with
    | nil => exact (voidNames_letters word member).1 lowered.symm
    | cons c text =>
        by_cases inside : isNameChar c = true
        · rw [List.takeWhile_cons_of_pos inside] at letters
          exact alpha (by simpa using letters c (by simp))
        · rw [List.takeWhile_cons_of_neg inside] at lowered
          exact (voidNames_letters word member).1 lowered.symm

theorem openingTag?_eq (text : List Char) : openingTag? text = (tagName? text).bind fun (name, rest) =>
    match skipSpace (attributes rest.length rest).2 with
    | '/' :: '>' :: after => some (⟨name, collect (attributes rest.length rest).1, true⟩, after)
    | '>' :: after => some (⟨name, collect (attributes rest.length rest).1, false⟩, after)
    | _ => none := by
  cases text with
  | nil => rfl
  | cons c text =>
      have enough := (List.dropWhile_suffix isNameChar (l := c :: text)).length_le
      rw [openingTag?, tagName?]
      by_cases alpha : c.isAlpha = true
      · rw [if_pos alpha, if_pos (by simpa using alpha), Option.bind_some]
        exact attributes_limit enough ▸ rfl
      · rw [if_neg alpha, if_neg (by simpa using alpha), Option.bind_none]

theorem element?_eq (inside : List Char → List (Tree Content) × List Char) (text : List Char) :
    element? inside text = (childless? tagName? ['/', '>'] text <|>
      childless? voidName? ['>'] text <|> paired? inside text) := by
  simp only [element?, childless?, paired?, openingTag?_eq, voidName?_eq]
  cases skip? ['<'] text with
  | none => rfl
  | some rest =>
      simp only [Option.bind_some]
      cases tagName? rest with
      | none => rfl
      | some pair =>
          obtain ⟨name, after⟩ := pair
          simp only [Option.bind_some]
          split
          · rename_i tail ended
            simp [ended, skip?, elementWith]
          · rename_i tail ended
            have slash : skip? ['/', '>'] ('>' :: tail) = none := rfl
            rw [ended, slash]
            cases void : isVoidElement (String.ofList name) with
            | true => simp [void, ended, skip?, elementWith]
            | false => simp [void, skip?, elementWith]
          · rename_i noSlash noBracket
            have slash : skip? ['/', '>'] (skipSpace (attributes after.length after).2) = none := by
              rw [Option.eq_none_iff_forall_not_mem]
              intro tail found
              exact noSlash tail (skip?_eq_some_iff.mp found)
            have bracket : skip? ['>'] (skipSpace (attributes after.length after).2) = none := by
              rw [Option.eq_none_iff_forall_not_mem]
              intro tail found
              exact noBracket tail (skip?_eq_some_iff.mp found)
            rw [slash, bracket]
            cases void : isVoidElement (String.ofList name) with
            | true => simp [bracket]
            | false => simp

def IsElement (rule : Rule) (name : List Char) (marks : List (Tree (Mark Rule))) (tree : Tree Content) :
    Prop :=
  ∃ attrs inner entries children, marks = marked rule name :: (attrs ++ inner) ∧
    AreAttributes attrs entries ∧ AreNodes inner children ∧ tree = elementWith name entries children

theorem nodesOf_attributes {marks : List (Tree (Mark Rule))}
    (rules : ∀ mark ∈ marks, mark.label.rule = .attributeEntry) : nodesOf marks = [] := by
  induction marks with
  | nil => rfl
  | cons mark marks ih =>
      obtain ⟨first, later⟩ := List.forall_mem_cons.mp rules
      cases mark with
      | node label inside =>
          rw [Tree.label] at first
          rw [nodesOf, nodeOf?, first, ih later]
          rfl

theorem filterMap_attributeOf? {marks : List (Tree (Mark Rule))}
    (rules : ∀ mark ∈ marks, mark.label.rule ≠ .attributeEntry) : marks.filterMap attributeOf? = [] := by
  rw [List.filterMap_eq_nil_iff]
  intro mark member
  cases mark with
  | node label inside => exact if_neg (rules _ member)

namespace IsElement

variable {rule : Rule} {name : List Char} {marks : List (Tree (Mark Rule))} {tree : Tree Content}

theorem elementOf_eq (element : IsElement rule name marks tree) (named : rule ∈ [.tagName, .voidName]) :
    elementOf marks (nodesOf marks) = tree := by
  obtain ⟨attrs, inner, entries, children, rfl, are, nodes, rfl⟩ := element
  have first : rule ≠ .attributeEntry ∧ nodeOf? (marked rule name) = none := by
    rcases List.mem_pair.mp named with rfl | rfl
    · exact ⟨by decide, rfl⟩
    · exact ⟨by decide, rfl⟩
  have nameEq : taken [.tagName, .voidName] (marked rule name :: (attrs ++ inner)) = name := by
    rw [taken, List.find?_cons_of_pos (by simpa [marked, Tree.label] using named)]
    rfl
  have attributesEq : attributesOf (marked rule name :: (attrs ++ inner)) = collect entries := by
    have other : attributeOf? (marked rule name) = none := if_neg first.1
    rw [attributesOf, List.filterMap_cons_none other, List.filterMap_append, are.entries,
      filterMap_attributeOf? nodes.rules, List.append_nil, Attribute.collect_eq_merged]
  have nodesEq : nodesOf (marked rule name :: (attrs ++ inner)) = children := by
    rw [nodesOf, first.2, nodesOf_append, nodesOf_attributes are.rules, nodes.trees]
    rfl
  rw [elementOf, nameEq, attributesEq, nodesEq]
  rfl

theorem closedAll (element : IsElement rule name marks tree) (unpaired : rule ≠ .pairedElement) :
    ClosedAll marks := by
  obtain ⟨attrs, inner, entries, children, rfl, are, nodes, rfl⟩ := element
  exact ⟨closed_marked unpaired name, closedAll_append are.closed nodes.closed⟩

end IsElement

theorem AreNodes.nil : AreNodes [] [] :=
  ⟨rfl, by rintro mark ⟨⟩, trivial⟩

theorem follows_childless {rule nameRule : Rule} {name? : List Char → Option (List Char × List Char)}
    {close : List Char} (plain : grammar.marking rule = .plain)
    (body : grammar.body rule = all [Rule.word "<", .call nameRule, .call .attributeList,
      .star (.call .space), .exact close])
    (form : rule = .selfClosing ∨ rule = .voidElement) (named : nameRule ∈ [.tagName, .voidName])
    (names : ∀ {text stack}, Follows grammar whole (.call nameRule) stack stack
      (fun marks name => marks = [marked nameRule name]) text (name? text)) :
    Follows grammar whole (.call rule) stack stack IsNode text (childless? name? close text) := by
  refine .call (fun marks tree => ∃ name, IsElement nameRule name marks tree) ?_ ?_
  · rw [body]
    refine .afterExact fun rest _ => .bind names ?_
    rintro name after _ _ rfl
    obtain ⟨attrs, are, parses⟩ := parses_attributes after.length (Nat.le_refl _) stack
    refine .seq parses (.seq (parses_spaces _) (.exact close ⟨name, attrs, [], _, [], ?_, are, .nil, rfl⟩))
    rfl
  · rintro tree rest own marks _ _ ⟨name, element⟩
    rw [plain]
    have unpaired : nameRule ≠ .pairedElement := by
      rintro rfl
      exact absurd named (by decide)
    refine isNode_mark ?_ ⟨?_, element.closedAll unpaired⟩
    · rw [nodeOf?]
      rcases form with rfl | rfl
      · exact congrArg some (element.elementOf_eq named)
      · exact congrArg some (element.elementOf_eq named)
    · rintro rfl
      rcases form with ⟨⟨⟩⟩ | ⟨⟨⟩⟩

def ReadsNodes (whole : List Char) (inside : List Char → List (Tree Content) × List Char)
    (text : List Char) : Prop :=
  ∀ stack, ∃ marks, AreNodes marks (inside text).1 ∧
    Parses grammar whole (.star (.call .node)) text stack (some ⟨marks, (inside text).2, stack⟩)

theorem ReadsNodes.suffix {inside : List Char → List (Tree Content) × List Char}
    (reads : ReadsNodes whole inside text) : (inside text).2 <:+ text := by
  obtain ⟨marks, _, parses⟩ := reads []
  obtain ⟨own, split⟩ := parses.exists_taken rfl
  exact ⟨own, split.symm⟩

theorem attributes_suffix (text : List Char) : (attributes text.length text).2 <:+ text := by
  obtain ⟨marks, _, parses⟩ := @parses_attributes text _ _ (Nat.le_refl text.length) []
  obtain ⟨own, split⟩ := parses.exists_taken rfl
  exact ⟨own, split.symm⟩

theorem tagName?_eq_some {name rest : List Char} (found : tagName? text = some (name, rest)) :
    text = name ++ rest := by
  rw [tagName?] at found
  split at found
  · cases found
    exact List.takeWhile_append_dropWhile.symm
  · cases found

theorem closingTag?_eq_some {name rest : List Char} (found : closingTag? name text = some rest) :
    ∃ space, (∀ c ∈ space, isSpace c = true) ∧ text = "</".toList ++ name ++ space ++ ['>'] ++ rest := by
  simp only [closingTag?, Option.bind_eq_some_iff, skip?_eq_some_iff] at found
  obtain ⟨afterSlash, rfl, afterName, rfl, ended⟩ := found
  refine ⟨afterName.takeWhile isSpace, List.all_eq_true.mp List.all_takeWhile, ?_⟩
  have spaces := (List.takeWhile_append_dropWhile (p := isSpace) (l := afterName)).symm
  rw [skipSpace] at ended
  rw [ended] at spaces
  simpa using spaces

theorem opened_split {opened name after inner : List Char} (named : tagName? opened = some (name, after))
    (bracket : skipSpace (attributes after.length after).2 = ['>'] ++ inner) :
    ∃ between, opened = name ++ between ++ ['>'] ++ inner := by
  obtain ⟨first, firstSplit⟩ := attributes_suffix after
  have second := List.dropWhile_suffix isSpace (l := (attributes after.length after).2)
  rw [skipSpace] at bracket
  rw [bracket] at second
  obtain ⟨second, secondSplit⟩ := second
  refine ⟨first ++ second, ?_⟩
  rw [tagName?_eq_some named, ← firstSplit, ← secondSplit]
  simp

theorem paired?_eq_some {inside : List Char → List (Tree Content) × List Char} {tree : Tree Content}
    {rest : List Char} (reads : ∀ inner, inner.length < text.length → ReadsNodes whole inside inner)
    (found : paired? inside text = some (tree, rest)) :
    ∃ name after between space, tagName? (text.drop 1) = some (name, after) ∧
      (∀ c ∈ space, isSpace c = true) ∧
      text = ['<'] ++ name ++ between ++ "</".toList ++ name ++ space ++ ['>'] ++ rest := by
  simp only [paired?, Option.bind_eq_some_iff, Option.map_eq_some_iff, Prod.mk.injEq,
    skip?_eq_some_iff] at found
  obtain ⟨opened, rfl, ⟨name, after⟩, named, inner, bracket, ended, closed, _, rfl⟩ := found
  obtain ⟨between, split⟩ := opened_split named bracket
  have shorter : inner.length < (['<'] ++ opened).length := by
    simp only [split, List.length_append, List.length_cons]
    omega
  obtain ⟨nodes, nodesSplit⟩ := (reads inner shorter).suffix
  obtain ⟨space, spaces, closing⟩ := closingTag?_eq_some closed
  refine ⟨name, after, between ++ ['>'] ++ nodes, space, named, spaces, ?_⟩
  rw [split, ← nodesSplit, closing]
  simp

theorem follows_closing {tree : Tree Content} {name : List Char}
    {stands : List (Tree (Mark Rule)) → Tree Content → Prop} (standing : stands [] tree) :
    Follows grammar whole (all [Rule.word "</", .pop, .star (.call .space), Rule.word ">"]) (name :: stack)
      stack stands text ((closingTag? name text).map fun rest => (tree, rest)) := by
  rw [closingTag?, Option.map_bind]
  refine .afterExact fun rest _ => ?_
  dsimp only [Function.comp]
  rw [Option.map_bind]
  exact .afterPop fun rest _ => .seq (parses_spaces rest) (.exact _ standing)

theorem follows_paired {inside : List Char → List (Tree Content) × List Char}
    (reads : ∀ inner, inner.length < text.length → ReadsNodes whole inside inner) :
    Follows grammar whole (.call .pairedElement) stack stack IsNode text (paired? inside text) := by
  refine .call (fun marks tree => ∃ name rest, tagName? (text.drop 1) = some (name, rest) ∧
    IsElement .tagName name marks tree) ?_ ?_
  · refine .afterExact fun rest split => ?_
    have names : Follows grammar whole (.call .tagName) stack stack _ rest _ := follows_tagName
    cases named : tagName? rest with
    | none =>
        rw [named] at names
        exact .notFirst (.notPush names)
    | some pair =>
        obtain ⟨name, after⟩ := pair
        rw [named] at names
        obtain ⟨_, rfl, parses⟩ := names
        obtain ⟨attrs, are, parsesAttrs⟩ :=
          @parses_attributes whole after.length after (Nat.le_refl _) (name :: stack)
        -- The name is kept on the stack while the content is read, for the closing tag to take it.
        have pushed := Parses.push parses (tagName?_eq_some named)
        refine .seq pushed (.seq parsesAttrs (.seq (parses_spaces _) (.afterExact fun inner opened => ?_)))
        obtain ⟨between, parts⟩ := opened_split named opened
        have shorter : inner.length < text.length := by
          simp only [split, parts, List.length_append, List.length_cons]
          omega
        obtain ⟨nodes, areNodes, parsesNodes⟩ := reads inner shorter (name :: stack)
        refine .seq parsesNodes (follows_closing ⟨name, after, ?_, attrs, nodes, _, _, ?_, are, areNodes, rfl⟩)
        · rw [split]
          exact named
        · simp [marked]
  · rintro tree rest own marks read split ⟨name, after, named, element⟩
    obtain ⟨other, _, between, space, found, spaces, parts⟩ := paired?_eq_some reads read
    rw [named] at found
    cases found
    refine isNode_mark (congrArg some (element.elementOf_eq (by decide))) ⟨?_, element.closedAll (by decide)⟩
    refine fun _ => ⟨between, space, spaces, ?_⟩
    have nameEq : taken [.tagName] marks = name := by
      obtain ⟨attrs, inner, entries, children, rfl, _⟩ := element
      rfl
    rw [nameEq]
    exact List.append_cancel_right (split.symm.trans parts)

theorem follows_element {inside : List Char → List (Tree Content) × List Char}
    (reads : ∀ inner, inner.length < text.length → ReadsNodes whole inside inner) :
    Follows grammar whole (.call .element) stack stack IsNode text (element? inside text) := by
  rw [element?_eq]
  refine .call IsNode (.choice ?_ (.choice ?_ (follows_paired reads))) fun _ _ _ _ _ _ node => node
  · exact follows_childless rfl rfl (.inl rfl) (by decide) follows_tagName
  · exact follows_childless rfl rfl (.inr rfl) (by decide) follows_voidName

theorem follows_node {inside : List Char → List (Tree Content) × List Char}
    (reads : ∀ inner, inner.length < text.length → ReadsNodes whole inside inner) :
    Follows grammar whole (.call .node) stack stack IsNode text (node? inside text) :=
  .call IsNode (.choice follows_comment (.choice follows_doctype
    (.choice (follows_element reads) follows_text))) fun _ _ _ _ _ _ node => node

end Elements

theorem consumes_node : Peg.Consumes grammar whole (.call .node) := by
  have word {first : List Char} {rest : Expression Rule} (nonempty : first ≠ []) :
      Peg.Consumes grammar whole (.seq (.exact first) rest) := .left (.exact nonempty)
  have element : Peg.Consumes grammar whole (.call .element) :=
    .call (.choice (.call (word (by decide))) (.choice (.call (word (by decide))) (.call (word (by decide)))))
  have text : Peg.Consumes grammar whole (.call .text) := .call (.left (.right (.char _)))
  exact .call (.choice (.call (word (by decide))) (.choice (.call (word (by decide)))
    (.choice element text)))

-- The induction is on the limit: the nodes inside an element are read with a smaller one.
theorem readsNodes (whole : List Char) (limit : Nat) {text : List Char} (enough : text.length ≤ limit) :
    ReadsNodes whole (nodes limit) text := by
  induction limit generalizing text with
  | zero =>
      intro stack
      obtain rfl := List.length_eq_zero_iff.mp (Nat.le_zero.mp enough)
      have follows : Follows grammar whole (.call .node) stack stack IsNode [] (node? (nodes 0) []) :=
        follows_node fun inner shorter => absurd shorter (Nat.not_lt_zero _)
      have ended : node? (nodes 0) [] = none := rfl
      rw [ended] at follows
      exact ⟨[], .nil, .enough follows⟩
  | succ limit ih =>
      intro stack
      have follows : Follows grammar whole (.call .node) stack stack IsNode text (node? (nodes limit) text) :=
        follows_node fun inner shorter => ih (by omega)
      rw [nodes]
      cases found : node? (nodes limit) text with
      | none =>
          rw [found] at follows
          exact ⟨[], .nil, .enough follows⟩
      | some pair =>
          rw [found] at follows
          obtain ⟨tree, rest⟩ := pair
          obtain ⟨marks, node, parses⟩ := follows
          have shorter : rest.length < text.length := consumes_node _ _ _ parses
          have less : rest.length ≤ limit := by omega
          obtain ⟨more, nodes, later⟩ := ih less stack
          exact ⟨marks ++ more, node.append nodes, .more parses later⟩

theorem read?_outcome (text : List Char) :
    (∀ trees, read? text = some trees → ∃ marks, Peg.Derives grammar .fragment text marks ∧
      nodesOf marks = [.node .fragment trees] ∧ ClosedAll marks) ∧
    (read? text = none → Parses grammar text (.call .fragment) text [] none) := by
  obtain ⟨marks, nodes, parses⟩ := readsNodes text text.length (Nat.le_refl _) []
  rw [read?]
  split
  · rename_i trees read
    rw [read] at nodes parses
    refine ⟨?_, by rintro ⟨⟩⟩
    rintro _ ⟨⟩
    have stop : Parses grammar text (grammar.body .finish) [] [] (some ⟨[], [], []⟩) := .stop rfl
    have finish : Parses grammar text (.call .finish) [] [] (some ⟨[marked .finish []], [], []⟩) :=
      .call stop (List.append_nil []).symm
    have body : Parses grammar text (grammar.body .fragment) text []
        (some ⟨marks ++ [marked .finish []], [], []⟩) := .seq (.start rfl) (.seq parses finish)
    refine ⟨_, .call body (List.append_nil text).symm, ?_, ⟨?_, ?_⟩, trivial⟩
    · change [Tree.node Content.fragment (nodesOf (marks ++ [marked .finish []]))] = _
      rw [nodesOf_append, nodes.trees]
      change [Tree.node Content.fragment (trees ++ [])] = _
      rw [List.append_nil]
    · rintro ⟨⟩
    · exact closedAll_append nodes.closed ⟨closed_marked (by decide) [], trivial⟩
  · rename_i incomplete
    refine ⟨by rintro trees ⟨⟩, fun _ => .notCall (.notSecond (.start rfl) (.notSecond parses ?_))⟩
    refine .notCall (.notStop fun ended => incomplete _ (Prod.ext rfl ended))

end LiveTemplate.Markup

namespace LiveTemplate.Document

open Markup (grammar nodesOf ClosedAll)

/-- A text is read as markup exactly if its grammar derives it as a whole, and refused exactly if the
grammar fails. What is read is the tree that the derivation stands for, and every paired element of the
derivation ends with the very name that it starts with. -/
theorem read?_iff_derives {document : Document} (wellFormed : document.WellFormed) (markup : String) :
    ((document.read? markup).isSome = true ↔
      ∃ marks, Peg.Derives grammar .fragment markup.toList marks) ∧
    (document.read? markup = none ↔
      Peg.Parses grammar markup.toList (.call .fragment) markup.toList [] none) ∧
    ∀ marks, Peg.Derives grammar .fragment markup.toList marks →
      ClosedAll marks ∧ ∃ fragment result, document.read? markup = some (fragment, result) ∧
        nodesOf marks = [result.tree fragment] ∧ result.Extends document := by
  obtain ⟨accepts, refuses⟩ := Markup.read?_outcome markup.toList
  cases read : Markup.read? markup.toList with
  | none =>
      have refused : document.read? markup = none := by rw [Document.read?, read]; rfl
      have fails := refuses read
      have underivable : ¬ ∃ marks, Peg.Derives grammar .fragment markup.toList marks := by
        rintro ⟨marks, derives⟩
        cases fails.unique derives
      rw [refused]
      refine ⟨⟨by rintro ⟨⟩, fun derived => (underivable derived).elim⟩, ⟨fun _ => fails, fun _ => rfl⟩, ?_⟩
      exact fun marks derives => (underivable ⟨marks, derives⟩).elim
  | some trees =>
      obtain ⟨marks, derives, stands, closed⟩ := accepts trees read
      have accepted : document.read? markup = some (document.graft (.node .fragment trees)) := by
        rw [Document.read?, read]; rfl
      rw [accepted]
      refine ⟨⟨fun _ => ⟨marks, derives⟩, fun _ => rfl⟩, ⟨by rintro ⟨⟩, ?_⟩, ?_⟩
      · intro fails
        cases fails.unique derives
      · intro others also
        have same : marks = others := congrArg Peg.Match.marks (Option.some.inj (derives.unique also))
        subst same
        refine ⟨closed, _, _, rfl, ?_, extends_graft document _⟩
        rw [stands]
        exact congrArg (fun tree => [tree]) (tree_graft wellFormed (Markup.plantable_read read)).symm

theorem derives_grouped : ∃ marks, Peg.Derives grammar .fragment
    "<!DocType x><P a=1 B a = '&lt;'/><colgroup><br>&amp;<!-- - --></colgroup >".toList marks :=
  (read?_iff_derives wellFormed_new _).1.mp (by decide +kernel)

end LiveTemplate.Document
