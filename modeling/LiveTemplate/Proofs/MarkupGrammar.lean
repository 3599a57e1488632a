import LiveTemplate.Proofs.ParsingExpressions

/-! The grammar of markup, the trees that its derivations stand for, and that markup is read exactly as
the grammar derives it. -/

namespace LiveTemplate

namespace Attribute

def lastValue (entry : Attribute) (rest : List Attribute) : String :=
  ((rest.filter fun other => other.name.agrees entry.name).getLast?.getD entry).value

def isOther (entry other : Attribute) : Bool :=
  !other.name.agrees entry.name

def merged : List Attribute → List Attribute
  | [] => []
  | entry :: rest => ⟨entry.name, lastValue entry rest⟩ :: (merged rest).filter (isOther entry)

theorem lastValue_cons_of_agrees {entry other : Attribute} (same : other.name.agrees entry.name = true)
    (rest : List Attribute) : lastValue entry (other :: rest) = lastValue ⟨entry.name, other.value⟩ rest := by
  simp only [lastValue, List.filter_cons, same, if_true, List.getLast?_cons, Option.getD_some]
  cases (rest.filter fun after => after.name.agrees entry.name).getLast? <;> rfl

theorem lastValue_cons_of_differs {entry other : Attribute} (differs : ¬ other.name.agrees entry.name = true)
    (rest : List Attribute) : lastValue entry (other :: rest) = lastValue entry rest := by
  simp only [lastValue, List.filter_cons, differs]
  rfl

theorem lastValue_filter {entry other : Attribute} (apart : isOther entry other = true)
    (rest : List Attribute) : lastValue other (rest.filter (isOther entry)) = lastValue other rest := by
  have inside : ∀ after ∈ rest, (after.name.agrees other.name && isOther entry after) =
      after.name.agrees other.name := by
    intro after _
    cases same : after.name.agrees other.name with
    | false => rfl
    | true =>
        simp only [isOther, Bool.not_eq_true', Bool.true_and] at apart ⊢
        rw [← Bool.not_eq_true] at apart ⊢
        rw [AttributeName.agrees_comm] at same
        exact fun both => apart (AttributeName.agrees_trans same both)
  rw [lastValue, List.filter_filter, List.filter_congr inside]
  rfl

theorem merged_filter (entry : Attribute) (entries : List Attribute) :
    merged (entries.filter (isOther entry)) = (merged entries).filter (isOther entry) := by
  induction entries with
  | nil => rfl
  | cons other rest ih =>
      cases apart : isOther entry other with
      | true =>
          rw [List.filter_cons_of_pos apart, merged, merged, List.filter_cons_of_pos (by exact apart), ih,
            lastValue_filter apart, List.filter_filter, List.filter_filter]
          simp only [Bool.and_comm]
      | false =>
          have alike : ∀ after ∈ merged rest, (isOther entry after && isOther other after) =
              isOther entry after := by
            intro after _
            simp only [isOther, Bool.not_eq_false', Bool.and_eq_left_iff_imp] at apart ⊢
            intro outside
            rw [Bool.not_eq_true', ← Bool.not_eq_true] at outside ⊢
            exact fun same => outside (AttributeName.agrees_trans same apart)
          rw [List.filter_cons_of_neg (by simp [apart]), merged,
            List.filter_cons_of_neg (by exact Bool.eq_false_iff.mp apart), ih, List.filter_filter,
            List.filter_congr alike]

/-- Giving values to names one after the other changes the value of an entry that stands first, and else
only what follows it. -/
theorem foldl_assign_cons (entry : Attribute) (kept entries : List Attribute) :
    entries.foldl (fun kept other => assign other.name other.value kept) (entry :: kept) =
      ⟨entry.name, lastValue entry entries⟩ :: (entries.filter (isOther entry)).foldl
        (fun kept other => assign other.name other.value kept) kept := by
  induction entries generalizing entry kept with
  | nil => rfl
  | cons other rest ih =>
      rw [List.foldl_cons, assign]
      by_cases same : entry.name.agrees other.name = true
      · have back : other.name.agrees entry.name = true := by rwa [AttributeName.agrees_comm]
        rw [if_pos same, ih, lastValue_cons_of_agrees back,
          List.filter_cons_of_neg (by simp [isOther, back])]
        rfl
      · have apart : ¬ other.name.agrees entry.name = true := by rwa [AttributeName.agrees_comm]
        rw [if_neg same, ih, lastValue_cons_of_differs apart,
          List.filter_cons_of_pos (by simp [isOther, apart]), List.foldl_cons]

theorem collect_eq_merged (entries : List Attribute) : Markup.collect entries = merged entries := by
  induction length : entries.length using Nat.strongRecOn generalizing entries with
  | ind length ih =>
      cases entries with
      | nil => rfl
      | cons entry rest =>
          have shorter := List.length_filter_le (isOther entry) rest
          rw [List.length_cons] at length
          rw [Markup.collect, List.foldl_cons]
          change rest.foldl _ [entry] = _
          rw [foldl_assign_cons, merged, ← merged_filter, ← ih _ (by omega) _ rfl]
          rfl

end Attribute

namespace Markup

open Peg (Expression Grammar Marking Mark Match Parses Takes Follows)
open Peg.Expression

inductive Rule where
  | fragment | node
  | comment | commentBody
  | doctype | doctypeName
  | element | selfClosing | voidElement | pairedElement
  | tagName | voidName | nameChar
  | attributeList | attributeEntry | attributeName | attributeValue | doubleQuoted | singleQuoted | unquoted
  | text | space | finish
  deriving DecidableEq

namespace Rule

def word (text : String) : Expression Rule :=
  .exact text.toList

def other (excluded : Expression Rule) : Expression Rule :=
  .seq (.absent excluded) .any

def voidNames : List String :=
  ["area", "base", "br", "col", "embed", "hr", "img", "input", "link", "meta", "param", "source",
   "track", "wbr"]

def body : Rule → Expression Rule
  | fragment => all [.start, .star (.call node), .call finish]
  | node => oneOf [.call comment, .call doctype, .call element, .call text]
  | comment => all [word "<!--", .call commentBody, word "-->"]
  | commentBody => .star (other (word "-->"))
  | doctype =>
    all [word "<!", .caseless "doctype".toList, .plus (.call space), .call doctypeName,
      .star (.call space), word ">"]
  | doctypeName => .plus (other (oneOf [.call space, word ">"]))
  | element => oneOf [.call selfClosing, .call voidElement, .call pairedElement]
  | selfClosing =>
    all [word "<", .call tagName, .call attributeList, .star (.call space), word "/>"]
  | voidElement =>
    all [word "<", .call voidName, .call attributeList, .star (.call space), word ">"]
  | pairedElement =>
    all [word "<", .push (.call tagName), .call attributeList, .star (.call space), word ">",
      .star (.call node), word "</", .pop, .star (.call space), word ">"]
  | tagName => all [.char Char.isAlpha, .star (.call nameChar)]
  | voidName =>
    all [oneOf (voidNames.map fun name => .caseless name.toList), .absent (.call nameChar)]
  | nameChar => oneOf [.char Char.isAlphanum, word "-", word "_", word ":", word "."]
  | attributeList => .star (all [.plus (.call space), .call attributeEntry])
  | attributeEntry =>
    all [.call attributeName,
      .optional (all [.star (.call space), word "=", .star (.call space), .call attributeValue])]
  | attributeName =>
    .plus (other (oneOf [.call space, word "=", word ">", word "/", word "\"", word "'", word "<"]))
  | attributeValue =>
    oneOf [all [word "\"", .call doubleQuoted, word "\""],
      all [word "'", .call singleQuoted, word "'"], .call unquoted]
  | doubleQuoted => .star (other (word "\""))
  | singleQuoted => .star (other (word "'"))
  | unquoted =>
    .plus (other (oneOf [.call space, word ">", word "\"", word "'", word "=", word "<", word "\x60"]))
  | text => .plus (other (word "<"))
  | space => oneOf [word " ", word "\t", word "\r", word "\n", word "\x0c"]
  | finish => .stop

def marking : Rule → Marking
  | node | element | nameChar | attributeList | attributeValue | space => .hidden
  | commentBody | doctypeName | tagName | voidName | attributeName | doubleQuoted | singleQuoted
  | unquoted | text => .atomic
  | fragment | comment | doctype | selfClosing | voidElement | pairedElement | attributeEntry | finish => .plain

end Rule

def grammar : Grammar Rule :=
  ⟨Rule.body, Rule.marking⟩

def taken (rules : List Rule) (marks : List (Tree (Mark Rule))) : List Char :=
  ((marks.find? fun mark => mark.label.rule ∈ rules).map (·.label.taken)).getD []

def attributeOf? : Tree (Mark Rule) → Option Attribute
  | .node mark inside =>
    if mark.rule = .attributeEntry then
      let name := taken [.attributeName] inside
      let value := taken [.doubleQuoted, .singleQuoted, .unquoted] inside
      some ⟨⟨namespaceOf name, String.ofList name⟩, String.ofList (Reference.decode value)⟩
    else none

def attributesOf (marks : List (Tree (Mark Rule))) : List Attribute :=
  Attribute.merged (marks.filterMap attributeOf?)

def elementOf (marks : List (Tree (Mark Rule))) (children : List (Tree Content)) : Tree Content :=
  let name := taken [.tagName, .voidName] marks
  .node (.element (String.ofList (name.map Char.toLower)) (attributesOf marks)) children

mutual

def nodeOf? : Tree (Mark Rule) → Option (Tree Content)
  | .node mark inside =>
    match mark.rule with
    | .fragment => some (.node .fragment (nodesOf inside))
    | .comment => some (.node (.comment (String.ofList (taken [.commentBody] inside))) [])
    | .doctype => some (.node (.doctype (String.ofList (taken [.doctypeName] inside))) [])
    | .text => some (.node (.text (String.ofList (Reference.decode mark.taken))) [])
    | .selfClosing | .voidElement | .pairedElement => some (elementOf inside (nodesOf inside))
    | _ => none

def nodesOf : List (Tree (Mark Rule)) → List (Tree Content)
  | [] => []
  | mark :: rest => (nodeOf? mark).toList ++ nodesOf rest

end

mutual

def Closed : Tree (Mark Rule) → Prop
  | .node mark inside =>
    (mark.rule = .pairedElement → ∃ between space, (∀ c ∈ space, isSpace c = true) ∧
      mark.taken = ['<'] ++ taken [.tagName] inside ++ between ++ "</".toList ++ taken [.tagName] inside
        ++ space ++ ['>']) ∧
    ClosedAll inside

def ClosedAll : List (Tree (Mark Rule)) → Prop
  | [] => True
  | mark :: rest => Closed mark ∧ ClosedAll rest

end

theorem nodesOf_append (marks more : List (Tree (Mark Rule))) :
    nodesOf (marks ++ more) = nodesOf marks ++ nodesOf more := by
  induction marks with
  | nil => rfl
  | cons mark marks ih => rw [List.cons_append, nodesOf, nodesOf, ih, List.append_assoc]

theorem closedAll_append {marks more : List (Tree (Mark Rule))} (closed : ClosedAll marks)
    (closedMore : ClosedAll more) : ClosedAll (marks ++ more) := by
  induction marks with
  | nil => exact closedMore
  | cons mark marks ih => exact ⟨closed.1, ih closed.2⟩

end Markup

end LiveTemplate
