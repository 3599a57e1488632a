import LiveTemplate.Proofs.Attributes
import LiveTemplate.Proofs.Blueprint
import LiveTemplate.Template.Assign

/-! Rendering as substitution: what the content of a template becomes once its expressions have
values, and what of a tree is compared. -/

namespace LiveTemplate

def Json.given? (state : Json) (expression : String) : Option (Option String) :=
  (state.members?.bind (Json.member? · expression)).map Json.shown

def Json.last? (states : List Json) (expression : String) : Option (Option String) :=
  states.reverse.findSome? (·.given? expression)

theorem Json.last?_append (states : List Json) (state : Json) (expression : String) :
    Json.last? (states ++ [state]) expression =
      (state.given? expression).or (Json.last? states expression) := by
  rw [last?, List.reverse_append, List.reverse_singleton, List.singleton_append,
    List.findSome?_cons, last?]
  cases state.given? expression <;> rfl

section
variable (values : String → Option (Option String))

def Token.filled : Token → String
  | .literal text => text
  | .placeholder expression => (values expression).join.getD ""

def Source.filled (source : Source) : String :=
  String.join (source.tokens.map (Token.filled values))

def Attribute.filledValue? (tokens : List Token) : Option String :=
  match tokens.filter (· ≠ .literal "") with
  | [.placeholder expression] => (values expression).getD (some "")
  | _ => some (String.join (tokens.map (Token.filled values)))

def Attribute.filled? (entry : Attribute) : Option Attribute :=
  match Token.templated? entry.value with
  | none => some entry
  | some tokens => (filledValue? values tokens).map fun value => ⟨entry.name, value⟩

def Content.filled (content : Content) : Content :=
  content.mapAttributes (List.filterMap (Attribute.filled? values))

mutual

/-- A node of a template with values for its expressions. A source becomes one text, beside which
blank texts vanish where it owns the parent. -/
def Config.fill (config : Config) (owned : Bool) : Tree Content → List (Tree Content)
  | .node content children =>
    match config.source? content with
    | some source => [.node (.text (source.filled values)) []]
    | none =>
      if owned && content.isBlankText then []
      else [.node (content.filled values)
        (config.fillAll (config.isOwned (children.map Tree.label)) children)]

def Config.fillAll (config : Config) (owned : Bool) : List (Tree Content) → List (Tree Content)
  | [] => []
  | tree :: rest => config.fill owned tree ++ config.fillAll owned rest

end

end

mutual

def Config.isTemplated (config : Config) : Tree Content → Bool
  | .node content children =>
    (config.source? content).isSome ||
      content.attributes.any (fun entry => (Token.templated? entry.value).isSome) ||
      config.anyTemplated children

def Config.anyTemplated (config : Config) : List (Tree Content) → Bool
  | [] => false
  | tree :: rest => config.isTemplated tree || config.anyTemplated rest

end

inductive Look where
  | text (data : String)
  | node (content : Content) (attribute? : AttributeName → Option Attribute) (children : List Look)

def Look.push (data : String) (rest : List Look) : List Look :=
  if data = "" then rest
  else
    match rest with
    | .text other :: more => .text (data ++ other) :: more
    | _ => .text data :: rest

def Look.put (content : Content) (below rest : List Look) : List Look :=
  match content, below with
  | .text data, [] => Look.push data rest
  | _, _ => .node (content.mapAttributes fun _ => []) (Attribute.named? content.attributes) below :: rest

mutual

def Tree.look : Tree Content → List Look → List Look
  | .node content children, rest => Look.put content (Tree.looks children) rest

def Tree.looks : List (Tree Content) → List Look
  | [] => []
  | tree :: rest => tree.look (Tree.looks rest)

end

theorem Look.push_empty (rest : List Look) : Look.push "" rest = rest :=
  rfl

theorem Look.push_append (first second : String) (rest : List Look) :
    Look.push (first ++ second) rest = Look.push first (Look.push second rest) := by
  by_cases firstEmpty : first = ""
  · rw [firstEmpty, String.empty_append, push_empty]
  by_cases secondEmpty : second = ""
  · rw [secondEmpty, String.append_empty, push_empty]
  have nonempty : first ++ second ≠ "" := by
    intro empty
    exact firstEmpty (String.append_eq_empty_iff.mp empty).1
  simp only [push, if_neg nonempty, if_neg firstEmpty, if_neg secondEmpty]
  cases rest with
  | nil => rfl
  | cons head more =>
      cases head with
      | text other => simp only [String.append_assoc]
      | node content attribute? children => rfl

theorem Look.push_join (texts : List String) (rest : List Look) :
    Look.push (String.join texts) rest = texts.foldr Look.push rest := by
  induction texts with
  | nil => rfl
  | cons text later ih => rw [String.join_cons, push_append, ih, List.foldr_cons]

theorem Tree.looks_append (first second : List (Tree Content)) :
    Tree.looks (first ++ second) = first.foldr Tree.look (Tree.looks second) := by
  induction first with
  | nil => rfl
  | cons tree rest ih => rw [List.cons_append, Tree.looks, ih, List.foldr_cons]

theorem Tree.look_text (data : String) (rest : List Look) :
    Tree.look (.node (.text data) []) rest = Look.push data rest := by
  rw [Tree.look, Tree.looks]
  rfl

theorem Tree.look_congr {content other : Content} {children others : List (Tree Content)}
    (plain : (content.mapAttributes fun _ => []) = other.mapAttributes fun _ => [])
    (named : ∀ name, Attribute.named? content.attributes name = Attribute.named? other.attributes name)
    (below : Tree.looks children = Tree.looks others) (rest : List Look) :
    Tree.look (.node content children) rest = Tree.look (.node other others) rest := by
  have attributes : Attribute.named? content.attributes = Attribute.named? other.attributes :=
    funext named
  rw [Tree.look, Tree.look, below]
  cases content with
  | text data =>
      cases other with
      | text otherData =>
          cases plain
          rfl
      | _ => cases plain
  | element tag entries =>
      cases other with
      | element otherTag otherEntries =>
          cases plain
          exact congrArg (fun attribute? => .node (.element tag []) attribute? (Tree.looks others) :: rest)
            attributes
      | _ => cases plain
  | _ =>
      cases other <;> cases plain
      rfl

namespace Token

theorem scanExpression_cases (seen glyphs : List Glyph) : scanExpression seen glyphs = [] ∨
    ∃ expression rest, scanExpression seen glyphs = .placeholder expression :: rest := by
  induction glyphs generalizing seen with
  | nil => exact Or.inl (by rw [scanExpression]; simp)
  | cons first rest ih =>
      cases rest with
      | nil => exact Or.inl (by rw [scanExpression]; simp)
      | cons second rest =>
          rw [scanExpression]
          split
          · exact Or.inr ⟨_, _, rfl⟩
          · exact ih _

theorem scanLiteral_cases (seen glyphs : List Glyph) : (scanLiteral seen glyphs).length ≤ 1 ∨
    ∃ expression, .placeholder expression ∈ scanLiteral seen glyphs := by
  induction glyphs generalizing seen with
  | nil =>
      left
      rw [scanLiteral]
      split <;> simp
  | cons first rest ih =>
      cases rest with
      | nil => exact Or.inl (by rw [scanLiteral]; simp)
      | cons second rest =>
          rw [scanLiteral]
          split
          · rcases scanExpression_cases [] rest with none | ⟨expression, later, found⟩
            · exact Or.inl (by rw [none]; simp)
            · exact Or.inr ⟨expression, by rw [found]; simp⟩
          · exact ih _

/-- A text with several tokens has a placeholder. -/
theorem exists_placeholder {text : String} {tokens : List Token}
    (templated : templated? text = some tokens) : ∃ expression, .placeholder expression ∈ tokens := by
  simp only [templated?, Option.ite_none_right_eq_some, Option.some.injEq] at templated
  obtain ⟨several, rfl⟩ := templated
  rw [tokenize] at several ⊢
  rcases scanLiteral_cases [] (Glyph.read (trim text.toList)) with single | found
  · split at several
    · simp at several
    · omega
  · obtain ⟨expression, member⟩ := found
    refine ⟨expression, ?_⟩
    split
    · rename_i none
      rw [none] at member
      cases member
    · exact member

end Token

theorem Config.exists_placeholder {config : Config} {content : Content} {source : Source}
    (found : config.source? content = some source) :
    ∃ expression, .placeholder expression ∈ source.tokens := by
  cases source with
  | nested expression directive? => exact ⟨expression, List.mem_singleton_self _⟩
  | inline tokens =>
      cases content with
      | text data =>
          obtain ⟨known, templated, same⟩ := Option.map_eq_some_iff.mp found
          cases same
          exact Token.exists_placeholder templated
      | element tag attributes =>
          simp only [source?] at found
          split at found <;> cases found
      | _ => cases found

theorem Attribute.named?_filterMap {change : Attribute → Option Attribute}
    (keeps : ∀ entry result, change entry = some result → result.name = entry.name)
    {entries : List Attribute} (distinct : Attribute.Distinct entries) (name : AttributeName) :
    Attribute.named? (entries.filterMap change) name =
      (Attribute.named? entries name).bind change := by
  induction entries with
  | nil => rfl
  | cons entry rest ih =>
      obtain ⟨apart, restDistinct⟩ := List.pairwise_cons.mp distinct
      rw [named?_cons]
      by_cases agrees : entry.name.agrees name = true
      · rw [if_pos agrees, Option.bind_some, List.filterMap_cons]
        cases changed : change entry with
        | some result => rw [named?_cons, keeps entry result changed, if_pos agrees]
        | none =>
            have absent : named? rest name = none := by
              rw [named?_eq_none]
              intro other member
              rw [Bool.eq_false_iff]
              intro otherAgrees
              rw [AttributeName.agrees_comm] at otherAgrees
              have both := AttributeName.agrees_trans agrees otherAgrees
              rw [apart other member] at both
              cases both
            rw [ih restDistinct, absent]
            rfl
      · rw [if_neg agrees, ← ih restDistinct, List.filterMap_cons]
        cases changed : change entry with
        | some result => rw [named?_cons, keeps entry result changed, if_neg agrees]
        | none => rfl

end LiveTemplate
