import LiveTemplate.Proofs.Cutting
import Mathlib.Data.List.Chain

/-! Writing tokens down: with a backslash before each of their braces and backslashes, literals and
placeholders in turn are read back as they were. -/

namespace LiveTemplate

namespace Glyph

def protect (text : List Char) : List Char :=
  text.flatMap fun c => if isSpecial c then ['\\', c] else [c]

def shield (c : Char) : Glyph :=
  ⟨c, isSpecial c⟩

theorem Reads.protect {text : List Char} {glyphs : List Glyph} (reads : Reads text glyphs)
    (inner : List Char) : Reads (protect inner ++ text) (inner.map shield ++ glyphs) := by
  induction inner with
  | nil => exact reads
  | cons c rest ih =>
      rw [Glyph.protect, List.flatMap_cons, ← Glyph.protect, List.append_assoc, List.map_cons, List.cons_append,
        shield]
      cases special : isSpecial c with
      | true => exact .escaped ((isSpecial_iff c).mp special) ih
      | false =>
          refine .plain ?_ ih
          rintro rfl
          cases special

theorem Reads.opening {text : List Char} {glyphs : List Glyph} (reads : Reads text glyphs) :
    Reads ('{' :: text) (opening :: glyphs) :=
  .plain (by rintro ⟨⟩) reads

theorem Reads.closing {text : List Char} {glyphs : List Glyph} (reads : Reads text glyphs) :
    Reads ('}' :: text) (closing :: glyphs) :=
  .plain (by rintro ⟨⟩) reads

theorem map_char_shield (text : List Char) : (text.map shield).map char = text := by
  rw [List.map_map]
  exact List.map_id text

theorem opening_notMem_shield (text : List Char) : opening ∉ text.map shield := by
  rw [List.mem_map]
  rintro ⟨c, _, same⟩
  rw [shield, opening, Glyph.mk.injEq] at same
  obtain ⟨rfl, special⟩ := same
  cases special

theorem closing_notMem_shield (text : List Char) : closing ∉ text.map shield := by
  rw [List.mem_map]
  rintro ⟨c, _, same⟩
  rw [shield, closing, Glyph.mk.injEq] at same
  obtain ⟨rfl, special⟩ := same
  cases special

variable {brace : Glyph} {before : List Glyph}

theorem cutsAt_of_notMem (absent : brace ∉ before) (after : List Glyph) :
    CutsAt brace (before ++ brace :: brace :: after) before after := by
  refine ⟨rfl, fun earlier later split => ?_⟩
  rcases List.append_eq_append_iff.mp split with ⟨skipped, rfl, _⟩ | ⟨skipped, rfl, first⟩
  · simp
  · cases skipped with
    | nil => simp
    | cons glyph rest =>
        obtain ⟨rfl, _⟩ := List.cons.inj first
        simp at absent

theorem unpaired_of_notMem (absent : brace ∉ before) : Unpaired brace before := by
  rintro earlier later rfl
  simp at absent

end Glyph

namespace Token

def isPlaceholder : Token → Bool
  | literal _ => false
  | placeholder _ => true

def write : Token → List Char
  | literal text => Glyph.protect text.toList
  | placeholder expression => "\x7b\x7b".toList ++ Glyph.protect expression.toList ++ "\x7d\x7d".toList

def writeAll (tokens : List Token) : List Char :=
  tokens.flatMap write

/-- Literals and placeholders in turn, from a literal on, with trimmed expressions. An empty literal
does not come last unless it is all there is. -/
structure Alternating (tokens : List Token) : Prop where
  head : ∃ text, tokens.head? = some (.literal text)
  chain : tokens.IsChain fun first second => first.isPlaceholder ≠ second.isPlaceholder
  trimmed : ∀ expression, .placeholder expression ∈ tokens → ∀ c,
    expression.toList.head? = some c ∨ expression.toList.getLast? = some c → isBlank c = false
  last : ∀ text, tokens.getLast? = some (.literal text) → text ≠ "" ∨ tokens = [.literal text]

def glyphs : Token → List Glyph
  | literal text => text.toList.map Glyph.shield
  | placeholder expression =>
    .opening :: .opening :: (expression.toList.map Glyph.shield ++ [.closing, .closing])

theorem reads_writeAll (tokens : List Token) : Glyph.Reads (writeAll tokens) (tokens.flatMap glyphs) := by
  induction tokens with
  | nil => exact .nil
  | cons token rest ih =>
      rw [writeAll, List.flatMap_cons, List.flatMap_cons]
      cases token with
      | literal text => exact ih.protect text.toList
      | placeholder expression =>
          have closed := ih.closing.closing.protect expression.toList
          simpa [write, writeAll, glyphs] using closed.opening.opening

theorem literal_shield (text : String) :
    Token.literal (String.ofList ((text.toList.map Glyph.shield).map Glyph.char)) = .literal text := by
  rw [Glyph.map_char_shield, String.ofList_toList]

theorem Alternating.rest {text expression : String} {rest : List Token}
    (alternating : Alternating (.literal text :: .placeholder expression :: rest)) :
    rest = [] ∨ Alternating rest ∧ rest ≠ [.literal ""] := by
  cases rest with
  | nil => exact Or.inl rfl
  | cons token others =>
      obtain ⟨_, chain, trimmed, last⟩ := alternating
      obtain ⟨_, differ, further⟩ := by simpa only [List.isChain_cons_cons] using chain
      have final (other : String) (ends : (token :: others).getLast? = some (.literal other)) : other ≠ "" :=
        (last other (by simpa [List.getLast?_cons_cons] using ends)).resolve_right (by simp)
      refine Or.inr ⟨⟨?_, further, fun other member => trimmed other (by simp_all), fun other ends =>
        Or.inl (final other ends)⟩, ?_⟩
      · cases token with
        | literal other => exact ⟨other, rfl⟩
        | placeholder _ => exact (differ rfl).elim
      · intro empty
        exact final "" (by rw [empty]; rfl) rfl

theorem Alternating.trims {tokens : List Token} (alternating : Alternating tokens) {expression : String}
    (member : .placeholder expression ∈ tokens) :
    Trims ((expression.toList.map Glyph.shield).map Glyph.char) expression.toList := by
  have ends := alternating.trimmed expression member
  rw [Glyph.map_char_shield]
  exact ⟨⟨[], [], by simp, by simp⟩, fun c first => ends c (Or.inl first), fun c final => ends c (Or.inr final)⟩

/-- The glyphs of tokens are cut into them, also after others unless all there is is an empty literal. -/
theorem Alternating.cut : ∀ {tokens : List Token} (later : Bool), Alternating tokens →
    (later = true → tokens ≠ [.literal ""]) → Cut later (tokens.flatMap glyphs) tokens
  | [], _, alternating, _ => by
      obtain ⟨text, ⟨⟩⟩ := alternating.head
  | [.literal text], later, _, nonempty => by
      have shown : text.toList.map Glyph.shield ≠ [] ∨ later = false := by
        cases later with
        | false => exact Or.inr rfl
        | true => exact Or.inl fun none => nonempty rfl (by simpa using none)
      have cut := Cut.literal (Glyph.unpaired_of_notMem (Glyph.opening_notMem_shield text.toList)) shown
      rw [literal_shield] at cut
      simpa [glyphs] using cut
  | .literal text :: .placeholder expression :: rest, later, alternating, _ => by
      -- What is left starts with a literal again, which is not empty if it is the only token.
      have cut : Cut true (rest.flatMap glyphs) rest := by
        rcases alternating.rest with rfl | ⟨further, nonempty⟩
        · exact .done
        · exact further.cut true fun _ => nonempty
      have whole := @Cut.placeholder later _ _ _ _ _ _ _
        (Glyph.cutsAt_of_notMem (Glyph.opening_notMem_shield text.toList) _)
        (Glyph.cutsAt_of_notMem (Glyph.closing_notMem_shield expression.toList) (rest.flatMap glyphs))
        (alternating.trims (by simp)) cut
      rw [literal_shield, String.ofList_toList] at whole
      simpa [glyphs] using whole
  | .literal _ :: .literal _ :: _, _, alternating, _ =>
      ((List.isChain_cons_cons.mp alternating.chain).1 rfl).elim
  | .placeholder _ :: _, _, alternating, _ => by
      obtain ⟨text, ⟨⟩⟩ := alternating.head

/-- Tokens that alternate are those of the text that they are written as. -/
theorem tokenize_writeAll {tokens : List Token} (alternating : Alternating tokens) :
    tokenize (writeAll tokens) = tokens := by
  have read := (reads_writeAll tokens).eq_read
  exact tokenize_of_cut (read ▸ alternating.cut false (by rintro ⟨⟩))

def escapedTokens : List Token :=
  [.literal "\\\x7b", .placeholder "\x7d\\", .literal "", .placeholder "", .literal "\u00a0\x7d\x7d"]

theorem tokenize_writeAll_escaped :
    Alternating escapedTokens ∧ writeAll escapedTokens =
      "\\\\\\\x7b\x7b\x7b\\\x7d\\\\\x7d\x7d\x7b\x7b\x7d\x7d\u00a0\\\x7d\\\x7d".toList ∧
      tokenize (writeAll escapedTokens) = escapedTokens := by
  have alternating : Alternating escapedTokens := by
    constructor
    · exact ⟨_, rfl⟩
    · simp [escapedTokens, isPlaceholder]
    · intro expression member c edge
      simp only [escapedTokens, List.mem_cons, Token.placeholder.injEq, reduceCtorEq, List.not_mem_nil,
        or_false, false_or] at member
      rcases member with rfl | rfl
      · have known : c = '\x7d' ∨ c = '\\' := by simpa [eq_comm] using edge
        rcases known with rfl | rfl <;> decide
      · simp at edge
    · rintro text ⟨⟩
      exact Or.inl (by decide)
  exact ⟨alternating, by decide +kernel, tokenize_writeAll alternating⟩

end Token

end LiveTemplate
