import LiveTemplate.Proofs.Runs
import LiveTemplate.Proofs.References

/-! Markup is read back as the forest it was written from, up to the joining of texts. -/

namespace LiveTemplate.Markup

def TagName (tag : String) : Prop :=
  tag.toList.head?.any Char.isAlpha = true ∧ (∀ c ∈ tag.toList, isNameChar c = true) ∧
    tag.toList.map Char.toLower = tag.toList

def SpelledName (name : AttributeName) : Prop :=
  name.qualified.toList ≠ [] ∧ (∀ c ∈ name.qualified.toList, isAttributeNameChar c = true) ∧
    name.space? = namespaceOf name.qualified.toList

def Writable : Content → Prop
  | .document | .fragment => False
  | .doctype name => name.toList ≠ [] ∧ ∀ c ∈ name.toList, isDoctypeNameChar c = true
  | .element tag attributes =>
    TagName tag ∧ (∀ entry ∈ attributes, SpelledName entry.name) ∧ Attribute.Distinct attributes
  | .text _ => True
  | .comment data => ¬ "-->".toList <:+: data.toList

mutual

def Expressible : Tree Content → Prop
  | .node content children =>
    Writable content ∧ (showsChildren content = false → children = []) ∧ ExpressibleAll children

def ExpressibleAll : List (Tree Content) → Prop
  | [] => True
  | tree :: rest => Expressible tree ∧ ExpressibleAll rest

end

instance (tag : String) : Decidable (TagName tag) :=
  haveI := List.decidableBAll (fun c => isNameChar c = true) tag.toList
  inferInstanceAs (Decidable (_ ∧ _ ∧ _))

instance (name : AttributeName) : Decidable (SpelledName name) :=
  haveI := List.decidableBAll (fun c => isAttributeNameChar c = true) name.qualified.toList
  inferInstanceAs (Decidable (_ ∧ _ ∧ _))

instance decidableWritable : ∀ content : Content, Decidable (Writable content)
  | .document | .fragment => .isFalse id
  | .doctype name =>
    haveI := List.decidableBAll (fun c => isDoctypeNameChar c = true) name.toList
    inferInstanceAs (Decidable (name.toList ≠ [] ∧ ∀ c ∈ name.toList, isDoctypeNameChar c = true))
  | .element tag attributes =>
    inferInstanceAs (Decidable (TagName tag ∧ (∀ entry ∈ attributes, SpelledName entry.name) ∧
      attributes.Pairwise fun first second => first.name.agrees second.name = false))
  | .text _ => .isTrue trivial
  | .comment data => inferInstanceAs (Decidable (¬ "-->".toList <:+: data.toList))

mutual

instance decidableExpressible : ∀ tree : Tree Content, Decidable (Expressible tree)
  | .node content children =>
    haveI := decidableExpressibleAll children
    decidable_of_iff (Writable content ∧ (showsChildren content = false → children = []) ∧
      ExpressibleAll children) (by rw [Expressible])

instance decidableExpressibleAll : ∀ trees : List (Tree Content), Decidable (ExpressibleAll trees)
  | [] => .isTrue trivial
  | tree :: rest =>
    haveI := decidableExpressible tree
    haveI := decidableExpressibleAll rest
    decidable_of_iff (Expressible tree ∧ ExpressibleAll rest) (by rw [ExpressibleAll])

end

theorem expressibleAll_iff (trees : List (Tree Content)) :
    ExpressibleAll trees ↔ ∀ tree ∈ trees, Expressible tree := by
  induction trees with
  | nil => simp [ExpressibleAll]
  | cons tree rest ih => rw [ExpressibleAll, ih, List.forall_mem_cons]

def joinText (data : String) : List (Tree Content) → List (Tree Content)
  | .node (.text next) below :: rest => .node (.text (data ++ next)) below :: rest
  | trees => if data = "" then trees else .node (.text data) [] :: trees

def prepend (tree : Tree Content) (trees : List (Tree Content)) : List (Tree Content) :=
  match tree.label with
  | .text data => joinText data trees
  | _ => tree :: trees

mutual

def joined : Tree Content → Tree Content
  | .node content children => .node content (joinedAll children)

def joinedAll : List (Tree Content) → List (Tree Content)
  | [] => []
  | tree :: rest => prepend (joined tree) (joinedAll rest)

end

theorem write_doctype (name : String) (children : List (Tree Content)) :
    write (.node (.doctype name) children) = "<!DOCTYPE ".toList ++ name.toList ++ ['>'] :=
  List.append_nil _

theorem write_text (data : String) (children : List (Tree Content)) :
    write (.node (.text data) children) = Reference.escape .content data.toList :=
  List.append_nil _

theorem write_comment (data : String) (children : List (Tree Content)) :
    write (.node (.comment data) children) = "<!--".toList ++ data.toList ++ "-->".toList :=
  List.append_nil _

theorem write_element (tag : String) (attributes : List Attribute) (children : List (Tree Content)) :
    write (.node (.element tag attributes) children) =
      '<' :: tag.toList ++ attributes.flatMap writeAttribute ++ ['>'] ++
        if isVoidElement tag then [] else writeAll children ++ ("</".toList ++ tag.toList ++ ['>']) := by
  rw [write]
  change _ ++ (if (!isVoidElement tag) = true then _ else _) = _
  cases isVoidElement tag <;> rfl

mutual

def Separated : Tree Content → Prop
  | .node _ children => SeparatedAll children

def SeparatedAll : List (Tree Content) → Prop
  | [] => True
  | tree :: rest =>
    Separated tree ∧ SeparatedAll rest ∧ ∀ data, tree.label = .text data →
      data ≠ "" ∧ ∀ next, rest.head? = some next → next.label.kind ≠ .text

end

theorem separatedAll_joinText (data : String) {trees : List (Tree Content)}
    (separated : SeparatedAll trees) : SeparatedAll (joinText data trees) := by
  fun_cases joinText data trees
  · rename_i next below rest
    obtain ⟨first, later, apart⟩ := separated
    refine ⟨first, later, ?_⟩
    rintro joint ⟨⟩
    refine ⟨?_, (apart next rfl).2⟩
    intro empty
    exact (apart next rfl).1 (String.append_eq_empty_iff.mp empty).2
  · exact separated
  · rename_i nonempty noText
    refine ⟨trivial, separated, ?_⟩
    rintro joint ⟨⟩
    refine ⟨nonempty, ?_⟩
    rintro ⟨label, below⟩ head isText
    obtain ⟨next, rfl⟩ : ∃ next, label = .text next := by
      cases label <;> simp_all [Tree.label, Content.kind]
    obtain ⟨rest, rfl⟩ := List.head?_eq_some_iff.mp head
    exact noText next below rest rfl

mutual

theorem separated_joined : ∀ tree : Tree Content, Separated (joined tree)
  | .node _ children => separatedAll_joinedAll children

theorem separatedAll_joinedAll : ∀ trees : List (Tree Content), SeparatedAll (joinedAll trees)
  | [] => trivial
  | tree :: rest => by
      have first := separated_joined tree
      have later := separatedAll_joinedAll rest
      rw [joinedAll, prepend]
      split
      · exact separatedAll_joinText _ later
      · rename_i noText
        exact ⟨first, later, fun data isText => absurd isText (noText data)⟩

end

example : joinedAll [.node (.text "a") [], .node (.text "") [], .node (.text "b") [],
    .node (.comment "") [], .node (.text "") []] = [.node (.text "ab") [], .node (.comment "") []] := by
  rfl

section Scanning

variable {member : Char → Bool} {run rest : List Char}

theorem takeWhile_append_stop (inside : ∀ c ∈ run, member c = true)
    (stop : ∀ c, rest.head? = some c → member c = false) : (run ++ rest).takeWhile member = run := by
  rw [List.takeWhile_append_of_pos inside]
  cases rest with
  | nil => simp
  | cons c rest => simp [stop c rfl]

theorem dropWhile_append_stop (inside : ∀ c ∈ run, member c = true)
    (stop : ∀ c, rest.head? = some c → member c = false) : (run ++ rest).dropWhile member = rest := by
  rw [List.dropWhile_append_of_pos inside]
  cases rest with
  | nil => rfl
  | cons c rest => simp [stop c rfl]

theorem run?_append (nonempty : run ≠ []) (inside : ∀ c ∈ run, member c = true)
    (stop : ∀ c, rest.head? = some c → member c = false) :
    run? member (run ++ rest) = some (run, rest) := by
  rw [run?, takeWhile_append_stop inside stop, dropWhile_append_stop inside stop]
  split
  · contradiction
  · rfl

theorem head?_append_inside {holds : Char → Prop} (nonempty : run ≠ [])
    (inside : ∀ c ∈ run, holds c) : ∀ c, (run ++ rest).head? = some c → holds c := by
  intro c first
  cases run with
  | nil => contradiction
  | cons letter run =>
      rw [List.cons_append, List.head?_cons, Option.some.injEq] at first
      exact inside c (by simp [first])

theorem run?_none (stop : ∀ c, rest.head? = some c → member c = false) : run? member rest = none := by
  have empty := @takeWhile_append_stop member [] rest (by rintro c ⟨⟩) stop
  rw [List.nil_append] at empty
  rw [run?, empty]

end Scanning

theorem skip?_eq_some_iff {start text rest : List Char} :
    skip? start text = some rest ↔ text = start ++ rest := by
  induction start generalizing text with
  | nil => simp [skip?]
  | cons expected start ih =>
      cases text with
      | nil => simp [skip?]
      | cons c text =>
          rw [skip?]
          split
          · rename_i same
            simp [ih, same]
          · rename_i other
            simp [other]

theorem skip?_append (start rest : List Char) : skip? start (start ++ rest) = some rest :=
  skip?_eq_some_iff.mpr rfl

theorem skipSpace_cons {c : Char} (solid : isSpace c = false) (text : List Char) :
    skipSpace (c :: text) = c :: text := by
  simp [skipSpace, solid]

theorem untilCommentEnd?_append {data : List Char} (unended : ¬ "-->".toList <:+: data)
    (rest : List Char) : untilCommentEnd? (data ++ ("-->".toList ++ rest)) = some (data, rest) := by
  induction data with
  | nil => rfl
  | cons c data ih =>
      -- An end that began in the data and ended after it would begin with a hyphen after two others.
      have notYet : skip? "-->".toList (c :: (data ++ ("-->".toList ++ rest))) = none := by
        rw [Option.eq_none_iff_forall_not_mem]
        intro after found
        have split := skip?_eq_some_iff.mp found
        rcases data with _ | ⟨second, _ | ⟨third, data⟩⟩
        · simp at split
        · simp at split
        · refine unended ⟨[], data, ?_⟩
          simp only [List.cons_append, String.reduceToList, List.cons.injEq] at split
          simp [split.1, split.2.1, split.2.2.1]
      have inner := ih fun found => unended (found.trans (List.suffix_cons c data).isInfix)
      rw [List.cons_append, untilCommentEnd?, notYet, inner]
      rfl

theorem comment?_write {data : String} (writable : Writable (.comment data)) (rest : List Char) :
    comment? (write (.node (.comment data) []) ++ rest) = some (.node (.comment data) [], rest) := by
  have unended : ¬ "-->".toList <:+: data.toList := by rwa [Writable] at writable
  rw [write_comment, List.append_assoc, List.append_assoc, comment?, skip?_append, Option.bind_some,
    untilCommentEnd?_append unended]
  simp

theorem doctype?_write {name : String} (writable : Writable (.doctype name)) (rest : List Char) :
    doctype? (write (.node (.doctype name) []) ++ rest) = some (.node (.doctype name) [], rest) := by
  obtain ⟨nonempty, inside⟩ := writable
  have written : write (.node (.doctype name) []) ++ rest =
      "<!".toList ++ ("DOCTYPE".toList ++ ([' '] ++ (name.toList ++ '>' :: rest))) := by
    rw [write_doctype]
    simp
  have solid : ∀ c ∈ name.toList, isSpace c = false := by
    intro c member
    have letter := inside c member
    simp_all [isDoctypeNameChar]
  have spaced : run? isSpace ([' '] ++ (name.toList ++ '>' :: rest)) =
      some ([' '], name.toList ++ '>' :: rest) :=
    run?_append (by simp) (List.forall_mem_singleton.mpr rfl) (head?_append_inside nonempty solid)
  have named : run? isDoctypeNameChar (name.toList ++ '>' :: rest) = some (name.toList, '>' :: rest) :=
    run?_append nonempty inside (by rintro c ⟨⟩; decide)
  rw [written, doctype?, skip?_append, Option.bind_some, if_pos (by rfl),
    List.drop_left' (by rfl), spaced, Option.bind_some]
  simp [named, skipSpace_cons (by decide : isSpace '>' = false), skip?]

theorem attribute?_write {entry : Attribute} (spelled : SpelledName entry.name) (rest : List Char) :
    attribute? (entry.name.qualified.toList ++ '=' :: '"' ::
      (Reference.escape .quoted entry.value.toList ++ '"' :: rest)) = some (entry, rest) := by
  obtain ⟨nonempty, inside, space⟩ := spelled
  have quoted : ∀ c ∈ Reference.escape .quoted entry.value.toList, (c != '"') = true :=
    fun c member => bne_iff_ne.mpr ((Reference.ne_of_mem_escape member).2.2 rfl)
  have ended : ∀ c, ('"' :: rest).head? = some c → (c != '"') = false := by
    rintro c ⟨⟩
    rfl
  have value : assigned? ('=' :: '"' ::
      (Reference.escape .quoted entry.value.toList ++ '"' :: rest)) =
        some (Reference.escape .quoted entry.value.toList, rest) := by
    rw [assigned?, skipSpace_cons (by decide), skip?, if_pos rfl, skip?, Option.bind_some,
      skipSpace_cons (by decide), value?, untilQuote?, dropWhile_append_stop quoted ended,
      takeWhile_append_stop quoted ended]
  rw [attribute?, run?_append nonempty inside (by rintro c ⟨⟩; decide), Option.map_some]
  dsimp only
  rw [value]
  dsimp only
  rw [Reference.decode_escape, ← space, String.ofList_toList, String.ofList_toList]

theorem attributes_write {entries : List Attribute} {limit : Nat} (enough : entries.length ≤ limit)
    (spelled : ∀ entry ∈ entries, SpelledName entry.name) (rest : List Char) :
    attributes limit (entries.flatMap writeAttribute ++ '>' :: rest) = (entries, '>' :: rest) := by
  induction entries generalizing limit with
  | nil =>
      cases limit with
      | zero => rfl
      | succ limit =>
          rw [List.flatMap_nil, List.nil_append, attributes, run?_none (by rintro c ⟨⟩; decide)]
          rfl
  | cons entry entries ih =>
      obtain ⟨limit, rfl⟩ : ∃ lower, limit = lower + 1 :=
        Nat.exists_eq_add_one.mpr (Nat.lt_of_lt_of_le (Nat.succ_pos _) enough)
      have name := spelled entry (by simp)
      have solid : ∀ c ∈ entry.name.qualified.toList, isSpace c = false := by
        intro c member
        have letter := name.2.1 c member
        simp_all [isAttributeNameChar]
      have written : (entry :: entries).flatMap writeAttribute ++ '>' :: rest =
          [' '] ++ (entry.name.qualified.toList ++ '=' :: '"' ::
            (Reference.escape .quoted entry.value.toList ++ '"' ::
              (entries.flatMap writeAttribute ++ '>' :: rest))) := by
        simp [writeAttribute]
      rw [written, attributes, run?_append (by simp) (List.forall_mem_singleton.mpr rfl)
        (head?_append_inside name.1 solid), Option.bind_some]
      dsimp only
      rw [attribute?_write name]
      dsimp only
      rw [ih (by simpa using enough) fun other member => spelled other (by simp [member])]

theorem assign_of_distinct {name : AttributeName} {entries : List Attribute}
    (fresh : ∀ entry ∈ entries, entry.name.agrees name = false) (value : String) :
    Attribute.assign name value entries = entries ++ [⟨name, value⟩] := by
  induction entries with
  | nil => rfl
  | cons entry entries ih =>
      rw [Attribute.assign, if_neg (by simp [fresh entry (by simp)]),
        ih fun other member => fresh other (by simp [member])]
      rfl

theorem collect_of_distinct {entries : List Attribute} (distinct : Attribute.Distinct entries) :
    collect entries = entries := by
  have growing : ∀ kept, Attribute.Distinct (kept ++ entries) →
      entries.foldl (fun kept entry => Attribute.assign entry.name entry.value kept) kept =
        kept ++ entries := by
    clear distinct
    induction entries with
    | nil => exact fun kept _ => (List.append_nil kept).symm
    | cons entry entries ih =>
        intro kept distinct
        have fresh := fun other member =>
          (List.pairwise_append.mp distinct).2.2 other member entry (by simp)
        rw [List.foldl_cons, assign_of_distinct fresh, ih _ (by simpa using distinct)]
        simp
  exact growing [] distinct

theorem length_le_flatMap_writeAttribute (entries : List Attribute) :
    entries.length ≤ (entries.flatMap writeAttribute).length := by
  induction entries with
  | nil => exact Nat.le_refl 0
  | cons entry entries ih =>
      rw [List.flatMap_cons, List.length_append, writeAttribute]
      simp only [List.length_append, List.length_cons]
      omega

theorem openingTag?_write {tag : String} {entries : List Attribute}
    (writable : Writable (.element tag entries)) (rest : List Char) :
    openingTag? (tag.toList ++ (entries.flatMap writeAttribute ++ '>' :: rest)) =
      some (⟨tag.toList, entries, false⟩, rest) := by
  obtain ⟨⟨head, inside, _⟩, spelled, distinct⟩ := writable
  have stop : ∀ c, (entries.flatMap writeAttribute ++ '>' :: rest).head? = some c →
      isNameChar c = false := by
    cases entries with
    | nil =>
        rintro c ⟨⟩
        decide
    | cons entry entries =>
        rintro c ⟨⟩
        decide
  have enough : entries.length ≤
      (tag.toList ++ (entries.flatMap writeAttribute ++ '>' :: rest)).length := by
    have each := length_le_flatMap_writeAttribute entries
    simp only [List.length_append]
    omega
  have read := attributes_write enough spelled rest
  have name := takeWhile_append_stop inside stop
  have after := dropWhile_append_stop inside stop
  cases letters : tag.toList with
  | nil => simp [letters] at head
  | cons letter name' =>
      have alpha : letter.isAlpha = true := by simpa [letters] using head
      rw [letters, List.cons_append] at read name after
      rw [List.cons_append, openingTag?, if_pos alpha]
      dsimp only
      rw [after, name, read, collect_of_distinct distinct]
      simp [skipSpace_cons (by decide : isSpace '>' = false)]

theorem element?_write {inside : List Char → List (Tree Content) × List Char} {tag : String}
    {entries : List Attribute} {children trees : List (Tree Content)} {rest : List Char}
    (writable : Writable (.element tag entries)) (empty : isVoidElement tag = true → trees = [])
    (read : isVoidElement tag = false →
      inside (writeAll children ++ ("</".toList ++ (tag.toList ++ '>' :: rest))) =
        (trees, "</".toList ++ (tag.toList ++ '>' :: rest))) :
    element? inside (write (.node (.element tag entries) children) ++ rest) =
      some (.node (.element tag entries) trees, rest) := by
  have lower : String.ofList (tag.toList.map Char.toLower) = tag := by
    rw [writable.1.2.2, String.ofList_toList]
  have written : write (.node (.element tag entries) children) ++ rest =
      ['<'] ++ (tag.toList ++ (entries.flatMap writeAttribute ++ '>' ::
        ((if isVoidElement tag then []
          else writeAll children ++ ("</".toList ++ tag.toList ++ ['>'])) ++ rest))) := by
    rw [write_element]
    simp
  rw [written, element?, skip?_append, Option.bind_some, openingTag?_write writable, Option.bind_some]
  dsimp only
  rw [lower, String.ofList_toList, Bool.false_or]
  cases void : isVoidElement tag with
  | true =>
      rw [empty void]
      rfl
  | false =>
      have same : writeAll children ++ ("</".toList ++ tag.toList ++ ['>']) ++ rest =
          writeAll children ++ ("</".toList ++ (tag.toList ++ '>' :: rest)) := by
        simp
      have closed : closingTag? tag.toList ("</".toList ++ (tag.toList ++ '>' :: rest)) = some rest := by
        rw [closingTag?, show ['<', '/'] = "</".toList from rfl, skip?_append, Option.bind_some,
          skip?_append, Option.bind_some, skipSpace_cons (by decide)]
        rfl
      rw [if_neg Bool.false_ne_true, if_neg Bool.false_ne_true, same, read void]
      dsimp only
      rw [closed]
      rfl

section Nodes

variable {inside : List Char → List (Tree Content) × List Char} {text rest tail : List Char}
  {trees : List (Tree Content)}

theorem node?_text {c : Char} (plain : c ≠ '<') (text : List Char) :
    node? inside (c :: text) =
      some (.node (.text (String.ofList (Reference.decode ((c :: text).takeWhile (· != '<'))))) [],
        (c :: text).dropWhile (· != '<')) := by
  have noTag (start : List Char) : skip? ('<' :: start) (c :: text) = none := by
    rw [skip?, if_neg plain]
  have run : run? (· != '<') (c :: text) =
      some ((c :: text).takeWhile (· != '<'), (c :: text).dropWhile (· != '<')) := by
    simp [run?, plain]
  have noComment : comment? (c :: text) = none := by
    rw [comment?, show "<!--".toList = '<' :: "!--".toList from rfl, noTag, Option.bind_none]
  have noDoctype : doctype? (c :: text) = none := by
    rw [doctype?, show "<!".toList = '<' :: "!".toList from rfl, noTag, Option.bind_none]
  have noElement : element? inside (c :: text) = none := by
    rw [element?, noTag, Option.bind_none]
  rw [node?, noComment, noDoctype, noElement, text?, run]
  rfl

theorem text?_of_bracket (text : List Char) : text? ('<' :: text) = none := by
  simp [text?, run?]

/-- What a node is read as, by what it starts with. -/
theorem node?_forms {tree : Tree Content} (read : node? inside text = some (tree, rest)) :
    (∃ data, tree = .node (.comment data) []) ∨ (∃ name, tree = .node (.doctype name) []) ∨
      (∃ tag attributes children, tree = .node (.element tag attributes) children ∧
        (children = [] ∨ ∃ after, children = (inside after).1)) ∨
      text? text = some (tree, rest) := by
  simp only [node?, Option.orElse_eq_orElse, Option.orElse_eq_or, Option.or_eq_some_iff] at read
  rcases read with comment | ⟨_, doctype | ⟨_, element | ⟨_, run⟩⟩⟩
  · simp only [comment?, Option.bind_eq_some_iff, Option.map_eq_some_iff, Prod.mk.injEq] at comment
    obtain ⟨_, _, _, _, rfl, _⟩ := comment
    exact Or.inl ⟨_, rfl⟩
  · simp only [doctype?, Option.bind_eq_some_iff] at doctype
    obtain ⟨_, _, doctype⟩ := doctype
    split at doctype
    · simp only [Option.bind_eq_some_iff, Option.map_eq_some_iff, Prod.mk.injEq] at doctype
      obtain ⟨_, _, _, _, _, _, rfl, _⟩ := doctype
      exact Or.inr (Or.inl ⟨_, rfl⟩)
    · exact absurd doctype (by simp)
  · simp only [element?, Option.bind_eq_some_iff] at element
    obtain ⟨_, _, ⟨_, after⟩, _, element⟩ := element
    refine Or.inr (Or.inr (Or.inl ?_))
    split at element
    · simp only [Option.some.injEq, Prod.mk.injEq] at element
      obtain ⟨rfl, _⟩ := element
      exact ⟨_, _, _, rfl, Or.inl rfl⟩
    · simp only [Option.map_eq_some_iff, Prod.mk.injEq] at element
      obtain ⟨_, _, rfl, _⟩ := element
      exact ⟨_, _, _, rfl, Or.inr ⟨after, rfl⟩⟩
  · exact Or.inr (Or.inr (Or.inr run))

theorem node?_bracket {tree : Tree Content} (read : node? inside ('<' :: text) = some (tree, rest)) :
    ∀ data, tree.label ≠ .text data := by
  rcases node?_forms read with ⟨_, rfl⟩ | ⟨_, rfl⟩ | ⟨_, _, _, rfl, _⟩ | run
  · rintro data ⟨⟩
  · rintro data ⟨⟩
  · rintro data ⟨⟩
  · rw [text?_of_bracket] at run
    exact absurd run (by simp)

theorem nodes_apart (limit : Nat) (stops : ∀ c, rest.head? = some c → c = '<') :
    ∀ tree, (nodes limit rest).1.head? = some tree → ∀ data, tree.label ≠ .text data := by
  cases limit with
  | zero => rintro tree ⟨⟩
  | succ limit =>
      rw [nodes]
      split
      · rintro tree ⟨⟩
      · rename_i first after found
        rintro tree ⟨⟩
        cases rest with
        | nil => exact absurd found (by simp [node?, comment?, doctype?, element?, text?, run?, skip?])
        | cons c rest =>
            rw [stops c rfl] at found
            exact node?_bracket found

def Reads (text : List Char) (trees : List (Tree Content)) (tail : List Char) : Prop :=
  ∀ limit, text.length ≤ limit → nodes limit text = (trees, tail)

theorem reads_nil : Reads [] [] [] := by
  intro limit _
  cases limit <;> rfl

theorem reads_closing (rest : List Char) : Reads ("</".toList ++ rest) [] ("</".toList ++ rest) := by
  intro limit enough
  cases limit with
  | zero => rfl
  | succ limit => rfl

theorem Reads.cons {tree : Tree Content} (shorter : rest.length < text.length)
    (first : ∀ limit, text.length ≤ limit + 1 → node? (nodes limit) text = some (tree, rest))
    (later : Reads rest trees tail) : Reads text (tree :: trees) tail := by
  intro limit enough
  obtain ⟨limit, rfl⟩ : ∃ lower, limit = lower + 1 := Nat.exists_eq_add_one.mpr (by omega)
  rw [nodes, first limit enough]
  dsimp only
  rw [later limit (by omega)]

theorem joinText_empty (trees : List (Tree Content)) : joinText "" trees = trees := by
  fun_cases joinText "" trees <;> simp_all

theorem joinText_apart {data : String} (nonempty : data ≠ "")
    (apart : ∀ tree, trees.head? = some tree → ∀ next, tree.label ≠ .text next) :
    joinText data trees = .node (.text data) [] :: trees := by
  fun_cases joinText data trees
  · rename_i next below rest
    exact absurd rfl (apart _ rfl next)
  · contradiction
  · rfl

theorem Reads.apart (read : Reads rest trees tail) (stops : ∀ c, rest.head? = some c → c = '<') :
    ∀ tree, trees.head? = some tree → ∀ data, tree.label ≠ .text data := by
  have apart := nodes_apart rest.length stops
  rwa [read rest.length (Nat.le_refl _)] at apart

theorem Reads.escaped (data : String) (later : Reads rest trees tail) :
    Reads (Reference.escape .content data.toList ++ rest) (joinText data trees) tail := by
  by_cases empty : data = ""
  · subst empty
    rw [joinText_empty]
    exact later
  have plain : ∀ c ∈ Reference.escape .content data.toList, (c != '<') = true :=
    fun c member => bne_iff_ne.mpr (Reference.ne_of_mem_escape member).1
  obtain ⟨c, escaped, written⟩ : ∃ c escaped, Reference.escape .content data.toList = c :: escaped :=
    List.exists_cons_of_ne_nil fun none => empty (by simpa [Reference.escape_eq_nil_iff] using none)
  have other : c ≠ '<' := bne_iff_ne.mp (plain c (by simp [written]))
  have read (inside : List Char → List (Tree Content) × List Char) :=
    @node?_text inside c other (escaped ++ rest)
  rw [← List.cons_append, ← written, List.takeWhile_append_of_pos plain,
    List.dropWhile_append_of_pos plain, Reference.decode_escape_append, String.ofList_append,
    String.ofList_toList] at read
  -- The text ends here if markup or nothing follows; else it runs on into the next text.
  by_cases stops : ∀ c, rest.head? = some c → c = '<'
  · have stop : ∀ c, rest.head? = some c → (c != '<') = false := by
      intro c first
      simp [stops c first]
    have none := @takeWhile_append_stop (· != '<') [] rest (by rintro c ⟨⟩) stop
    have all := @dropWhile_append_stop (· != '<') [] rest (by rintro c ⟨⟩) stop
    rw [List.nil_append] at none all
    rw [none, all, Reference.decode, String.ofList_nil, String.append_empty] at read
    rw [joinText_apart empty (later.apart stops)]
    exact later.cons (by rw [written, List.length_append, List.length_cons]; omega) fun limit _ =>
      read (nodes limit)
  · obtain ⟨next, more, rfl, nextOther⟩ : ∃ next more, rest = next :: more ∧ next ≠ '<' := by
      cases rest with
      | nil => exact absurd (by rintro c ⟨⟩) stops
      | cons next more => exact ⟨next, more, rfl, fun same => stops (by rintro c ⟨⟩; exact same)⟩
    intro limit enough
    obtain ⟨limit, rfl⟩ : ∃ lower, limit = lower + 1 :=
      Nat.exists_eq_add_one.mpr (by simp at enough; omega)
    have follow := later (limit + 1) (by simp at enough ⊢; omega)
    rw [nodes, node?_text nextOther] at follow
    rw [nodes, read]
    simp only [Prod.mk.injEq] at follow
    rw [← follow.1, ← follow.2]
    rfl

theorem node?_comment {data : String} (writable : Writable (.comment data)) (rest : List Char) :
    node? inside (write (.node (.comment data) []) ++ rest) = some (.node (.comment data) [], rest) := by
  rw [node?, comment?_write writable]
  rfl

theorem node?_doctype {name : String} (writable : Writable (.doctype name)) (rest : List Char) :
    node? inside (write (.node (.doctype name) []) ++ rest) = some (.node (.doctype name) [], rest) := by
  have noComment : comment? (write (.node (.doctype name) []) ++ rest) = none := by
    rw [write_doctype]
    rfl
  rw [node?, noComment, doctype?_write writable]
  rfl

theorem node?_letter {letter : Char} (alpha : letter.isAlpha = true) (text : List Char) :
    node? inside ('<' :: letter :: text) = element? inside ('<' :: letter :: text) := by
  have other : letter ≠ '!' := by
    rintro rfl
    exact absurd alpha (by decide)
  have noComment : comment? ('<' :: letter :: text) = none := by
    simp [comment?, skip?, other]
  have noDoctype : doctype? ('<' :: letter :: text) = none := by
    simp [doctype?, skip?, other]
  rw [node?, noComment, noDoctype, text?_of_bracket]
  cases element? inside ('<' :: letter :: text) <;> rfl

mutual

-- The induction goes from the last sibling to the first: what is read of a text depends on whether
-- a text follows, so that the rest is read before it.
theorem reads_write : ∀ tree : Tree Content, Expressible tree → ∀ {rest trees tail},
    Reads rest trees tail → Reads (write tree ++ rest) (prepend (joined tree) trees) tail
  | .node content children, expressible, rest, trees, tail, later => by
      rw [Expressible] at expressible
      obtain ⟨writable, childless, below⟩ := expressible
      cases content with
      | document => exact writable.elim
      | fragment => exact writable.elim
      | text data =>
          rw [write_text]
          exact later.escaped data
      | comment data =>
          obtain rfl := childless rfl
          refine later.cons ?_ fun limit _ => node?_comment writable rest
          simp [write_comment]
          omega
      | doctype name =>
          obtain rfl := childless rfl
          refine later.cons ?_ fun limit _ => node?_doctype writable rest
          simp [write_doctype]
          omega
      -- The closing tag ends what is read inside, and the length of the text is limit enough for it.
      | element tag entries =>
          have written : ∃ letter text, letter.isAlpha = true ∧
              write (.node (.element tag entries) children) ++ rest = '<' :: letter :: text := by
            rw [write_element]
            cases letters : tag.toList with
            | nil => simpa [letters] using writable.1.1
            | cons letter name => exact ⟨letter, _, by simpa [letters] using writable.1.1, rfl⟩
          refine later.cons ?_ fun limit enough => ?_
          · rw [write_element]
            simp
            omega
          · obtain ⟨letter, text, alpha, written⟩ := written
            rw [written, node?_letter alpha, ← written]
            refine element?_write writable ?_ ?_
            · intro void
              rw [childless (by change (!isVoidElement tag) = false; simp [void])]
              rfl
            · intro content
              refine reads_writeAll children below (reads_closing _) limit ?_
              rw [write_element, content] at enough
              simp at enough ⊢
              omega

theorem reads_writeAll : ∀ trees : List (Tree Content), ExpressibleAll trees → ∀ {rest tail},
    Reads rest [] tail → Reads (writeAll trees ++ rest) (joinedAll trees) tail
  | [], _, _, _, later => by
      rw [writeAll, joinedAll]
      exact later
  | tree :: trees, expressible, rest, tail, later => by
      rw [ExpressibleAll] at expressible
      rw [writeAll, joinedAll, List.append_assoc]
      exact reads_write tree expressible.1 (reads_writeAll trees expressible.2 later)

end

theorem read?_writeAll {trees : List (Tree Content)} (expressible : ExpressibleAll trees) :
    read? (writeAll trees) = some (joinedAll trees) := by
  have read := reads_writeAll trees expressible reads_nil (writeAll trees).length (by simp)
  rw [List.append_nil] at read
  rw [read?, read]

end Nodes

end LiveTemplate.Markup

namespace LiveTemplate.Document

/-- What is written below a node reads back, in any document, as a copy of its forest in which
adjacent texts are joined and empty ones left out, so that none of either is left. -/
theorem reads_innerMarkup (document : Document) (id : NodeId) {other : Document}
    (wellFormed : other.WellFormed) (expressible : Markup.ExpressibleAll (document.forest id)) :
    ∃ fragment result, other.read? (document.innerMarkup id) = some (fragment, result) ∧
      result.tree fragment = .node .fragment (Markup.joinedAll (document.forest id)) ∧
      Markup.Separated (result.tree fragment) ∧ result.Extends other := by
  have read := Markup.read?_writeAll expressible
  have copied := tree_graft wellFormed (Markup.plantable_read read)
  refine ⟨_, _, ?_, copied, ?_, extends_graft other _⟩
  · rw [read?, innerMarkup, String.toList_ofList, read]
    rfl
  · rw [copied]
    exact Markup.separatedAll_joinedAll _

def notedSource : Document :=
  let made := [.fragment, .element "a:b" [], .text "", .text "<&", .text "lt;", .comment "--"].foldl
    (fun document content => document.edit (.create content)) Document.new
  let noted := [2, 3, 4, 5, 6].foldl (fun document index => document.append ⟨1⟩ ⟨index⟩) made
  noted.setAttribute ⟨2⟩ ⟨some "http://www.w3.org/1999/xlink", "xlink:href"⟩ "\"\u00a0&quot;"

theorem reads_innerMarkup_noted :
    ∃ fragment result, Document.new.read? (notedSource.innerMarkup ⟨1⟩) = some (fragment, result) ∧
      result.tree fragment = .node .fragment (Markup.joinedAll (notedSource.forest ⟨1⟩)) ∧
      Markup.Separated (result.tree fragment) ∧ result.Extends Document.new :=
  reads_innerMarkup notedSource ⟨1⟩ wellFormed_new (by decide +kernel)

end LiveTemplate.Document
