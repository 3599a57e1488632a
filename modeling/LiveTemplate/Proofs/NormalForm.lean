import LiveTemplate.Proofs.Spelling
import Mathlib.Data.List.Chain

/-! What markup is read as is in a normal form: texts are joined and hold something, only elements that
are not void have children, and names and values are spelled as the grammar has them. -/

namespace LiveTemplate

namespace Markup

inductive PrefixSpace : List Char → Option String → Prop
  | bare {name} : ':' ∉ name → PrefixSpace name none
  | xlink {rest} : PrefixSpace ("xlink".toList ++ ':' :: rest) (some "http://www.w3.org/1999/xlink")
  | xml {rest} : PrefixSpace ("xml".toList ++ ':' :: rest) (some "http://www.w3.org/XML/1998/namespace")
  | other {start rest} : ':' ∉ start → start ≠ "xlink".toList → start ≠ "xml".toList →
      PrefixSpace (start ++ ':' :: rest) none

end Markup

namespace Document

structure Normal (document : Document) (id : NodeId) : Prop where
  below : document.kind id ≠ .document ∧ document.kind id ≠ .fragment
  nests : document.children id ≠ [] →
    ∃ tag attributes, document.content id = .element tag attributes ∧ isVoidElement tag = false
  text : ∀ data, document.content id = .text data → data ≠ ""
  tag : ∀ tag attributes, document.content id = .element tag attributes → Markup.TagName tag
  names : ∀ tag attributes, document.content id = .element tag attributes →
    Attribute.Distinct attributes ∧ ∀ entry ∈ attributes, Markup.SpelledName entry.name ∧
      Markup.PrefixSpace entry.name.qualified.toList entry.name.space?
  comment : ∀ data, document.content id = .comment data → ¬ "-->".toList <:+: data.toList
  doctype : ∀ name, document.content id = .doctype name →
    name ≠ "" ∧ ∀ c ∈ name.toList, Markup.isSpace c = false ∧ c ≠ '>'

def Apart (document : Document) (id : NodeId) : Prop :=
  (document.children id).IsChain fun first second =>
    ¬ (document.kind first = .text ∧ document.kind second = .text)

end Document

namespace Markup

theorem prefixSpace_namespaceOf (name : List Char) : PrefixSpace name (namespaceOf name) := by
  rw [namespaceOf]
  split
  · rename_i found
    obtain ⟨rest, found⟩ := Option.isSome_iff_exists.mp found
    rw [skip?_eq_some_iff.mp found]
    exact .xlink
  rename_i notLink
  split
  · rename_i found
    obtain ⟨rest, found⟩ := Option.isSome_iff_exists.mp found
    rw [skip?_eq_some_iff.mp found]
    exact .xml
  rename_i notXml
  by_cases colon : ':' ∈ name
  · obtain ⟨start, rest, rfl, first⟩ := List.eq_append_cons_of_mem colon
    refine .other first ?_ ?_
    · rintro rfl
      exact notLink rfl
    · rintro rfl
      exact notXml rfl
  · exact .bare colon

theorem SpelledName.prefixSpace {name : AttributeName} (spelled : SpelledName name) :
    PrefixSpace name.qualified.toList name.space? :=
  spelled.2.2 ▸ prefixSpace_namespaceOf _

theorem Writable.kind {content : Content} (writable : Writable content) :
    content.kind ≠ .document ∧ content.kind ≠ .fragment := by
  cases content with
  | document | fragment => exact writable.elim
  | _ => exact ⟨by rintro ⟨⟩, by rintro ⟨⟩⟩

section
variable {inside : List Char → List (Tree Content) × List Char} {tree : Tree Content}
  {text rest : List Char}

theorem run?_rest {member : Char → Bool} {run : List Char}
    (found : run? member text = some (run, rest)) : text.dropWhile member = rest := by
  rw [run?] at found
  split at found
  · cases found
  · cases found
    rfl

theorem text?_stops (read : text? text = some (tree, rest)) :
    (∃ data, tree = .node (.text data) [] ∧ data ≠ "") ∧ ∀ c, rest.head? = some c → c = '<' := by
  simp only [text?, Option.map_eq_some_iff, Prod.mk.injEq] at read
  obtain ⟨⟨run, after⟩, found, rfl, rfl⟩ := read
  have nonempty := Reference.decode_ne_nil (run?_inside found).1
  refine ⟨⟨_, rfl, fun empty => nonempty (String.ofList_eq_empty_iff.mp empty)⟩, ?_⟩
  intro c first
  have stop := List.head?_dropWhile_not (· != '<') text
  rw [run?_rest found, first] at stop
  simpa using stop

theorem separated_node? (below : ∀ text, SeparatedAll (inside text).1)
    (read : node? inside text = some (tree, rest)) : Separated tree := by
  rcases node?_forms read with ⟨_, rfl⟩ | ⟨_, rfl⟩ | ⟨_, _, _, rfl, rfl | ⟨after, rfl⟩⟩ | run
  · trivial
  · trivial
  · trivial
  · exact below after
  · obtain ⟨⟨_, rfl, _⟩, _⟩ := text?_stops run
    trivial

/-- A text runs up to the next bracket, so what is read after it is no text. -/
theorem separatedAll_nodes (limit : Nat) (text : List Char) : SeparatedAll (nodes limit text).1 := by
  induction limit generalizing text with
  | zero => trivial
  | succ limit ih =>
      rw [nodes]
      split
      · trivial
      · rename_i tree rest read
        refine ⟨separated_node? ih read, ih rest, fun data isText => ?_⟩
        rcases node?_forms read with ⟨_, rfl⟩ | ⟨_, rfl⟩ | ⟨_, _, _, rfl, _⟩ | run
        · cases isText
        · cases isText
        · cases isText
        · obtain ⟨⟨_, rfl, nonempty⟩, stops⟩ := text?_stops run
          cases isText
          refine ⟨nonempty, fun next first isText => ?_⟩
          obtain ⟨data, isText⟩ := Content.exists_text isText
          exact nodes_apart limit stops next first data isText

theorem separatedAll_read {trees : List (Tree Content)} (read : read? text = some trees) :
    SeparatedAll trees := by
  have all := separatedAll_nodes text.length text
  rwa [nodes_of_read? read] at all

theorem isChain_of_separatedAll {trees : List (Tree Content)} (separated : SeparatedAll trees) :
    trees.IsChain fun first second => ¬ (first.label.kind = .text ∧ second.label.kind = .text) := by
  induction trees with
  | nil => exact .nil
  | cons tree rest ih =>
      obtain ⟨_, later, apart⟩ := separated
      refine List.isChain_cons.mpr ⟨?_, ih later⟩
      rintro next first ⟨isText, nextIsText⟩
      obtain ⟨data, isText⟩ := Content.exists_text isText
      exact (apart data isText).2 next first nextIsText

theorem separated_of_mem {trees : List (Tree Content)} (separated : SeparatedAll trees) :
    ∀ tree ∈ trees, Separated tree ∧ tree.label ≠ .text "" := by
  induction trees with
  | nil => rintro tree ⟨⟩
  | cons tree rest ih =>
      obtain ⟨first, later, apart⟩ := separated
      exact List.forall_mem_cons.mpr ⟨⟨first, fun empty => (apart "" empty).1 rfl⟩, ih later⟩

end

end Markup

namespace Document

variable {document : Document}

theorem WellFormed.apart (wellFormed : document.WellFormed) {id : NodeId}
    (separated : Markup.SeparatedAll (document.forest id)) : document.Apart id := by
  have chain := Markup.isChain_of_separatedAll separated
  rw [wellFormed.forest_eq, List.isChain_map] at chain
  simp only [label_tree] at chain
  exact chain

theorem WellFormed.normal (wellFormed : document.WellFormed) {id : NodeId}
    (expressible : Markup.Expressible (document.tree id))
    (nonempty : (document.tree id).label ≠ .text "") : document.Normal id := by
  rw [wellFormed.tree_eq, Markup.Expressible] at expressible
  rw [label_tree] at nonempty
  obtain ⟨writable, childless, _⟩ := expressible
  constructor
  · exact writable.kind
  · intro below
    cases content : document.content id with
    | element tag attributes =>
        refine ⟨tag, attributes, rfl, Bool.eq_false_iff.mpr fun void => below ?_⟩
        rw [content, Markup.showsChildren, void] at childless
        exact List.map_eq_nil_iff.mp (childless rfl)
    | document | fragment =>
        rw [content] at writable
        exact writable.elim
    | _ =>
        rw [content] at childless
        exact (below (List.map_eq_nil_iff.mp (childless rfl))).elim
  · rintro data isText rfl
    exact nonempty isText
  · intro tag attributes found
    rw [found] at writable
    exact writable.1
  · intro tag attributes found
    rw [found] at writable
    refine ⟨writable.2.2, fun entry member => ?_⟩
    have spelled := writable.2.1 entry member
    exact ⟨spelled, spelled.prefixSpace⟩
  · intro data found
    rw [found] at writable
    exact writable
  · intro name found
    rw [found] at writable
    refine ⟨?_, fun c member => ?_⟩
    · rintro rfl
      exact writable.1 rfl
    · simpa [Markup.isDoctypeNameChar] using writable.2 c member

/-- Whatever markup is read, the nodes below the new fragment are in normal form, and no two texts
stand next to each other. -/
theorem normal_read {markup : String} {fragment : NodeId} {result : Document}
    (wellFormed : document.WellFormed) (read : document.read? markup = some (fragment, result)) :
    result.content fragment = .fragment ∧
      (∀ id, result.IsAbove fragment id → result.Apart id) ∧
      ∀ id, Relation.TransGen result.IsParent fragment id → result.Normal id := by
  obtain ⟨trees, found, same⟩ := Option.map_eq_some_iff.mp read
  have plantable := Markup.plantable_read found
  have copied := tree_graft wellFormed plantable
  have formed := wellFormed_graft wellFormed plantable
  rw [same] at copied formed
  have label := label_tree result fragment
  have start : Markup.ExpressibleAll (result.forest fragment) ∧
      Markup.SeparatedAll (result.forest fragment) := by
    rw [forest, copied]
    exact ⟨Markup.expressibleAll_read found, Markup.separatedAll_read found⟩
  have all (id : NodeId) (above : result.IsAbove fragment id) :
      Markup.ExpressibleAll (result.forest id) ∧ Markup.SeparatedAll (result.forest id) := by
    refine formed.forest_of_isAbove
      (fun trees => Markup.ExpressibleAll trees ∧ Markup.SeparatedAll trees) ?_ above start
    rintro trees ⟨expressible, separated⟩ ⟨content, children⟩ member
    exact ⟨((Markup.expressibleAll_iff trees).mp expressible _ member).2.2,
      (Markup.separated_of_mem separated _ member).1⟩
  refine ⟨?_, fun id above => formed.apart (all id above).2, fun id below => ?_⟩
  · rw [← label, copied]
    rfl
  · obtain ⟨parent, above, linked⟩ := Relation.TransGen.tail'_iff.mp below
    obtain ⟨expressible, separated⟩ := all parent above
    have member : result.tree id ∈ result.forest parent := by
      rw [formed.forest_eq]
      exact List.mem_map_of_mem ((formed.linked parent id).mpr linked)
    exact formed.normal ((Markup.expressibleAll_iff _).mp expressible _ member)
      (Markup.separated_of_mem separated _ member).2

def mixedMarkup : String :=
  "<!DocType x><A xml:lang=1 b='&lt;' xlink:b  b = 2>t&amp;<BR>u<!-->--></A>v"

theorem normal_mixed : ∃ result, Document.new.read? mixedMarkup = some (⟨1⟩, result) ∧
    result.children ⟨1⟩ = [⟨2⟩, ⟨3⟩, ⟨8⟩] ∧ result.parent? ⟨3⟩ = some ⟨1⟩ ∧
    result.content ⟨3⟩ = .element "a" [⟨⟨some "http://www.w3.org/XML/1998/namespace", "xml:lang"⟩, "1"⟩,
      ⟨.plain "b", "2"⟩, ⟨⟨some "http://www.w3.org/1999/xlink", "xlink:b"⟩, ""⟩] ∧
    result.content ⟨1⟩ = .fragment ∧ result.Apart ⟨1⟩ ∧ result.Normal ⟨3⟩ := by
  have seen : (Document.new.read? mixedMarkup).map (fun read =>
      (read.1, read.2.children ⟨1⟩, read.2.parent? ⟨3⟩, read.2.content ⟨3⟩)) =
        some (⟨1⟩, [⟨2⟩, ⟨3⟩, ⟨8⟩], some ⟨1⟩,
          .element "a" [⟨⟨some "http://www.w3.org/XML/1998/namespace", "xml:lang"⟩, "1"⟩,
            ⟨.plain "b", "2"⟩, ⟨⟨some "http://www.w3.org/1999/xlink", "xlink:b"⟩, ""⟩]) := by
    decide +kernel
  obtain ⟨⟨fragment, result⟩, read, same⟩ := Option.map_eq_some_iff.mp seen
  simp only [Prod.mk.injEq] at same
  obtain ⟨rfl, children, linked, content⟩ := same
  obtain ⟨isFragment, apart, normal⟩ := normal_read wellFormed_new read
  exact ⟨result, read, children, linked, content, isFragment, apart ⟨1⟩ .refl,
    normal ⟨3⟩ (.single linked)⟩

end Document

end LiveTemplate
