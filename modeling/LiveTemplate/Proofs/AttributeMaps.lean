import LiveTemplate.Proofs.Registers
import Mathlib.Data.List.TakeWhile

/-! The attributes of an element are a finite map, whose keys are names up to the part before their
first colon. -/

namespace LiveTemplate

namespace AttributeName

inductive LocalPart : List Char → List Char → Prop
  | bare {name} : ':' ∉ name → LocalPart name name
  | qualified {space name} : ':' ∉ space → LocalPart (space ++ ':' :: name) name

theorem localPart_iff (name : AttributeName) (part : List Char) :
    LocalPart name.qualified.toList part ↔ name.localName.toList = part := by
  have bare {text : List Char} (plain : ':' ∉ text) : text.dropWhile (· != ':') = [] := by
    rw [List.dropWhile_eq_nil_iff]
    intro c member
    rw [bne_iff_ne]
    rintro rfl
    exact plain member
  constructor
  · intro counts
    rw [localName]
    generalize name.qualified = text at counts
    generalize written : text.toList = letters at counts
    cases counts with
    | bare plain => rw [bare plain, written]
    | @qualified space part plain =>
        rw [List.dropWhile_append, bare plain]
        exact String.toList_ofList
  · intro same
    by_cases colon : ':' ∈ name.qualified.toList
    · obtain ⟨space, rest, split, plain⟩ := List.eq_append_cons_of_mem colon
      rw [localName, split, List.dropWhile_append, bare plain] at same
      have same : rest = part := String.toList_ofList.symm.trans same
      exact split ▸ same ▸ .qualified plain
    · rw [localName, bare colon] at same
      exact same ▸ .bare colon

/-- Names agree when their namespaces and the parts that count are equal. -/
theorem agrees_iff_localPart (first second : AttributeName) : first.agrees second = true ↔
    first.space? = second.space? ∧
      ∃ part, LocalPart first.qualified.toList part ∧ LocalPart second.qualified.toList part := by
  rw [agrees_iff]
  simp only [localPart_iff, exists_eq_left', String.toList_inj]
  rw [eq_comm (a := second.localName)]

theorem equivalence_agrees : Equivalence fun first second : AttributeName => first.agrees second = true where
  refl := agrees_refl
  symm := fun agrees => by rwa [agrees_comm]
  trans := agrees_trans

end AttributeName

namespace Attribute

section
variable {before after entries : List Attribute} {entry : Attribute} {name other : AttributeName}

theorem Distinct.apart (distinct : Distinct (before ++ entry :: after))
    (agrees : entry.name.agrees name = true) :
    (∀ rest ∈ before, rest.name.agrees name = false) ∧ ∀ rest ∈ after, rest.name.agrees name = false := by
  have differ {rest : Attribute} (apart : rest.name.agrees entry.name = false) :
      rest.name.agrees name = false := by
    rw [Bool.eq_false_iff] at apart ⊢
    intro same
    rw [AttributeName.agrees_comm] at agrees
    exact apart (AttributeName.agrees_trans same agrees)
  rw [Distinct, List.pairwise_append, List.pairwise_cons] at distinct
  refine ⟨fun rest member => differ (distinct.2.2 rest member entry List.mem_cons_self),
    fun rest member => differ ?_⟩
  rw [AttributeName.agrees_comm]
  exact distinct.2.1.1 rest member

theorem assign_of_agrees (apart : ∀ rest ∈ before, rest.name.agrees name = false)
    (agrees : entry.name.agrees name = true) (value : String) :
    assign name value (before ++ entry :: after) = before ++ ⟨entry.name, value⟩ :: after := by
  induction before with
  | nil => rw [List.nil_append, assign, if_pos agrees, List.nil_append]
  | cons first rest ih =>
      rw [List.forall_mem_cons] at apart
      rw [List.cons_append, assign, if_neg (by simp [apart.1]), ih apart.2, List.cons_append]

theorem assign_of_missing (missing : ∀ entry ∈ entries, entry.name.agrees name = false) (value : String) :
    assign name value entries = entries ++ [⟨name, value⟩] := by
  induction entries with
  | nil => rfl
  | cons entry rest ih =>
      rw [List.forall_mem_cons] at missing
      rw [assign, if_neg (by simp [missing.1]), ih missing.2, List.cons_append]

theorem erase_of_missing (missing : ∀ entry ∈ entries, entry.name.agrees name = false) :
    erase entries name = entries :=
  List.filter_eq_self.mpr fun entry member => by rw [missing entry member]; rfl

theorem erase_of_agrees (distinct : Distinct (before ++ entry :: after))
    (agrees : entry.name.agrees name = true) :
    erase (before ++ entry :: after) name = before ++ after := by
  obtain ⟨earlier, later⟩ := distinct.apart agrees
  have here : erase (entry :: after) name = erase after name :=
    List.filter_cons_of_neg (by simp [agrees])
  rw [erase, List.filter_append]
  exact congrArg₂ (· ++ ·) (erase_of_missing earlier) (here.trans (erase_of_missing later))

theorem perm_put_put (distinct : Distinct entries) (apart : name.agrees other = false)
    (value? later? : Option String) :
    (put other later? (put name value? entries)).Perm (put name value? (put other later? entries)) := by
  refine perm_of_named? (distinct_put _ _ (distinct_put _ _ distinct))
    (distinct_put _ _ (distinct_put _ _ distinct)) fun third => ?_
  have reverse : other.agrees name = false := by rwa [AttributeName.agrees_comm]
  simp only [named?_put, apart, reverse, Bool.false_eq_true, if_false]
  by_cases first : name.agrees third = true
  · have second : ¬ other.agrees third = true := by
      intro agrees
      rw [AttributeName.agrees_comm] at agrees
      rw [AttributeName.agrees_trans first agrees] at apart
      cases apart
    rw [if_neg second, if_pos first, if_pos first]
  · rw [if_neg first, if_neg first]

end

end Attribute

inductive Edit.Puts (id : NodeId) (name : AttributeName) : Option String → Edit → Prop
  | set (value : String) : Puts id name (some value) (.setAttribute id name value)
  | remove : Puts id name none (.removeAttribute id name)

namespace Document

structure MapsAttributes (document : Document) (id : NodeId) : Prop where
  found : ∀ name value, document.attribute? id name = some value ↔
    ∃ entry ∈ (document.content id).attributes, entry.name.agrees name = true ∧ entry.value = value
  put : ∀ {name value? edit} other, Edit.Puts id name value? edit →
    (document.edit edit).attribute? id other =
      if name.agrees other then value? else document.attribute? id other
  elsewhere : ∀ {name value? edit} other, Edit.Puts id name value? edit → other ≠ id →
    (document.edit edit).node other = document.node other
  replaced : ∀ {before entry after} name value,
    (document.content id).attributes = before ++ entry :: after → entry.name.agrees name = true →
    ((document.setAttribute id name value).content id).attributes =
      before ++ ⟨entry.name, value⟩ :: after
  appended : ∀ name value, document.attribute? id name = none →
    ((document.setAttribute id name value).content id).attributes =
      (document.content id).attributes ++ [⟨name, value⟩]
  removed : ∀ {before entry after} name,
    (document.content id).attributes = before ++ entry :: after → entry.name.agrees name = true →
    ((document.removeAttribute id name).content id).attributes = before ++ after
  absent : ∀ name, document.attribute? id name = none →
    ((document.removeAttribute id name).content id).attributes = (document.content id).attributes
  commutes : ∀ {name other value? later? first second}, name.agrees other = false →
    Edit.Puts id name value? first → Edit.Puts id other later? second →
    ∃ tag entries others, ((document.edit first).edit second).content id = .element tag entries ∧
      (document.edit second).edit first =
        ((document.edit first).edit second).setContent id (.element tag others) ∧
      entries.Perm others

section
variable {document : Document} {id : NodeId} {name other : AttributeName} {value? later? : Option String}

theorem edit_of_puts {edit : Edit} (puts : Edit.Puts id name value? edit) (document : Document) :
    document.edit edit = document.putAttribute id name value? := by
  cases puts <;> rfl

theorem node_setContent (bound : document.Has id) (content : Content) (other : NodeId) :
    (document.setContent id content).node other =
      if other = id then { document.node id with content } else document.node other :=
  node_modify bound _ other

theorem setContent_setContent (document : Document) (id : NodeId) (first second : Content) :
    (document.setContent id first).setContent id second = document.setContent id second := by
  by_cases bound : document.Has id
  · have later : (document.setContent id first).Has id := by rwa [Has, size_setContent]
    refine eq_of_nodes (by simp only [size_setContent]) fun other => ?_
    rw [node_setContent later, node_setContent bound, node_setContent bound, node_setContent bound]
    split
    · rw [if_pos rfl]
    · rfl
  · have nothing (content : Content) : document.setContent id content = document :=
      modify_of_not_has bound _
    rw [nothing first]

theorem attribute?_eq_none : document.attribute? id name = none ↔
    ∀ entry ∈ (document.content id).attributes, entry.name.agrees name = false := by
  rw [attribute?, Attribute.lookup, Option.map_eq_none_iff]
  exact Attribute.named?_eq_none

theorem attribute?_eq_some (distinct : Attribute.Distinct (document.content id).attributes)
    {value : String} : document.attribute? id name = some value ↔
      ∃ entry ∈ (document.content id).attributes, entry.name.agrees name = true ∧ entry.value = value := by
  rw [attribute?, Attribute.lookup, Option.map_eq_some_iff]
  constructor
  · rintro ⟨entry, found, same⟩
    exact ⟨entry, Attribute.mem_of_named? found, Attribute.agrees_of_named? found, same⟩
  · rintro ⟨entry, member, agrees, same⟩
    refine ⟨entry, ?_, same⟩
    have found := Attribute.named?_of_mem distinct member
    rwa [Attribute.named?_congr agrees] at found

theorem putAttribute_of_element {tag : String} {entries : List Attribute}
    (held : document.content id = .element tag entries) :
    document.putAttribute id name value? =
      document.setContent id (.element tag (Attribute.put name value? entries)) := by
  rw [putAttribute, held]
  rfl

theorem content_setContent_self (bound : document.Has id) (content : Content) :
    (document.setContent id content).content id = content := by
  rw [content_setContent bound, if_pos rfl]

theorem putAttribute_putAttribute {tag : String} {entries : List Attribute}
    (held : document.content id = .element tag entries) (name other : AttributeName)
    (value? later? : Option String) :
    (document.putAttribute id name value?).putAttribute id other later? =
      document.setContent id
        (.element tag (Attribute.put other later? (Attribute.put name value? entries))) := by
  have bound : document.Has id := has_of_kind (by rw [kind, held]; rintro ⟨⟩)
  rw [putAttribute_of_element held,
    putAttribute_of_element (content_setContent_self bound _), setContent_setContent]

theorem WellFormed.mapsAttributes (wellFormed : document.WellFormed) (kind : document.kind id = .element) :
    document.MapsAttributes id where
  found := fun _ _ => attribute?_eq_some (wellFormed.names id)
  put := by
    intro name value? edit other puts
    rw [edit_of_puts puts, attribute?_putAttribute kind]
  elsewhere := by
    intro name value? edit other puts differ
    rw [edit_of_puts puts, putAttribute, node_setContent (has_of_kind (by rw [kind]; rintro ⟨⟩)),
      if_neg differ]
  replaced := by
    intro before entry after name value split agrees
    have distinct := wellFormed.names id
    rw [split] at distinct
    refine (attributes_putAttribute kind name (some value)).trans ?_
    rw [split]
    exact Attribute.assign_of_agrees (Attribute.Distinct.apart distinct agrees).1 agrees value
  appended := fun name value missing => (attributes_putAttribute kind name (some value)).trans
    (Attribute.assign_of_missing (attribute?_eq_none.mp missing) value)
  removed := by
    intro before entry after name split agrees
    have distinct := wellFormed.names id
    rw [split] at distinct
    refine (attributes_putAttribute kind name none).trans ?_
    rw [split]
    exact Attribute.erase_of_agrees distinct agrees
  absent := fun name missing => (attributes_putAttribute kind name none).trans
    (Attribute.erase_of_missing (attribute?_eq_none.mp missing))
  commutes := by
    intro name other value? later? first second apart puts laterPuts
    obtain ⟨tag, entries, held⟩ := Content.exists_element kind
    have bound : document.Has id := has_of_kind (by rw [kind]; rintro ⟨⟩)
    have distinct : Attribute.Distinct (document.content id).attributes := wellFormed.names id
    rw [held] at distinct
    rw [edit_of_puts puts, edit_of_puts laterPuts, edit_of_puts puts, edit_of_puts laterPuts,
      putAttribute_putAttribute held, putAttribute_putAttribute held]
    exact ⟨tag, _, _, content_setContent_self bound _, (setContent_setContent _ _ _ _).symm,
      Attribute.perm_put_put distinct apart value? later?⟩

/-- After any operations, the attributes of every element are a finite map from names to values. Names
are the same key if their namespaces and the parts that count are equal. -/
theorem mapsAttributes_of_leads (leads : Document.new.Leads document)
    (kind : document.kind id = .element) :
    (Equivalence fun first second : AttributeName => first.agrees second = true) ∧
    (∀ first second : AttributeName, first.agrees second = true ↔ first.space? = second.space? ∧
      ∃ part, AttributeName.LocalPart first.qualified.toList part ∧
        AttributeName.LocalPart second.qualified.toList part) ∧
    document.MapsAttributes id :=
  ⟨AttributeName.equivalence_agrees, AttributeName.agrees_iff_localPart,
    (leads.kept wellFormed_new).1.mapsAttributes kind⟩

def linkedDocument : Document :=
  let read := Document.new.edit (.read "<p a:x=\"1\" y=\"2\" b:x=\"3\"></p>")
  read.edit (.clone ⟨2⟩ true)

theorem mapsAttributes_linked :
    Document.new.Leads linkedDocument ∧ linkedDocument.kind ⟨3⟩ = .element ∧
      linkedDocument.MapsAttributes ⟨3⟩ ∧
      (linkedDocument.content ⟨3⟩).attributes = [⟨.plain "a:x", "3"⟩, ⟨.plain "y", "2"⟩] ∧
      ((linkedDocument.setAttribute ⟨3⟩ (.plain "x") "4").content ⟨3⟩).attributes =
        [⟨.plain "a:x", "4"⟩, ⟨.plain "y", "2"⟩] := by
  have leads : Document.new.Leads linkedDocument := by
    refine .tail (.tail .refl (@Step.edit _ (.read _) trivial)) (@Step.edit _ (.clone ⟨2⟩ true) ?_)
    change 2 < _
    decide +kernel
  have kind : linkedDocument.kind ⟨3⟩ = .element := by decide +kernel
  have laws := (mapsAttributes_of_leads leads kind).2.2
  have held : (linkedDocument.content ⟨3⟩).attributes = [⟨.plain "a:x", "3"⟩, ⟨.plain "y", "2"⟩] := by
    decide +kernel
  exact ⟨leads, kind, laws, held, @MapsAttributes.replaced _ _ laws [] ⟨.plain "a:x", "3"⟩ [⟨.plain "y", "2"⟩]
    (.plain "x") "4" held (by decide +kernel)⟩

end

end Document

end LiveTemplate
