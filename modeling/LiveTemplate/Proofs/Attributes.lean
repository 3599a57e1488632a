import LiveTemplate.Proofs.Names
import LiveTemplate.Proofs.Reconciling

/-! Attribute lists as finite maps, and what showing a binding does to its element. -/

namespace LiveTemplate

namespace Attribute

def named? (entries : List Attribute) (name : AttributeName) : Option Attribute :=
  entries.find? fun entry => entry.name.agrees name

theorem named?_cons (entry : Attribute) (rest : List Attribute) (name : AttributeName) :
    named? (entry :: rest) name =
      if entry.name.agrees name then some entry else named? rest name := by
  rw [named?, List.find?_cons]
  split <;> simp_all [named?]

theorem named?_congr {first second : AttributeName} (agrees : first.agrees second = true)
    (entries : List Attribute) : named? entries first = named? entries second := by
  have same (name : AttributeName) : name.agrees first = name.agrees second := by
    rw [Bool.eq_iff_iff]
    refine ⟨fun left => AttributeName.agrees_trans left agrees, fun right => ?_⟩
    rw [AttributeName.agrees_comm] at agrees
    exact AttributeName.agrees_trans right agrees
  simp only [named?, same]

theorem named?_of_mem {entries : List Attribute} (distinct : Distinct entries) {entry : Attribute}
    (member : entry ∈ entries) : named? entries entry.name = some entry := by
  induction entries with
  | nil => cases member
  | cons head rest ih =>
      obtain ⟨apart, restDistinct⟩ := List.pairwise_cons.mp distinct
      rw [named?_cons]
      rcases List.mem_cons.mp member with rfl | later
      · rw [if_pos (AttributeName.agrees_refl _)]
      · rw [apart entry later, ih restDistinct later]
        rfl

theorem mem_of_named? {entries : List Attribute} {name : AttributeName} {entry : Attribute}
    (found : named? entries name = some entry) : entry ∈ entries :=
  List.mem_of_find?_eq_some found

theorem agrees_of_named? {entries : List Attribute} {name : AttributeName} {entry : Attribute}
    (found : named? entries name = some entry) : entry.name.agrees name = true := by
  have known := List.find?_some found
  exact known

theorem named?_eq_none {entries : List Attribute} {name : AttributeName} :
    named? entries name = none ↔ ∀ entry ∈ entries, entry.name.agrees name = false := by
  simp [named?, List.find?_eq_none]

theorem mem_iff_named? {entries : List Attribute} (distinct : Distinct entries) (entry : Attribute) :
    entry ∈ entries ↔ named? entries entry.name = some entry :=
  ⟨named?_of_mem distinct, mem_of_named?⟩

/-- Attributes are determined by what their names stand for, but for the order. -/
theorem perm_of_named? {entries others : List Attribute} (distinct : Distinct entries)
    (otherDistinct : Distinct others) (same : ∀ name, named? entries name = named? others name) :
    entries.Perm others := by
  have unique {entries : List Attribute} (distinct : Distinct entries) : entries.Nodup := by
    refine distinct.imp ?_
    rintro entry _ apart rfl
    rw [AttributeName.agrees_refl] at apart
    cases apart
  rw [List.perm_ext_iff_of_nodup (unique distinct) (unique otherDistinct)]
  intro entry
  rw [mem_iff_named? distinct, mem_iff_named? otherDistinct, same]

theorem named?_assign (entries : List Attribute) (name other : AttributeName) (value : String) :
    named? (assign name value entries) other =
      if name.agrees other then
        some ⟨((named? entries name).map Attribute.name).getD name, value⟩
      else named? entries other := by
  induction entries with
  | nil =>
      rw [assign, named?_cons]
      rfl
  | cons head rest ih =>
      rw [assign]
      by_cases taken : head.name.agrees name = true
      · rw [if_pos taken, named?_cons, named?_cons, named?_cons, if_pos taken]
        have same : head.name.agrees other = name.agrees other := by
          rw [Bool.eq_iff_iff]
          refine ⟨fun agrees => AttributeName.agrees_trans ?_ agrees,
            AttributeName.agrees_trans taken⟩
          rwa [AttributeName.agrees_comm]
        simp only [same]
        split <;> rfl
      · rw [if_neg taken, named?_cons, named?_cons, named?_cons, if_neg taken, ih]
        by_cases agrees : name.agrees other = true
        · have apart : ¬ head.name.agrees other = true := by
            intro headAgrees
            rw [AttributeName.agrees_comm] at agrees
            exact taken (AttributeName.agrees_trans headAgrees agrees)
          rw [if_neg apart, if_pos agrees, if_pos agrees]
        · rw [if_neg agrees, if_neg agrees]

theorem named?_erase (entries : List Attribute) (name other : AttributeName) :
    named? (erase entries name) other =
      if name.agrees other then none else named? entries other := by
  by_cases agrees : name.agrees other = true
  · rw [if_pos agrees, named?_eq_none]
    intro entry member
    obtain ⟨_, apart⟩ := List.mem_filter.mp member
    rw [Bool.eq_false_iff]
    intro entryAgrees
    rw [AttributeName.agrees_comm] at agrees
    simp [AttributeName.agrees_trans entryAgrees agrees] at apart
  · rw [if_neg agrees, named?, erase, List.find?_filter, named?]
    congr 1
    funext entry
    cases entryAgrees : entry.name.agrees other with
    | false => simp
    | true =>
        have apart : entry.name.agrees name = false := by
          rw [Bool.eq_false_iff]
          intro nameAgrees
          rw [AttributeName.agrees_comm] at nameAgrees
          exact agrees (AttributeName.agrees_trans nameAgrees entryAgrees)
        simp [apart]

def put (name : AttributeName) (value? : Option String) (entries : List Attribute) :
    List Attribute :=
  match value? with
  | some value => assign name value entries
  | none => erase entries name

theorem distinct_put (name : AttributeName) (value? : Option String) {entries : List Attribute}
    (distinct : Distinct entries) : Distinct (put name value? entries) := by
  cases value? with
  | some value => exact distinct_assign name value distinct
  | none => exact distinct_erase name distinct

theorem named?_put (entries : List Attribute) (name other : AttributeName) (value? : Option String) :
    named? (put name value? entries) other =
      if name.agrees other then
        value?.map fun value => ⟨((named? entries name).map Attribute.name).getD name, value⟩
      else named? entries other := by
  cases value? with
  | some value => exact named?_assign entries name other value
  | none => exact named?_erase entries name other

end Attribute

namespace Content

theorem kind_mapAttributes (content : Content) (change : List Attribute → List Attribute) :
    (content.mapAttributes change).kind = content.kind := by
  cases content <;> rfl

theorem exists_text {content : Content} (isText : content.kind = .text) :
    ∃ data, content = .text data := by
  cases content with
  | text data => exact ⟨data, rfl⟩
  | _ => cases isText

theorem exists_element {content : Content} (isElement : content.kind = .element) :
    ∃ tag attributes, content = .element tag attributes := by
  cases content with
  | element tag attributes => exact ⟨tag, attributes, rfl⟩
  | _ => cases isElement

theorem attributes_eq_nil {content : Content} (plain : content.kind ≠ .element) :
    content.attributes = [] := by
  cases content with
  | element tag attributes => exact (plain rfl).elim
  | _ => rfl

theorem mapAttributes_mapAttributes (content : Content)
    (first second : List Attribute → List Attribute) :
    (content.mapAttributes first).mapAttributes second =
      content.mapAttributes fun entries => second (first entries) := by
  cases content <;> rfl

theorem mapAttributes_self (content : Content) :
    (content.mapAttributes fun _ => content.attributes) = content := by
  cases content <;> rfl

theorem attributes_mapAttributes {content : Content} {entry : Attribute}
    (member : entry ∈ content.attributes) (change : List Attribute → List Attribute) :
    (content.mapAttributes change).attributes = change content.attributes := by
  cases content with
  | element tag entries => rfl
  | _ => cases member

theorem distinct_mapAttributes {content : Content} {change : List Attribute → List Attribute}
    (kept : ∀ entries, Attribute.Distinct entries → Attribute.Distinct (change entries))
    (distinct : Attribute.Distinct content.attributes) :
    Attribute.Distinct (content.mapAttributes change).attributes := by
  cases content with
  | element tag entries => exact kept entries distinct
  | _ => exact distinct

end Content

namespace Document

def putAttribute (document : Document) (id : NodeId) (name : AttributeName)
    (value? : Option String) : Document :=
  document.setContent id ((document.content id).mapAttributes (Attribute.put name value?))

section
variable {document : Document} {id : NodeId} {name : AttributeName} {value? : Option String}

theorem wellFormed_putAttribute (wellFormed : document.WellFormed) :
    (document.putAttribute id name value?).WellFormed := by
  apply wellFormed_setContent wellFormed
  · exact Content.kind_mapAttributes _ _
  · exact Content.distinct_mapAttributes (fun _ => Attribute.distinct_put name value?)
      (wellFormed.names id)

theorem keepsKinds_putAttribute : (document.putAttribute id name value?).KeepsKinds document :=
  keepsKinds_setContent (Content.kind_mapAttributes _ _)

theorem content_putAttribute (other : NodeId) :
    (document.putAttribute id name value?).content other =
      if other = id then (document.content id).mapAttributes (Attribute.put name value?)
      else document.content other := by
  by_cases bound : document.Has id
  · exact content_setContent bound _ _
  · rw [putAttribute, setContent, modify_of_not_has bound]
    split
    · rename_i same
      rw [same, content, node_of_not_has bound]
      rfl
    · rfl

theorem content_putAttribute_text {other : NodeId} {text : String}
    (same : document.content other = .text text) :
    (document.putAttribute id name value?).content other = .text text := by
  rw [content_putAttribute]
  split
  · rename_i equal
    rw [← equal, same]
    rfl
  · exact same

end

end Document

namespace PartGraph

def valueOf (graph : PartGraph) (binding : Binding) : Option String :=
  match binding.pieces with
  | [.part index] => graph.parts[index]?.bind Part.value?
  | _ => some (graph.textOf binding)

theorem valueOf_congr {graph result : PartGraph} {binding : Binding}
    (same : ∀ part, .part part ∈ binding.pieces →
      result.parts[part]?.bind Part.value? = graph.parts[part]?.bind Part.value?) :
    result.valueOf binding = graph.valueOf binding := by
  have texts : result.textOf binding = graph.textOf binding := by
    rw [textOf, textOf]
    congr 1
    apply List.map_congr_left
    rintro (text | part) member
    · rfl
    · rw [pieceText, pieceText, same part member]
  rw [valueOf, valueOf, texts]
  split
  · rename_i part whole
    exact same part (by rw [whole]; exact List.mem_singleton_self _)
  · rfl

theorem valueOf_eq_textOf {graph : PartGraph} {binding : Binding}
    (several : ∀ part, binding.pieces ≠ [.part part]) :
    graph.valueOf binding = some (graph.textOf binding) := by
  rw [valueOf]
  split
  · rename_i part same
    exact (several part same).elim
  · rfl

end PartGraph

namespace Scene

theorem reconcileBinding_eq (scene : Scene) {index : Nat} {binding : Binding}
    (found : scene.graph.bindings[index]? = some binding) :
    scene.reconcileBinding index =
      { scene with
        document := scene.document.putAttribute binding.element binding.name
          (scene.graph.valueOf binding) } := by
  rw [reconcileBinding, found]
  dsimp only
  split
  · rename_i part whole
    rw [PartGraph.valueOf, whole]
    dsimp only
    split
    · rename_i value valueFound
      rw [valueFound]
      rfl
    · rename_i missing
      rw [missing]
      rfl
  · rename_i several
    rw [PartGraph.valueOf_eq_textOf several]
    rfl

end Scene

end LiveTemplate
