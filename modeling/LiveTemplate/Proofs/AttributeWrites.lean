import LiveTemplate.Proofs.Growing

/-! Writing to attributes: the element of the written binding shows the new value, and all other
attributes of all elements stay. -/

namespace LiveTemplate

namespace PartGraph

variable {graph : PartGraph} {index number : Nat} {target result : Target} {binding : Binding}
  {value? : Option String}

theorem Bound.setTarget (bound : graph.Bound)
    (found : graph.parts[index]?.map Part.target = some target)
    (same : ∀ number, (∃ value?, result = .attribute number value?) ↔
      ∃ value?, target = .attribute number value?) : (graph.setTarget index result).Bound where
  part := by
    intro other number value? changed
    rcases target_of_setTarget changed with ⟨rfl, equal⟩ | ⟨_, older⟩
    · obtain ⟨old?, old⟩ := (same number).mp ⟨value?, equal.symm⟩
      exact bound.part (found.trans (congrArg some old))
    · exact bound.part older
  piece := by
    intro number other recorded recordedFound member
    obtain ⟨value?, old⟩ := bound.piece recordedFound member
    by_cases equal : index = other
    · subst equal
      obtain ⟨new?, rfl⟩ := (same number).mpr ⟨value?, Option.some.inj (found.symm.trans old)⟩
      exact ⟨new?, target_setTarget_self found _⟩
    · exact ⟨value?, by rw [target_setTarget, if_neg equal, old]⟩
  keyed := bound.keyed

theorem Bound.congr {later : PartGraph} (bound : graph.Bound) (parts : later.parts = graph.parts)
    (bindings : later.bindings = graph.bindings) : later.Bound where
  part := by
    rw [parts, bindings]
    exact bound.part
  piece := by
    rw [parts, bindings]
    exact bound.piece
  keyed := by
    rw [bindings]
    exact bound.keyed

theorem expression_setTarget (graph : PartGraph) (index : Nat) (target : Target) (other : Nat) :
    (graph.setTarget index target).parts[other]?.map Part.expression =
      graph.parts[other]?.map Part.expression := by
  rw [parts_setTarget]
  split
  · rw [Option.map_map]
    rfl
  · rfl

theorem value?_setTarget_of_ne {other : Nat} (differ : index ≠ other) :
    (graph.setTarget index target).parts[other]?.bind Part.value? =
      graph.parts[other]?.bind Part.value? := by
  rw [parts_setTarget, if_neg differ]

theorem Bound.valueOf_setTarget {other : Nat} (bound : graph.Bound)
    (target : graph.parts[index]?.map Part.target = some (.attribute number value?))
    (found : graph.bindings[other]? = some binding) (differ : other ≠ number) (result : Target) :
    (graph.setTarget index result).valueOf binding = graph.valueOf binding := by
  apply valueOf_congr
  intro part member
  apply value?_setTarget_of_ne
  rintro rfl
  obtain ⟨_, otherTarget⟩ := bound.piece found member
  cases target.symm.trans otherTarget
  exact differ rfl

end PartGraph

theorem Attribute.Distinct.eq_of_agrees {entries : List Attribute} (distinct : Attribute.Distinct entries)
    {first second : Attribute} (firstMember : first ∈ entries) (secondMember : second ∈ entries)
    (agrees : first.name.agrees second.name = true) : first = second := by
  have same := Attribute.named?_congr agrees entries
  rw [Attribute.named?_of_mem distinct firstMember, Attribute.named?_of_mem distinct secondMember]
    at same
  exact Option.some.inj same

namespace Scene

variable {scene result : Scene} {id : NodeId} {content : Content} {entry : Attribute}
  {index number : Nat} {binding : Binding} {value? : Option String}

theorem Bears.congr (bears : scene.Bears id entry)
    (bindings : result.graph.bindings = scene.graph.bindings)
    (expressions : ∀ part : Nat, result.graph.parts[part]?.map Part.expression =
      scene.graph.parts[part]?.map Part.expression)
    (values : ∀ (index : Nat) (binding : Binding), scene.graph.bindings[index]? = some binding →
      binding.element = id → binding.name = entry.name →
        result.graph.valueOf binding = scene.graph.valueOf binding)
    (named : Attribute.named? (result.document.content id).attributes entry.name =
      Attribute.named? (scene.document.content id).attributes entry.name) : result.Bears id entry := by
  revert bears
  simp only [Bears, named]
  split
  · exact fun bears => bears
  · rintro ⟨index, binding, found, element, name, spelled, shown⟩
    refine ⟨index, binding, bindings ▸ found, element, name, ?_, ?_⟩
    · refine spelled.congr (fun _ _ _ reads => reads) fun part expression _ known => ?_
      rw [expressions, known]
    · rw [shown, values index binding found element name]

theorem Displays.congr (displays : scene.Displays id content)
    (bindings : result.graph.bindings = scene.graph.bindings)
    (expressions : ∀ part : Nat, result.graph.parts[part]?.map Part.expression =
      scene.graph.parts[part]?.map Part.expression)
    (values : ∀ (index : Nat) (binding : Binding), scene.graph.bindings[index]? = some binding →
      binding.element = id → result.graph.valueOf binding = scene.graph.valueOf binding)
    (same : result.document.content id = scene.document.content id) : result.Displays id content := by
  refine ⟨displays.distinct, ?_, ?_, ?_, ?_⟩
  · rw [bindings]
    exact displays.keyed
  · rw [same]
    exact displays.same
  · intro entry member
    exact (displays.entry entry member).congr bindings expressions
      (fun index binding found element _ => values index binding found element) (by rw [same])
  · rw [same]
    exact displays.other

theorem Bears.exists_named (bears : scene.Bears id entry)
    (templated : (Token.templated? entry.value).isSome = true) :
    ∃ (index : Nat) (binding : Binding) (tokens : List Token),
      Token.templated? entry.value = some tokens ∧
      scene.graph.bindings[index]? = some binding ∧ binding.element = id ∧
      binding.name = entry.name ∧ scene.graph.Spelled Eq tokens binding.pieces ∧
      Attribute.named? (scene.document.content id).attributes entry.name =
        (scene.graph.valueOf binding).map fun value => ⟨entry.name, value⟩ := by
  obtain ⟨tokens, found⟩ := Option.isSome_iff_exists.mp templated
  simp only [Bears, found] at bears
  obtain ⟨index, binding, known⟩ := bears
  exact ⟨index, binding, tokens, found, known⟩

theorem Displays.attributes_eq (displays : scene.Displays id content) (plain : content.kind ≠ .element) :
    content.attributes = [] ∧ (scene.document.content id).attributes = [] := by
  obtain ⟨entries, same⟩ := displays.same
  refine ⟨Content.attributes_eq_nil plain, Content.attributes_eq_nil ?_⟩
  rwa [same, Content.kind_mapAttributes]

theorem Displays.named?_put (displays : scene.Displays id content) (bound : scene.graph.Bound)
    (kind : content.kind = .element) (found : scene.graph.bindings[number]? = some binding)
    (element : binding.element = id) (value? : Option String) :
    ∃ entry ∈ content.attributes, binding.name = entry.name ∧
      (∃ tokens, Token.templated? entry.value = some tokens ∧
        scene.graph.Spelled Eq tokens binding.pieces) ∧
      ∀ name, Attribute.named?
        ((scene.document.putAttribute id binding.name value?).content id).attributes name =
          if entry.name.agrees name then value?.map fun value => ⟨entry.name, value⟩
          else Attribute.named? (scene.document.content id).attributes name := by
  obtain ⟨entry, member, name, templated⟩ := displays.keyed kind found element
  obtain ⟨other, known, tokens, tokensFound, knownFound, knownElement, knownName, spelled, shown⟩ :=
    (displays.entry entry member).exists_named templated
  have same : other = number := by
    refine bound.keyed knownFound found (knownElement.trans element.symm) ?_
    rw [knownName, name]
    exact AttributeName.agrees_refl _
  subst same
  cases knownFound.symm.trans found
  refine ⟨entry, member, name, ⟨tokens, tokensFound, spelled⟩, ?_⟩
  intro wanted
  have attributes : ((scene.document.putAttribute id binding.name value?).content id).attributes =
      Attribute.put binding.name value? (scene.document.content id).attributes := by
    obtain ⟨entries, same⟩ := displays.same
    rw [Document.content_putAttribute, if_pos rfl, same]
    cases content with
    | element tag attributes => rfl
    | _ => cases kind
  have ownName : ((Attribute.named? (scene.document.content id).attributes entry.name).map
      Attribute.name).getD entry.name = entry.name := by
    rw [shown]
    cases scene.graph.valueOf binding <;> rfl
  rw [attributes, Attribute.named?_put, name, ownName]

theorem Displays.put (displays : scene.Displays id content) (bound : scene.graph.Bound)
    (target : scene.graph.parts[index]?.map Part.target = some (.attribute number value?))
    (found : scene.graph.bindings[number]? = some binding) (new? : Option String) :
    Displays ⟨scene.document.putAttribute binding.element binding.name
        ((scene.graph.setTarget index (.attribute number new?)).valueOf binding),
      scene.graph.setTarget index (.attribute number new?)⟩ id content := by
  have expressions := scene.graph.expression_setTarget index (.attribute number new?)
  have others (other : Nat) (known : Binding) (knownFound : scene.graph.bindings[other]? = some known)
      (differ : other ≠ number) :=
    bound.valueOf_setTarget target knownFound differ (.attribute number new?)
  by_cases element : binding.element = id
  · rw [element]
    have same : ∃ entries, (scene.document.putAttribute id binding.name
        ((scene.graph.setTarget index (.attribute number new?)).valueOf binding)).content id =
          content.mapAttributes fun _ => entries := by
      obtain ⟨entries, same⟩ := displays.same
      exact ⟨_, by rw [Document.content_putAttribute, if_pos rfl, same,
        Content.mapAttributes_mapAttributes]⟩
    -- Only elements have attributes; on any other node the write is lost.
    by_cases kind : content.kind = .element
    · obtain ⟨entry, member, name, ⟨tokens, templated, spelled⟩, named⟩ :=
        displays.named?_put bound kind found element
          ((scene.graph.setTarget index (.attribute number new?)).valueOf binding)
      refine ⟨displays.distinct, displays.keyed, same, ?_, ?_⟩
      · intro other otherMember
        by_cases agrees : entry.name.agrees other.name = true
        · cases displays.distinct.eq_of_agrees member otherMember agrees
          simp only [Bears, templated]
          refine ⟨number, binding, found, element, name, ?_, ?_⟩
          · refine spelled.congr (fun _ _ _ reads => reads) fun part expression _ known => ?_
            rw [expressions, known]
          · rw [named, if_pos agrees]
        · refine (displays.entry other otherMember).congr rfl expressions ?_ ?_
          · intro otherNumber known knownFound _ knownName
            refine others otherNumber known knownFound ?_
            rintro rfl
            cases knownFound.symm.trans found
            rw [← name, knownName] at agrees
            exact agrees (AttributeName.agrees_refl _)
          · rw [named, if_neg agrees]
      · intro wanted apart
        rw [named, apart entry member]
        exact displays.other wanted apart
    · obtain ⟨entries, same⟩ := same
      have nothing := (displays.attributes_eq kind).1
      refine ⟨displays.distinct, displays.keyed, ⟨entries, same⟩, ?_, ?_⟩
      · intro entry member
        rw [nothing] at member
        cases member
      · intro wanted _
        rw [same]
        cases content with
        | element tag attributes => exact (kind rfl).elim
        | _ => rfl
  · refine displays.congr rfl expressions ?_ ?_
    · intro other known knownFound knownElement
      refine others other known knownFound ?_
      rintro rfl
      cases knownFound.symm.trans found
      exact element knownElement
    · rw [Document.content_putAttribute, if_neg (Ne.symm element)]

end Scene

end LiveTemplate
