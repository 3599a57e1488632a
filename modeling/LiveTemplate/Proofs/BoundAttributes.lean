import LiveTemplate.Proofs.Registers

/-! The attributes of an instance while its parts are given values: an attribute that a part is all of
comes and goes with the value, and all other attributes stay. -/

namespace LiveTemplate

namespace Attribute

theorem sublist_assign (entries : List Attribute) (name : AttributeName) (value : String) :
    (entries.map Attribute.name).Sublist ((assign name value entries).map Attribute.name) := by
  induction entries with
  | nil => exact List.nil_sublist _
  | cons entry rest ih =>
      rw [assign]
      split
      · exact List.Sublist.refl _
      · exact ih.cons_cons _

theorem sublist_put {kept : List AttributeName} {entries : List Attribute}
    (sublist : kept.Sublist (entries.map Attribute.name)) (name : AttributeName)
    (value? : Option String)
    (present : ∀ other ∈ kept, other ∈ (put name value? entries).map Attribute.name) :
    kept.Sublist ((put name value? entries).map Attribute.name) := by
  cases value? with
  | some value => exact sublist.trans (sublist_assign entries name value)
  | none =>
      have erased : (put name none entries).map Attribute.name =
          (entries.map Attribute.name).filter fun other => !other.agrees name := by
        rw [put, erase, List.filter_map]
        rfl
      rw [erased] at present ⊢
      have all : kept.filter (fun other => !other.agrees name) = kept :=
        List.filter_eq_self.mpr fun other member => (List.mem_filter.mp (present other member)).2
      rw [← all]
      exact sublist.filter _

end Attribute

theorem PartGraph.MadeOf.apart {graph : PartGraph} {document : Document} {binding : Binding}
    {name : AttributeName} (made : graph.MadeOf document binding)
    (plain : ∀ entry ∈ (document.content binding.element).attributes, entry.name.agrees name = true →
      Token.templated? entry.value = none) : binding.name.agrees name = false := by
  obtain ⟨entry, tokens, shown, same, templated, _⟩ := made
  rw [Bool.eq_false_iff]
  intro agrees
  have nothing := plain entry (Attribute.mem_of_named? shown) (same ▸ agrees)
  rw [templated] at nothing
  cases nothing

theorem Mirrors.exists_row {config : Config} {rows : List Row} {owning : Bool}
    {trees : List (Tree Content)} {slots : List Slot} {id : NodeId} {content : Content}
    (mirrors : Mirrors config rows owning trees slots) (member : .node id content ∈ slots) :
    ∃ below owned children, ⟨id, some id, below⟩ ∈ rows ∧
      Mirrors config rows owned children below := by
  induction mirrors with
  | nil => cases member
  | anchor row _ ih =>
      rcases List.mem_cons.mp member with same | later
      · cases same
        exact ⟨_, false, [], row, .nil⟩
      · exact ih later
  | dropped _ _ _ ih => exact ih member
  | kept _ row inside _ _ ih =>
      rcases List.mem_cons.mp member with same | later
      · cases same
        exact ⟨_, _, _, row, inside⟩
      · exact ih later
  | source _ _ ih =>
      rcases List.mem_cons.mp member with same | later
      · cases same
      · exact ih later

namespace Scene

section
variable {document : Document} {config : Config} {template : NodeId} {start : Scene}
  {slots : List Slot} {rows : List Row}

theorem Instantiated.displays (made : Instantiated document config template start slots rows)
    {id : NodeId} (above : start.document.IsAbove start.graph.fragment id)
    (kind : start.document.kind id = .element) : ∃ content, start.Displays id content := by
  have wellFormed := made.unwritten.wellFormed
  let all : List Row := ⟨start.graph.fragment, none, slots⟩ :: rows
  -- On the way down from the fragment, a node has a row of its own or is a text with nothing below.
  have reached : (∃ parent? below owned children, ⟨id, parent?, below⟩ ∈ all ∧
        Mirrors config rows owned children below ∧
        (id = start.graph.fragment ∨ ∃ content, start.Displays id content)) ∨
      start.document.kind id = .text ∧ start.document.children id = [] := by
    clear kind
    induction above with
    | refl => exact Or.inl ⟨none, slots, false, _, List.mem_cons_self .., made.mirrors, Or.inl rfl⟩
    | @tail parent id _ linked ih =>
        have child := (wellFormed.linked parent id).mpr linked
        rcases ih with ⟨parent?, below, owned, children, row, mirrors, _⟩ | ⟨_, none⟩
        · rw [made.planned.laid _ row] at child
          obtain ⟨slot, member, inside⟩ := PartGraph.mem_expand.mp child
          have shows := made.shows _ row slot member
          cases slot with
          | node fixed content =>
              cases List.mem_singleton.mp inside
              obtain ⟨later, owning, trees, laterRow, mirrored⟩ := mirrors.exists_row member
              exact Or.inl ⟨_, later, owning, trees, List.mem_cons_of_mem _ laterRow, mirrored,
                Or.inr ⟨content, shows⟩⟩
          | region index source =>
              obtain ⟨region, found, spelled⟩ := shows
              rw [PartGraph.slotNodes, found] at inside
              rcases PartGraph.mem_nodesOf.mp inside with literal | ⟨part, _, shown⟩
              · obtain ⟨text, _, held, empty⟩ := spelled.exists_reads literal
                exact Or.inr ⟨by rw [Document.kind, held]; rfl, empty⟩
              · rw [made.unwritten.empty] at shown
                cases shown
        · rw [none] at child
          cases child
  rcases reached with ⟨_, _, _, _, _, _, rfl | displays⟩ | ⟨text, _⟩
  · rw [made.fragment] at kind
    cases kind
  · exact displays
  · rw [text] at kind
    cases kind

end

structure Overlooks (result scene : Scene) : Prop where
  element : ∀ id, scene.document.kind id = .element → result.document.kind id = .element ∧
    (result.document.content id).attributes = (scene.document.content id).attributes
  bindings : result.graph.bindings = scene.graph.bindings
  target : ∀ (index number : Nat) (value? : Option String),
    result.graph.parts[index]?.map Part.target = some (.attribute number value?) ↔
      scene.graph.parts[index]?.map Part.target = some (.attribute number value?)

theorem Overlooks.refl (scene : Scene) : scene.Overlooks scene :=
  ⟨fun _ kind => ⟨kind, rfl⟩, rfl, fun _ _ _ => Iff.rfl⟩

section
variable {scene : Scene}

theorem overlooks_edit {edit : Edit}
    (allowed : edit.IsStructural ∨ ∃ id data, edit = .setData id data) :
    Overlooks { scene with document := scene.document.edit edit } scene := by
  refine ⟨fun id kind => ?_, rfl, fun _ _ _ => Iff.rfl⟩
  have has : scene.document.Has id := Document.has_of_kind (by rw [kind]; decide)
  have held : (scene.document.edit edit).content id = scene.document.content id := by
    rcases allowed with structural | ⟨other, data, rfl⟩
    · exact Document.content_edit structural has
    · by_cases same : id = other
      · subst same
        obtain ⟨tag, attributes, held⟩ := Content.exists_element kind
        rw [Document.edit, Document.setData, Document.content_setContent has, if_pos rfl, held]
        rfl
      · exact Document.content_setContent_of_ne _ same _
  exact ⟨by rw [Document.kind, held]; exact kind, by rw [held]⟩

theorem overlooks_write {index region : Nat} {content : List NodeId} {nested? : Option Nested}
    (target : scene.graph.parts[index]?.map Part.target = some (.nodes region content nested?))
    (write : Write) : (scene.write index write).2.Overlooks scene := by
  rcases scene.write_cases target write with ⟨error, refused⟩ | ⟨document, nodes, prepared, written⟩
  · rw [refused]
    exact .refl scene
  rw [written]
  refine ⟨fun id kind => ?_, ?_, fun other number value? => ?_⟩
  · have has : scene.document.Has id := Document.has_of_kind (by rw [kind]; decide)
    have held : document.content id = scene.document.content id := by
      cases prepared with
      | @overwrite only _ _ text _ =>
          refine Document.content_setContent_of_ne _ ?_ _
          rintro rfl
          rw [text] at kind
          cases kind
      | text _ => exact (Document.extends_create _ _).content_eq has
      | items _ => exact (extends_realizeAll _ _).content_eq has
      | markup read =>
          obtain ⟨trees, _, _, rfl⟩ := Prepares.exists_graft read
          exact (Document.extends_graft _ _).content_eq has
    rw [Document.kind, content_reconcileRegion, held]
    exact ⟨kind, rfl⟩
  · rw [bindings_reconcileRegion]
    rfl
  · rw [parts_reconcileRegion]
    constructor
    · intro found
      rcases PartGraph.target_of_setTarget found with ⟨_, same⟩ | ⟨_, older⟩
      · cases same
      · exact older
    · intro found
      rw [PartGraph.target_setTarget, if_neg, found]
      rintro rfl
      cases target.symm.trans found

theorem exists_target_of_isWhole {index : Nat} (whole : scene.isWhole index = true) :
    ∃ number value?, scene.graph.parts[index]?.map Part.target = some (.attribute number value?) := by
  rw [isWhole] at whole
  split at whole
  · exact ⟨_, _, by assumption⟩
  · cases whole

theorem setBoolean_eq (scene : Scene) (index : Nat) (present : Bool) :
    scene.setBoolean index present =
      if scene.isWhole index then
        (.ok (), scene.setValue index (if present then some "" else none))
      else (.error .notWhole, scene) := by
  rw [setBoolean]
  split
  · rename_i whole
    obtain ⟨number, value?, target⟩ := exists_target_of_isWhole whole
    simp only [setValue, target, whole, if_true]
  · rfl

end

end Scene

structure Ledger where
  scene : Scene
  given : Nat → Option (Option String)

namespace Ledger

inductive Step : Ledger → Ledger → Prop
  | value {scene given} (index : Nat) (value? : Option String) {number old?} :
      scene.graph.parts[index]?.map Part.target = some (.attribute number old?) →
      Step ⟨scene, given⟩
        ⟨scene.setValue index value?, Function.update given index (some value?)⟩
  | boolean {scene given} (index : Nat) (present : Bool) :
      (scene.setBoolean index present).1 = .ok () →
      Step ⟨scene, given⟩ ⟨(scene.setBoolean index present).2,
        Function.update given index (some (if present then some "" else none))⟩
  | refused {scene given} (index : Nat) (present : Bool) {error} :
      (scene.setBoolean index present).1 = .error error →
      Step ⟨scene, given⟩ ⟨(scene.setBoolean index present).2, given⟩
  | other {scene given result} : result.Overlooks scene → Step ⟨scene, given⟩ ⟨result, given⟩

variable {start : Scene} {ledger later : Ledger}

theorem Step.cases (step : ledger.Step later) :
    (∃ (index number : Nat) (old? value? : Option String),
      ledger.scene.graph.parts[index]?.map Part.target = some (.attribute number old?) ∧
      later.scene = ledger.scene.setValue index value? ∧
      later.given = Function.update ledger.given index (some value?)) ∨
    later.scene.Overlooks ledger.scene ∧ later.given = ledger.given := by
  cases step with
  | value index value? target => exact Or.inl ⟨index, _, _, value?, target, rfl, rfl⟩
  | @boolean scene given index present accepted =>
      left
      rw [Scene.setBoolean_eq] at accepted ⊢
      split at accepted
      · rename_i whole
        obtain ⟨number, old?, target⟩ := Scene.exists_target_of_isWhole whole
        exact ⟨index, number, old?, _, target, by rw [if_pos whole], rfl⟩
      · cases accepted
  | @refused scene given index present error refused =>
      right
      rw [Scene.setBoolean_eq] at refused ⊢
      split at refused
      · cases refused
      · rename_i several
        rw [if_neg several]
        exact ⟨.refl scene, rfl⟩
  | other overlooks => exact Or.inr ⟨overlooks, rfl⟩

structure Shows (start : Scene) (ledger : Ledger) : Prop where
  bound : ledger.scene.graph.Bound
  bindings : ledger.scene.graph.bindings = start.graph.bindings
  stores : ledger.scene.graph.Stores ledger.given
  element : ∀ id, start.document.kind id = .element → ledger.scene.document.kind id = .element
  shown : ∀ (number : Nat) (binding : Binding), start.graph.bindings[number]? = some binding →
    start.document.kind binding.element = .element ∧
      ledger.scene.document.named? binding.element binding.name =
        (ledger.scene.graph.valueOf binding).map fun value => ⟨binding.name, value⟩
  other : ∀ id name, start.document.kind id = .element →
    (∀ (number : Nat) (binding : Binding), start.graph.bindings[number]? = some binding →
      binding.element = id → binding.name.agrees name = false) →
        ledger.scene.document.named? id name = start.document.named? id name

namespace Shows

/-- A value given to a part is written under the name of its binding, and to no other attribute. -/
theorem of_value (shows : ledger.Shows start) {index number : Nat} {old? : Option String}
    (target : ledger.scene.graph.parts[index]?.map Part.target = some (.attribute number old?))
    (value? : Option String) :
    Shows start ⟨ledger.scene.setValue index value?,
      Function.update ledger.given index (some value?)⟩ := by
  obtain ⟨binding, found, _⟩ := shows.bound.part target
  have stores := shows.stores.setTarget found index value?
  rw [Scene.setValue_of_attribute target found]
  generalize (if binding.isWhole then value? else some (value?.getD "")) = new? at *
  have foundFirst : start.graph.bindings[number]? = some binding := shows.bindings ▸ found
  obtain ⟨kind, shown⟩ := shows.shown number binding foundFirst
  have own (entry : Attribute)
      (present : ledger.scene.document.named? binding.element binding.name = some entry) :
      entry.name = binding.name := by
    rw [shown] at present
    obtain ⟨value, _, rfl⟩ := Option.map_eq_some_iff.mp present
    rfl
  have named := Document.named?_putAttribute (shows.element _ kind) own
    ((ledger.scene.graph.setTarget index (.attribute number new?)).valueOf binding)
  refine ⟨shows.bound.setTarget target (by simp), shows.bindings, stores, ?_, ?_, ?_⟩
  · intro id known
    have element := shows.element id known
    exact (Document.keepsKinds_putAttribute.kind_eq
      (Document.has_of_kind (by rw [element]; decide))).trans element
  · intro other known knownFound
    obtain ⟨knownKind, knownShown⟩ := shows.shown other known knownFound
    refine ⟨knownKind, ?_⟩
    by_cases same : other = number
    · subst same
      cases foundFirst.symm.trans knownFound
      rw [named, if_pos ⟨rfl, AttributeName.agrees_refl _⟩]
    · have knownNow : ledger.scene.graph.bindings[other]? = some known := shows.bindings ▸ knownFound
      rw [named, if_neg, knownShown, shows.bound.valueOf_setTarget target knownNow same]
      rintro ⟨element, agrees⟩
      exact same (shows.bound.keyed found knownNow element.symm agrees).symm
  · intro id name known unbound
    rw [named, if_neg, shows.other id name known unbound]
    rintro ⟨element, agrees⟩
    rw [unbound number binding foundFirst element.symm] at agrees
    cases agrees

theorem of_overlooks (shows : ledger.Shows start) (overlooks : later.scene.Overlooks ledger.scene)
    (same : later.given = ledger.given) : later.Shows start := by
  have named {id : NodeId} (known : start.document.kind id = .element) (name : AttributeName) :
      later.scene.document.named? id name = ledger.scene.document.named? id name := by
    rw [Document.named?, (overlooks.element id (shows.element id known)).2, Document.named?]
  refine ⟨⟨?_, ?_, ?_⟩, overlooks.bindings.trans shows.bindings, ?_, ?_, ?_, ?_⟩
  · intro index number value? target
    obtain ⟨binding, found, member⟩ := shows.bound.part ((overlooks.target _ _ _).mp target)
    exact ⟨binding, overlooks.bindings ▸ found, member⟩
  · intro number index binding found member
    obtain ⟨value?, target⟩ := shows.bound.piece (overlooks.bindings ▸ found) member
    exact ⟨value?, (overlooks.target _ _ _).mpr target⟩
  · intro first second left right leftFound rightFound
    exact shows.bound.keyed (overlooks.bindings ▸ leftFound) (overlooks.bindings ▸ rightFound)
  · intro index number value? binding target found
    rw [same]
    exact shows.stores _ _ _ _ ((overlooks.target _ _ _).mp target) (overlooks.bindings ▸ found)
  · exact fun id known => (overlooks.element id (shows.element id known)).1
  · intro number binding found
    obtain ⟨kind, shown⟩ := shows.shown number binding found
    refine ⟨kind, ?_⟩
    rw [named kind, shown]
    congr 1
    refine (PartGraph.valueOf_congr fun part member => ?_).symm
    obtain ⟨value?, target⟩ := shows.bound.piece (shows.bindings ▸ found) member
    obtain ⟨old, oldFound, oldTarget⟩ := Option.map_eq_some_iff.mp target
    obtain ⟨new, newFound, newTarget⟩ :=
      Option.map_eq_some_iff.mp ((overlooks.target _ _ _).mpr target)
    rw [oldFound, newFound, Option.bind_some, Option.bind_some, Part.value?, Part.value?, oldTarget,
      newTarget]
  · intro id name known unbound
    rw [named known, shows.other id name known unbound]

theorem step (shows : ledger.Shows start) (step : ledger.Step later) : later.Shows start := by
  rcases step.cases with ⟨index, number, old?, value?, target, scene, given⟩ | ⟨overlooks, given⟩
  · have next := shows.of_value target value?
    rwa [← scene, ← given] at next
  · exact shows.of_overlooks overlooks given

theorem run (shows : ledger.Shows start) (run : Relation.ReflTransGen Step ledger later) :
    later.Shows start := by
  induction run with
  | refl => exact shows
  | tail _ step ih => exact ih.step step

end Shows

def Keeping (id : NodeId) (kept : List AttributeName) (ledger later : Ledger) : Prop :=
  ledger.Step later ∧ ∀ name ∈ kept, name ∈ later.scene.document.attributeNames id

theorem Shows.ordered (shows : ledger.Shows start) {id : NodeId} {kept : List AttributeName}
    (run : Relation.ReflTransGen (Keeping id kept) ledger later)
    (sublist : kept.Sublist (ledger.scene.document.attributeNames id)) :
    later.Shows start ∧ kept.Sublist (later.scene.document.attributeNames id) := by
  induction run with
  | refl => exact ⟨shows, sublist⟩
  | @tail middle last _ keeping ih =>
      obtain ⟨shows, sublist⟩ := ih
      obtain ⟨step, present⟩ := keeping
      refine ⟨shows.step step, ?_⟩
      rcases step.cases with ⟨index, number, old?, value?, target, scene, _⟩ | ⟨overlooks, _⟩
      · obtain ⟨binding, found, _⟩ := shows.bound.part target
        have kind := shows.element _ (shows.shown number binding (shows.bindings ▸ found)).1
        rw [Scene.setValue_of_attribute target found] at scene
        rw [scene] at present ⊢
        -- Only the element of the binding is written to, and it still has all that are to be kept.
        by_cases same : id = binding.element
        · subst same
          rw [Document.attributeNames, Document.attributes_putAttribute kind] at present ⊢
          exact Attribute.sublist_put sublist _ _ present
        · rwa [Document.attributeNames, Document.content_putAttribute, if_neg same]
      · by_cases kind : middle.scene.document.kind id = .element
        · rwa [Document.attributeNames, (overlooks.element id kind).2]
        · rw [Document.attributeNames, Content.attributes_eq_nil kind, List.map_nil,
            List.sublist_nil] at sublist
          rw [sublist]
          exact List.nil_sublist _

structure Faithful (copy : Document) (start : Scene) (ledger : Ledger) : Prop where
  made : ∀ (number : Nat) (binding : Binding), ledger.scene.graph.bindings[number]? = some binding →
    start.graph.MadeOf copy binding
  complete : ∀ id entry, start.document.IsAbove start.graph.fragment id →
    entry ∈ (copy.content id).attributes → (Token.templated? entry.value).isSome = true →
      ∃ (number : Nat) (binding : Binding), ledger.scene.graph.bindings[number]? = some binding ∧
        binding.element = id ∧ binding.name = entry.name
  part : ∀ (index number : Nat) (value? : Option String),
    ledger.scene.graph.parts[index]?.map Part.target = some (.attribute number value?) →
      ∃ binding, ledger.scene.graph.bindings[number]? = some binding ∧ .part index ∈ binding.pieces
  joined : ∀ (number : Nat) (binding : Binding), ledger.scene.graph.bindings[number]? = some binding →
    binding.isWhole = false → ledger.scene.document.named? binding.element binding.name =
      some ⟨binding.name, binding.joined ledger.given⟩
  whole : ∀ (number index : Nat) (binding : Binding),
    ledger.scene.graph.bindings[number]? = some binding → binding.pieces = [.part index] →
      ledger.scene.document.named? binding.element binding.name =
        ((ledger.given index).getD (some "")).map fun value => ⟨binding.name, value⟩
  value : ∀ (number index : Nat) (binding : Binding) (part : Part),
    ledger.scene.graph.bindings[number]? = some binding → .part index ∈ binding.pieces →
      ledger.scene.graph.parts[index]? = some part → ledger.scene.value? part =
        if binding.isWhole then (ledger.given index).getD (some "")
        else some ((ledger.given index).join.getD "")
  boolean : ∀ (number index : Nat) (binding : Binding) (present : Bool),
    ledger.scene.graph.bindings[number]? = some binding → .part index ∈ binding.pieces →
      ((ledger.scene.setBoolean index present).1 = .ok () ↔ binding.isWhole = true) ∧
        (binding.isWhole = false →
          ledger.scene.setBoolean index present = (.error .notWhole, ledger.scene))
  fixed : ∀ id name, copy.kind id = .element →
    (∀ entry ∈ (copy.content id).attributes, entry.name.agrees name = true →
      Token.templated? entry.value = none) →
        ledger.scene.document.named? id name = copy.named? id name
  names : ∀ id, copy.Has id → start.document.attributeNames id = copy.attributeNames id
  ordered : ∀ (later : Ledger) (id : NodeId) (kept : List AttributeName),
    Relation.ReflTransGen (Keeping id kept) ledger later →
      kept.Sublist (ledger.scene.document.attributeNames id) →
        kept.Sublist (later.scene.document.attributeNames id)

namespace Shows

variable {number index : Nat} {binding : Binding}

theorem valueOf_joined (shows : ledger.Shows start)
    (found : ledger.scene.graph.bindings[number]? = some binding) (several : binding.isWhole = false) :
    ledger.scene.graph.valueOf binding = some (binding.joined ledger.given) := by
  refine PartGraph.valueOf_eq_joined fun part member => ?_
  obtain ⟨value?, target⟩ := shows.bound.piece found member
  have stored := shows.stores _ _ _ _ target found
  rw [several, if_neg Bool.false_ne_true] at stored
  obtain ⟨known, knownFound, same⟩ := Option.map_eq_some_iff.mp target
  rw [knownFound, Option.bind_some, Part.value?, same, stored]

theorem valueOf_whole (shows : ledger.Shows start)
    (found : ledger.scene.graph.bindings[number]? = some binding)
    (pieces : binding.pieces = [.part index]) :
    ledger.scene.graph.valueOf binding = (ledger.given index).getD (some "") := by
  have whole : binding.isWhole = true := by rw [Binding.isWhole, pieces]
  obtain ⟨value?, target⟩ := shows.bound.piece found (by rw [pieces]; exact List.mem_singleton_self _)
  have stored := shows.stores _ _ _ _ target found
  rw [whole, if_pos rfl] at stored
  rw [Scene.valueOf_of_target shows.bound found whole target, stored]

theorem isWhole_eq (shows : ledger.Shows start)
    (found : ledger.scene.graph.bindings[number]? = some binding)
    (member : .part index ∈ binding.pieces) : ledger.scene.isWhole index = binding.isWhole := by
  obtain ⟨value?, target⟩ := shows.bound.piece found member
  simp only [Scene.isWhole, target, found, Option.map_some, Option.getD_some]

theorem value?_eq (shows : ledger.Shows start) {part : Part}
    (found : ledger.scene.graph.bindings[number]? = some binding)
    (member : .part index ∈ binding.pieces) (known : ledger.scene.graph.parts[index]? = some part) :
    ledger.scene.value? part = if binding.isWhole then (ledger.given index).getD (some "")
      else some ((ledger.given index).join.getD "") := by
  obtain ⟨value?, target⟩ := shows.bound.piece found member
  have targetEq : part.target = .attribute number value? := by
    rwa [known, Option.map_some, Option.some.injEq] at target
  rw [← shows.stores _ _ _ _ target found]
  simp only [Scene.value?, targetEq, found]
  split
  · rename_i whole
    have shown := (shows.shown number binding (shows.bindings ▸ found)).2
    rw [Scene.valueOf_of_target shows.bound found whole target] at shown
    refine (congrArg (Option.map Attribute.value) shown).trans ?_
    cases value? <;> rfl
  · rfl

end Shows

section
variable {document : Document} (wellFormed : document.WellFormed) (config : Config) (template : NodeId)

include wellFormed

theorem madeOf_instantiate (number : Nat) (binding : Binding)
    (found : (Scene.instantiate document config template).graph.bindings[number]? = some binding) :
    (Scene.instantiate document config template).graph.MadeOf
      (document.graft (.node .fragment (document.forest template))).2 binding := by
  obtain ⟨slots, rows, made⟩ := Scene.exists_instantiated wellFormed config template
  rcases (Scene.fastens_instantiate wellFormed config template).origin
    (fun _ _ _ _ => made.unwritten.bound.keyed) number binding found with old | ⟨_, madeOf⟩
  · simp [PartGraph.empty] at old
  · exact madeOf

/-- Every attribute with placeholders has a binding: it would stay as it is otherwise, but no element of
a new instance has placeholders in an attribute. -/
theorem exists_binding {id : NodeId} {entry : Attribute} :
    let start := Scene.instantiate document config template
    let copy := (document.graft (.node .fragment (document.forest template))).2
    start.document.IsAbove start.graph.fragment id → entry ∈ (copy.content id).attributes →
      (Token.templated? entry.value).isSome = true →
        ∃ (number : Nat) (binding : Binding), start.graph.bindings[number]? = some binding ∧
          binding.element = id ∧ binding.name = entry.name := by
  intro start copy above member templated
  by_contra missing
  have copied : copy.WellFormed := Document.wellFormed_graft wellFormed
    (wellFormed.plantable_forest List.Pairwise.nil template)
  have named : copy.named? id entry.name = some entry :=
    Attribute.named?_of_mem (copied.names id) member
  have unbound : ∀ (number : Nat) (binding : Binding), start.graph.bindings[number]? = some binding →
      binding.element = id → binding.name.agrees entry.name = false := by
    intro number binding found element
    obtain ⟨other, _, shown, name, _⟩ :=
      madeOf_instantiate wellFormed config template number binding found
    rw [Bool.eq_false_iff]
    intro agrees
    rw [element, Document.named?, Attribute.named?_congr agrees] at shown
    cases shown.symm.trans named
    exact missing ⟨number, binding, found, element, name.symm⟩
  obtain ⟨slots, rows, made⟩ := Scene.exists_instantiated wellFormed config template
  have has := Document.has_of_named? named
  have kind : start.document.kind id = .element :=
    (made.copied.kind_eq has).trans (Document.kind_of_named? named)
  have shown : start.document.named? id entry.name = some entry := by
    rw [(Scene.fastens_instantiate wellFormed config template).other id entry.name has unbound]
    exact named
  obtain ⟨content, displays⟩ := made.displays above kind
  by_cases known : ∃ old ∈ content.attributes, old.name.agrees entry.name = true
  · obtain ⟨old, oldMember, agrees⟩ := known
    have bears := displays.entry old oldMember
    cases plain : Token.templated? old.value with
    | none =>
        simp only [Scene.Bears, plain] at bears
        rw [Attribute.named?_congr agrees] at bears
        cases bears.symm.trans shown
        rw [plain] at templated
        cases templated
    | some tokens =>
        obtain ⟨number, binding, _, _, found, element, name, _⟩ :=
          bears.exists_named (by rw [plain]; rfl)
        have apart := unbound number binding found element
        rw [name, agrees] at apart
        cases apart
  · have nothing := displays.other entry.name fun old oldMember =>
      Bool.eq_false_iff.mpr fun agrees => known ⟨old, oldMember, agrees⟩
    cases nothing.symm.trans shown

theorem shows_instantiate :
    Shows (Scene.instantiate document config template)
      ⟨Scene.instantiate document config template, fun _ => none⟩ := by
  have blank := Scene.blank_instantiate wellFormed config template
  obtain ⟨slots, rows, made⟩ := Scene.exists_instantiated wellFormed config template
  refine ⟨made.unwritten.bound, rfl, made.unwritten.stores, fun _ kind => kind, ?_, fun _ _ _ _ => rfl⟩
  intro number binding found
  have shown := blank number binding found
  refine ⟨Document.kind_of_named? shown, ?_⟩
  rw [shown, made.unwritten.valueOf_eq found, Option.map_some]

/-- In every instance, whatever its parts are given, an attribute with other texts or parts beside a
part is there with all of them joined, and one that a part is all of is there with the value the part
was given last, or not there if that was nothing. All others stay, and so does the order of those that
are not taken away. -/
theorem faithful_of_run :
    let start := Scene.instantiate document config template
    ∀ ledger : Ledger, Relation.ReflTransGen Step ⟨start, fun _ => none⟩ ledger →
      ledger.Faithful (document.graft (.node .fragment (document.forest template))).2 start := by
  intro start ledger run
  have shows := (shows_instantiate wellFormed config template).run run
  have bindings := shows.bindings
  have fastens := Scene.fastens_instantiate wellFormed config template
  obtain ⟨slots, rows, instantiated⟩ := Scene.exists_instantiated wellFormed config template
  have made := madeOf_instantiate wellFormed config template
  refine ⟨?_, ?_, ?_, ?_, ?_, ?_, ?_, ?_, fastens.names, ?_⟩
  · rw [bindings]
    exact made
  · rw [bindings]
    exact fun id entry => exists_binding wellFormed config template
  · exact fun index number value? target => shows.bound.part target
  · intro number binding found several
    rw [(shows.shown number binding (bindings ▸ found)).2, shows.valueOf_joined found several,
      Option.map_some]
  · intro number index binding found pieces
    rw [(shows.shown number binding (bindings ▸ found)).2, shows.valueOf_whole found pieces]
  · exact fun number index binding part found member partFound => shows.value?_eq found member partFound
  · intro number index binding present found member
    rw [Scene.setBoolean_eq, shows.isWhole_eq found member]
    cases binding.isWhole <;> simp
  · intro id name kind plain
    have has : (document.graft (.node .fragment (document.forest template))).2.Has id :=
      Document.has_of_kind (by rw [kind]; decide)
    have unbound : ∀ (number : Nat) (binding : Binding), start.graph.bindings[number]? = some binding →
        binding.element = id → binding.name.agrees name = false := by
      rintro number binding found rfl
      exact (made number binding found).apart plain
    rw [shows.other id name ((instantiated.copied.kind_eq has).trans kind) unbound]
    exact fastens.other id name has unbound
  · exact fun later id kept stretch sublist => (shows.ordered stretch sublist).2

end

def linkedSource : Document :=
  (Document.new.graft (.node .fragment
    [.node (.element "use" [⟨⟨some "http://www.w3.org/1999/xlink", "xlink:href"⟩, "\x7b\x7bk\x7d\x7d"⟩,
      ⟨.plain "title", "a\x7b\x7bk\x7d\x7d"⟩, ⟨.plain "id", "n"⟩])
      [.node (.text "\x7b\x7bx\x7d\x7d") []]])).2

def linkedStart : Scene :=
  Scene.instantiate linkedSource .standard ⟨1⟩

def linkedBare : Scene :=
  ((linkedStart.setValue 0 none).write 2 (.value (some "u"))).2

def linkedTitled : Scene :=
  Scene.setValue ⟨linkedBare.document.edit (.remove ⟨5⟩), linkedBare.graph⟩ 1 (some "b")

theorem faithful_linked :
    let later := (linkedTitled.setBoolean 0 true).2
    (later.document.content ⟨5⟩).attributes = [⟨.plain "title", "ab"⟩, ⟨.plain "id", "n"⟩,
        ⟨⟨some "http://www.w3.org/1999/xlink", "xlink:href"⟩, ""⟩] ∧
      ∃ given, given 0 = some (some "") ∧ given 1 = some (some "b") ∧
        Relation.ReflTransGen Step ⟨linkedStart, fun _ => none⟩ ⟨later, given⟩ ∧
        Faithful (linkedSource.graft (.node .fragment (linkedSource.forest ⟨1⟩))).2 linkedStart
          ⟨later, given⟩ := by
  have wellFormed : linkedSource.WellFormed :=
    Document.wellFormed_graft Document.wellFormed_new
      ⟨by simp [Tree.preorder, Tree.preorderForest, Content.attributes, AttributeName.agrees,
          AttributeName.plain, AttributeName.localName],
        by simp [Tree.children, Tree.preorder, Tree.preorderForest, Content.kind]⟩
  have ofLink : linkedStart.graph.parts[0]?.map Part.target = some (.attribute 0 (some "")) := by
    decide +kernel
  have ofText : (linkedStart.setValue 0 none).graph.parts[2]?.map Part.target =
      some (.nodes 0 [] none) := by
    decide +kernel
  have ofTitle : linkedBare.graph.parts[1]?.map Part.target = some (.attribute 1 (some "")) := by
    decide +kernel
  have accepted : (linkedTitled.setBoolean 0 true).1 = .ok () := by decide +kernel
  have taken := @Step.value linkedStart (fun _ => none) 0 none _ _ ofLink
  have bare := (Relation.ReflTransGen.single taken).tail
    (Step.other (Scene.overlooks_write ofText (.value (some "u"))))
  have moved := bare.tail (Step.other (@Scene.overlooks_edit linkedBare (.remove ⟨5⟩) (.inl trivial)))
  have run := (moved.tail (Step.value 1 (some "b") ofTitle)).tail (Step.boolean 0 true accepted)
  exact ⟨by decide +kernel, _, rfl, rfl, run, faithful_of_run wellFormed .standard ⟨1⟩ _ run⟩

end Ledger

end LiveTemplate
