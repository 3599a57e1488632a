import LiveTemplate.Proofs.Mounting
import LiveTemplate.Proofs.Separation
import LiveTemplate.Proofs.Settling
import LiveTemplate.Proofs.Steadiness
import Mathlib.Data.List.TakeWhile

/-! Bringing an instance to the same state twice in a row: the second update finds every part as it
would make it, and changes nothing. -/

namespace LiveTemplate

namespace Attribute

theorem assign_eq_self {entries : List Attribute} {name : AttributeName} {value : String}
    (same : (named? entries name).map Attribute.value = some value) :
    assign name value entries = entries := by
  induction entries with
  | nil => cases same
  | cons entry rest ih =>
      rw [named?_cons] at same
      rw [assign]
      split at same
      · rename_i agrees
        rw [if_pos agrees, ← Option.some.inj same]
      · rename_i differs
        rw [if_neg differs, ih same]

theorem put_eq_self {entries : List Attribute} {name : AttributeName} {value? : Option String}
    (same : (named? entries name).map Attribute.value = value?) : put name value? entries = entries := by
  cases value? with
  | some value => exact assign_eq_self same
  | none =>
      have absent := named?_eq_none.mp (Option.map_eq_none_iff.mp same)
      exact List.filter_eq_self.mpr fun entry member => by simp [absent entry member]

end Attribute

namespace Document

variable {document : Document}

theorem setContent_self (id : NodeId) : document.setContent id (document.content id) = document := by
  refine eq_of_nodes (size_setContent ..) fun other => ?_
  by_cases bound : document.Has id
  · rw [setContent, node_modify bound]
    split
    · rename_i same
      rw [same]
      rfl
    · rfl
  · rw [setContent, modify_of_not_has bound]

theorem putAttribute_self {id : NodeId} {name : AttributeName} {value? : Option String}
    (same : (document.named? id name).map Attribute.value = value?) :
    document.putAttribute id name value? = document := by
  have unchanged : (document.content id).mapAttributes (Attribute.put name value?) =
      document.content id := by
    have kept := Attribute.put_eq_self same
    cases held : document.content id with
    | element tag attributes =>
        rw [held] at kept
        exact congrArg (Content.element tag) kept
    | _ => rfl
  rw [putAttribute, unchanged, setContent_self]

/-- Making nodes adds a whole tree, or nothing when markup cannot be read. -/
theorem edit_of_makes (wellFormed : document.WellFormed) {edit : Edit} (makes : edit.Makes)
    (allowed : document.Allows edit) : document.edit edit = document ∨
      ∃ tree, Plantable tree ∧ document.edit edit = (document.graft tree).2 := by
  cases edit with
  | create content =>
      exact Or.inr ⟨_, plantable_leaf (allowed ▸ List.Pairwise.nil),
        congrArg Prod.snd (create_eq_graft document content)⟩
  | read markup =>
      cases read : document.read? markup with
      | none => exact Or.inl (by rw [Document.edit, read])
      | some made =>
          obtain ⟨fragment, result⟩ := made
          obtain ⟨trees, treesRead, rfl, rfl⟩ := Scene.Prepares.exists_graft read
          exact Or.inr ⟨_, Markup.plantable_read treesRead, by rw [Document.edit, read]⟩
  | clone id deep => exact Or.inr ⟨_, plantable_clone wellFormed id deep, rfl⟩
  | insert => exact makes.elim
  | remove => exact makes.elim
  | setData => exact makes.elim
  | setAttribute => exact makes.elim
  | removeAttribute => exact makes.elim

theorem Mounted.unique {moved other : Document} {fragment parent : NodeId} {lead trail : List NodeId}
    (mounted : document.Mounted moved fragment parent lead trail)
    (also : document.Mounted other fragment parent lead trail) (wellFormed : moved.WellFormed)
    (otherWellFormed : other.WellFormed) : moved = other := by
  have children (id : NodeId) : moved.children id = other.children id := by
    by_cases host : id = parent
    · rw [host, mounted.shown, also.shown]
    · by_cases root : id = fragment
      · rw [root, mounted.empty, also.empty]
      · rw [mounted.elsewhere id host root, also.elsewhere id host root]
  refine eq_of_seen (mounted.size.trans also.size.symm) (fun id => ?_) (fun id => ?_) children
  · rw [mounted.content, also.content]
  · apply Option.ext
    intro upper
    rw [← wellFormed.linked, ← otherWellFormed.linked, children]

end Document

namespace Scene

variable {scene start result : Scene} {rows : List Row} {index number : Nat}
  {content : List NodeId} {nested? : Option Nested} {value? old? : Option String}
  {given : Nat → Option (Option String)}

theorem Live.reconcileRegion_self (live : scene.Live start rows) (number : Nat) :
    scene.reconcileRegion number = scene := by
  cases found : scene.graph.regions[number]? with
  | none => rw [reconcileRegion, found]
  | some region =>
      obtain ⟨row, member, before, source, after, split, _, _⟩ := live.planned.exists_row found
      obtain ⟨rendered, attached⟩ := live.rendered found
      obtain ⟨span, placed, parentEq, cuts, settled, _⟩ :=
        live.planned.exists_place live.toSound member split found rendered
      have wellFormed := live.wellFormed
      have bound := live.planned.has row member
      rw [← parentEq] at cuts bound
      have around : span.Cuts (scene.document.children span.parent) (scene.graph.expand before)
          ([] ++ scene.graph.nodesOf region ++ []) (scene.graph.expand after) := by
        rwa [List.append_nil, List.nil_append]
      have regrouped := Document.fill_exchange wellFormed bound around
        (by simpa using live.toSound.shown found) (Or.inl rfl)
      rw [← around.split, List.append_nil, List.nil_append] at regrouped
      have settledEq : region.settle span (scene.graph.nodesOf region) = region := by
        rw [settled, ← rendered, ← attached]
      rw [reconcileRegion_eq scene found, placed]
      dsimp only
      rw [settledEq, PartGraph.setRegion_self found, regrouped.eq_self wellFormed]

/-- A new instance is what reconciling any of its regions would make of it, as if the nodes had been put in
their places that way. -/
theorem reconcileRegion_instantiate {document : Document} (wellFormed : document.WellFormed)
    (config : Config) (template : NodeId) (number : Nat) :
    (instantiate document config template).reconcileRegion number =
      instantiate document config template := by
  obtain ⟨slots, rows, made⟩ := exists_instantiated wellFormed config template
  exact made.live.reconcileRegion_self number

structure Holds (scene : Scene) (index : Nat) (value? : Option String) : Prop where
  stored : ∀ {number : Nat} {stored? : Option String},
    scene.graph.parts[index]?.map Part.target = some (.attribute number stored?) →
      stored? = if scene.isWhole index then value? else some (value?.getD "")
  shown : ∀ {number : Nat} {content : List NodeId} {nested? : Option Nested},
    scene.graph.parts[index]?.map Part.target = some (.nodes number content nested?) →
      ∃ id, content = [id] ∧ scene.document.content id = .text (value?.getD "")

theorem Steady.setValue_self (steady : scene.Steady start rows) (holds : scene.Holds index value?) :
    scene.setValue index value? = scene := by
  obtain ⟨given, shows⟩ := steady.shows
  cases target : scene.graph.parts[index]?.map Part.target with
  | none => exact setValue_of_none target value?
  | some known =>
      rcases known with ⟨number, old?⟩ | ⟨number, content, nested?⟩
      · obtain ⟨binding, found, _⟩ := shows.bound.part target
        have whole := isWhole_of_target target found
        have shown := (shows.shown number binding (shows.bindings ▸ found)).2
        have current : (scene.document.named? binding.element binding.name).map Attribute.value =
            scene.graph.valueOf binding := by
          rw [shown, Option.map_map]
          exact congrFun Option.map_id _
        rw [setValue_of_attribute target found, ← whole, ← holds.stored target, setTarget_self target,
          Document.putAttribute_self current]
      · obtain ⟨id, rfl, held⟩ := holds.shown target
        have kind : scene.document.kind id = .text := by
          rw [Document.kind, held]
          rfl
        have overwritten : scene.document.setData id (value?.getD "") = scene.document := by
          rw [Document.setData, held, Content.withData, ← held, Document.setContent_self]
        have prepared : scene.Prepares number [id] (.value value?) scene.document [id] := by
          have written : scene.Prepares number [id] (.value value?) _ [id] :=
            .overwrite rfl kind (steady.isLive target)
          rwa [overwritten] at written
        rw [write_of_prepares target prepared rfl, setTarget_self target]
        exact steady.reconcileRegion_self number

theorem holds_setValue (bound : scene.graph.Bound) (index : Nat) (value? : Option String) :
    (scene.setValue index value?).Holds index value? := by
  cases target : scene.graph.parts[index]?.map Part.target with
  | none =>
      rw [setValue_of_none target]
      constructor
      · intro number stored? known
        cases target.symm.trans known
      · intro number content nested? known
        cases target.symm.trans known
  | some known =>
      rcases known with ⟨number, old?⟩ | ⟨number, content, nested?⟩
      · obtain ⟨binding, found, _⟩ := bound.part target
        rw [setValue_of_attribute target found]
        generalize newEq : (if binding.isWhole then value? else some (value?.getD "")) = new?
        have targetNow := PartGraph.target_setTarget_self target (.attribute number new?)
        constructor
        · intro other stored? known
          cases targetNow.symm.trans known
          rw [isWhole_of_target known found, newEq]
        · intro other content nested? known
          cases targetNow.symm.trans known
      · obtain ⟨document, shown, prepared, set⟩ := scene.exists_prepared target value?
        obtain ⟨id, only, held, _⟩ := prepared.exists_text
        have targetNow := PartGraph.target_setTarget_self target (.nodes number shown nested?)
        rw [set]
        constructor
        · intro other stored? known
          rw [parts_reconcileRegion] at known
          cases targetNow.symm.trans known
        · intro other content nested? known
          rw [parts_reconcileRegion] at known
          cases targetNow.symm.trans known
          exact ⟨id, only, (content_reconcileRegion _ _ _).trans held⟩

theorem Holds.congr (holds : scene.Holds index value?)
    (target : result.graph.parts[index]?.map Part.target = scene.graph.parts[index]?.map Part.target)
    (bindings : result.graph.bindings = scene.graph.bindings)
    (texts : ∀ {number : Nat} {content : List NodeId} {nested? : Option Nested},
      scene.graph.parts[index]?.map Part.target = some (.nodes number content nested?) →
        ∀ id ∈ content, ∀ text, scene.document.content id = .text text →
          result.document.content id = .text text) : result.Holds index value? where
  stored := by
    intro number stored? known
    rw [target] at known
    rw [isWhole, target, bindings]
    exact holds.stored known
  shown := by
    intro number content nested? known
    rw [target] at known
    obtain ⟨id, rfl, held⟩ := holds.shown known
    exact ⟨id, rfl, texts known id (List.mem_singleton_self id) _ held⟩

theorem Live.holds_of_ne (live : scene.Live start rows) (bound : scene.graph.Bound) {other : Nat}
    {otherValue? : Option String} (holds : scene.Holds other otherValue?) (differ : index ≠ other)
    (value? : Option String) : (scene.setValue index value?).Holds other otherValue? := by
  cases target : scene.graph.parts[index]?.map Part.target with
  | none => rwa [setValue_of_none target]
  | some known =>
      rcases known with ⟨number, old?⟩ | ⟨number, content, nested?⟩
      · obtain ⟨binding, found, _⟩ := bound.part target
        rw [setValue_of_attribute target found]
        refine holds.congr ?_ rfl fun _ id _ text held => Document.content_putAttribute_text held
        rw [PartGraph.target_setTarget, if_neg differ]
      · obtain ⟨document, shown, prepared, set⟩ := scene.exists_prepared target value?
        rw [set]
        refine holds.congr ?_ (bindings_reconcileRegion ..) fun known id member text held => ?_
        · rw [parts_reconcileRegion, PartGraph.target_setTarget, if_neg differ]
        · have apart := live.planned.not_shown_of_part live.toSound target known (Ne.symm differ) member
          rw [content_reconcileRegion, prepared.content_eq (Document.has_of_text held) apart, held]

theorem expression_assign (state : Json) (scene : Scene) (index other : Nat) :
    (assign state scene index).graph.parts[other]?.map Part.expression =
      scene.graph.parts[other]?.map Part.expression := by
  rw [assign]
  cases scene.assigned? state index with
  | none => rfl
  | some value => exact expression_setValue ..

def HoldsAll (scene : Scene) (state : Json) (indices : List Nat) : Prop :=
  ∀ index ∈ indices, ∀ value, scene.assigned? state index = some value →
    scene.Holds index value.shown

theorem Steady.holdsAll_assign (steady : scene.Steady start rows) {state : Json} {passed : List Nat}
    (known : scene.HoldsAll state passed) (next : Nat) :
    (Scene.assign state scene next).HoldsAll state (passed ++ [next]) := by
  obtain ⟨given, shows⟩ := steady.shows
  intro index member value assigned
  rw [assigned?_congr (expression_assign state scene next index)] at assigned
  rw [Scene.assign]
  by_cases same : next = index
  · subst same
    rw [assigned]
    exact holds_setValue shows.bound next value.shown
  · have earlier : index ∈ passed := by
      rcases List.mem_append.mp member with earlier | last
      · exact earlier
      · exact (same (List.mem_singleton.mp last).symm).elim
    have holds := known index earlier value assigned
    cases scene.assigned? state next with
    | none => exact holds
    | some other => exact steady.holds_of_ne shows.bound holds same other.shown

theorem Steady.holdsAll_foldl_assign (steady : scene.Steady start rows) {state : Json}
    {passed : List Nat} (known : scene.HoldsAll state passed) (indices : List Nat) :
    (indices.foldl (Scene.assign state) scene).HoldsAll state (passed ++ indices) := by
  induction indices generalizing scene passed with
  | nil => rwa [List.append_nil]
  | cons next rest ih =>
      have later := ih (steady.assign state next) (steady.holdsAll_assign known next)
      rwa [List.append_assoc] at later

theorem Steady.foldl_assign_self (steady : scene.Steady start rows) {state : Json}
    {indices : List Nat} (known : scene.HoldsAll state indices) :
    indices.foldl (Scene.assign state) scene = scene := by
  induction indices with
  | nil => rfl
  | cons next rest ih =>
      have unchanged : Scene.assign state scene next = scene := by
        rw [Scene.assign]
        cases assigned : scene.assigned? state next with
        | none => rfl
        | some value => exact steady.setValue_self (known next List.mem_cons_self value assigned)
      rw [List.foldl_cons, unchanged]
      exact ih fun index member => known index (List.mem_cons_of_mem _ member)

theorem size_parts_foldl_assign (state : Json) (indices : List Nat) (scene : Scene) :
    (indices.foldl (assign state) scene).graph.parts.size = scene.graph.parts.size := by
  induction indices generalizing scene with
  | nil => rfl
  | cons next rest ih =>
      have expressions : (assign state scene next).graph.parts.map Part.expression =
          scene.graph.parts.map Part.expression := by
        apply Array.ext_getElem?
        intro index
        rw [Array.getElem?_map, Array.getElem?_map, expression_assign]
      have size := congrArg Array.size expressions
      rw [Array.size_map, Array.size_map] at size
      rw [List.foldl_cons, ih, size]

theorem Steady.assignAll_assignAll (steady : scene.Steady start rows) (state : Json) :
    (scene.assignAll state).assignAll state = scene.assignAll state := by
  have nothing : scene.HoldsAll state [] := by rintro _ ⟨⟩
  have holds := steady.holdsAll_foldl_assign nothing (List.range scene.graph.parts.size)
  rw [Scene.assignAll, Scene.assignAll, size_parts_foldl_assign]
  exact (steady.foldl_assign state _).foldl_assign_self holds

section
variable {free moved : Scene} {parent : NodeId} {lead trail : List NodeId} {mounted : Bool}

theorem Twin.of_boolean (twin : Twin free moved start rows parent lead trail) (index : Nat)
    (present : Bool) :
    Twin (free.setBoolean index present).2 (moved.setBoolean index present).2 start rows parent lead
      trail := by
  have whole : moved.isWhole index = free.isWhole index := by rw [isWhole, isWhole, twin.graph]
  rw [setBoolean_eq, setBoolean_eq, whole]
  split
  · exact twin.of_value index _
  · exact twin

theorem Twin.of_graft (twin : Twin free moved start rows parent lead trail) {tree : Tree Content}
    (plantable : Document.Plantable tree) :
    Twin { free with document := (free.document.graft tree).2 }
      { moved with document := (moved.document.graft tree).2 } start rows parent lead trail := by
  have extended := Document.extends_graft free.document tree
  have kept := (Document.extends_graft moved.document tree).keepsKinds
  have movedWellFormed := Document.wellFormed_graft twin.sound.wellFormed plantable
  have quiet := Quiet.of_extends (fun known => Document.wellFormed_graft known plantable) extended
  exact ⟨twin.live.of_quiet quiet, extended.keepsKinds.trans twin.kinds,
    twin.sound.of_document movedWellFormed kept, twin.graph,
    twin.mounted.graft twin.parentBound twin.fragmentBound tree, twin.outer, twin.outside,
    extended.has twin.parentBound, extended.has twin.fragmentBound⟩

/-- A scene that stands by itself, or one whose fragment was mounted and that differs from such a scene
in nothing else. -/
inductive Placed (start : Scene) (rows : List Row) : Bool → Scene → Prop
  | free {mounted : Bool} {scene : Scene} : scene.Steady start rows → Placed start rows mounted scene
  | moved {free moved : Scene} {parent : NodeId} {lead trail : List NodeId} :
      free.Steady start rows → Twin free moved start rows parent lead trail →
      Placed start rows true moved

namespace Placed

theorem of_value (placed : Placed start rows mounted scene) (index : Nat) (value? : Option String) :
    Placed start rows mounted (scene.setValue index value?) := by
  cases placed with
  | free steady => exact .free (steady.of_value index value?)
  | moved steady twin => exact .moved (steady.of_value index value?) (twin.of_value index value?)

theorem of_boolean (placed : Placed start rows mounted scene) (index : Nat) (present : Bool) :
    Placed start rows mounted (scene.setBoolean index present).2 := by
  cases placed with
  | free steady => exact .free (steady.of_boolean index present)
  | moved steady twin => exact .moved (steady.of_boolean index present) (twin.of_boolean index present)

theorem of_write (placed : Placed start rows mounted scene)
    (target : scene.graph.parts[index]?.map Part.target = some (.nodes number content nested?))
    {write : Write} (textual : write.Textual) :
    Placed start rows mounted (scene.write index write).2 := by
  cases placed with
  | free steady => exact .free (steady.of_write target textual)
  | moved steady twin =>
      rw [twin.graph] at target
      exact .moved (steady.of_write target textual) (twin.of_write target textual)

theorem assignAll (placed : Placed start rows mounted scene) (state : Json) :
    Placed start rows mounted (scene.assignAll state) := by
  cases placed with
  | free steady => exact .free (steady.assignAll state)
  | moved steady twin => exact .moved (steady.assignAll state) (twin.foldl_assignAll [state])

theorem of_edit (placed : Placed start rows mounted scene) {edit : Edit} (makes : edit.Makes)
    (allowed : scene.document.Allows edit) :
    Placed start rows mounted { scene with document := scene.document.edit edit } := by
  cases placed with
  | free steady =>
      exact .free (steady.of_extends (Document.wellFormed_edit steady.wellFormed allowed)
        (Document.extends_edit makes))
  | moved steady twin =>
      rcases Document.edit_of_makes twin.sound.wellFormed makes allowed with same |
        ⟨tree, plantable, added⟩
      · rw [same]
        exact .moved steady twin
      · rw [added]
        exact .moved (steady.of_extends (Document.wellFormed_graft steady.wellFormed plantable)
          (Document.extends_graft ..)) (twin.of_graft plantable)

/-- Inserting the fragment anywhere moves its children there, unless it would end up below itself. -/
theorem mount {slots : List Slot}
    (placed : Placed start (⟨start.graph.fragment, none, slots⟩ :: rows) false scene)
    (hangs : ∀ row ∈ rows, row.regions ≠ [] → Hangs rows slots row.home)
    (isFragment : start.document.kind start.graph.fragment = .fragment)
    (bound : scene.document.Has parent) (reference? : Option NodeId) :
    Placed start (⟨start.graph.fragment, none, slots⟩ :: rows) true
      { scene with document := scene.document.insertBefore parent scene.graph.fragment reference? } := by
  obtain ⟨steady⟩ := placed
  rw [steady.fragment]
  by_cases above : scene.document.IsAbove start.graph.fragment parent
  · rw [Document.insertBefore_of_isAbove steady.wellFormed above]
    exact .free steady
  · have inserted {known? : Option NodeId}
        (known : ∀ reference, known? = some reference → reference ∈ scene.document.children parent) :
        Placed start (⟨start.graph.fragment, none, slots⟩ :: rows) true
          ⟨scene.document.insertBefore parent start.graph.fragment known?, scene.graph⟩ := by
      obtain ⟨_, _, _, _, twin⟩ :=
        steady.exists_twin hangs steady.kinds isFragment bound above known
      exact .moved steady twin
    cases reference? with
    | none => exact inserted (by rintro _ ⟨⟩)
    | some reference =>
        by_cases listed : reference ∈ scene.document.children parent
        · exact inserted (by rintro _ ⟨⟩; exact listed)
        · rw [Document.insertBefore_of_notMem _ listed]
          exact inserted (by rintro _ ⟨⟩)

theorem assignAll_assignAll (placed : Placed start rows mounted scene) (state : Json) :
    (scene.assignAll state).assignAll state = scene.assignAll state := by
  cases placed with
  | free steady => exact steady.assignAll_assignAll state
  | moved steady twin =>
      have once := twin.foldl_assignAll [state]
      have twice := twin.foldl_assignAll [state, state]
      simp only [List.foldl_cons, List.foldl_nil] at once twice
      rw [steady.assignAll_assignAll state] at twice
      rw [Scene.mk.injEq]
      exact ⟨twice.mounted.unique once.mounted twice.sound.wellFormed once.sound.wellFormed,
        twice.graph.trans once.graph.symm⟩

end Placed

theorem Course.placed {slots : List Slot} {base : Scene} (course : Course base mounted scene)
    (steady : base.Steady start (⟨start.graph.fragment, none, slots⟩ :: rows))
    (hangs : ∀ row ∈ rows, row.regions ≠ [] → Hangs rows slots row.home)
    (isFragment : start.document.kind start.graph.fragment = .fragment) :
    Placed start (⟨start.graph.fragment, none, slots⟩ :: rows) mounted scene := by
  induction course with
  | start => exact .free steady
  | edit _ makes allowed ih => exact ih.of_edit makes allowed
  | update state _ ih => exact ih.assignAll state
  | value index value? _ ih => exact ih.of_value index value?
  | boolean index present _ ih => exact ih.of_boolean index present
  | write _ target textual ih => exact ih.of_write target textual
  | mount reference? _ bound ih => exact ih.mount hangs isFragment bound reference?

end

end Scene

section
variable {Script State : Type} {world : World Script State}

/-- Repeating an update changes nothing. Wherever updates and writes have led an instance, and whether
or not its fragment was inserted into another node on the way, a second update to the same state leaves
every node, the size of the document and all that the instance keeps as the first one left them. No
text of the template may have nodes below it. -/
theorem Engine.update_update (interpret : Interpreter Script State) (engine : Engine)
    (template : NodeId) (wellFormed : world.document.WellFormed)
    (nests : Tree.NestsAll (fun content => content.kind ≠ .text) (world.document.forest template))
    (matching : (world.registry engine.registry).resolve
      (world.document.attribute? template (.plain engine.config.typeAttribute)) =
        ⟨.keyMatching, none⟩) (first : Json) {inst : Instance} {made : World Script State}
    (instantiated : engine.instantiate interpret template first world = (some inst, made))
    {mounted : Bool} {scene : Scene}
    (course : Scene.Course ⟨made.document, inst.graph⟩ mounted scene) (state : Json) :
    let once := Instance.update interpret { inst with graph := scene.graph } state
      { made with document := scene.document }
    once.1 = .ok () ∧ Instance.update interpret once.2.1 state once.2.2 = once := by
  obtain ⟨slots, rows, built⟩ := Scene.exists_instantiated wellFormed engine.config template
  have same := engine.instantiate_eq interpret template matching first
  have steady := built.steady wellFormed
  dsimp only at same
  rw [instantiated] at same
  generalize Scene.instantiate world.document engine.config template = start at *
  split at same
  · cases same
  · cases same
    have placed := course.placed (steady.assignAll first) (built.hangs nests) built.fragment
    have process := congrArg TemplateType.process matching
    simp only [Instance.update, World.registry] at process ⊢
    rw [process]
    simp only [Callback.run]
    rw [process]
    simp only
    rw [placed.assignAll_assignAll state]
    exact ⟨trivial, rfl⟩

end

@[irreducible]
def titledFirst : Scene :=
  titledInstance.assignAll (.object [("x", .string "A"), ("y", .null)])

@[irreducible]
def titledWritten : Scene :=
  (Scene.write ⟨titledFirst.document.edit (.read "<b></b>"), titledFirst.graph⟩ 0 (.markup "<i></i>")).2

@[irreducible]
def titledMounted : Scene :=
  ⟨titledWritten.document.insertBefore ⟨14⟩ titledWritten.graph.fragment none, titledWritten.graph⟩

theorem Engine.update_update_titled :
    titledMounted.document.children ⟨14⟩ = [⟨9⟩, ⟨16⟩, ⟨10⟩, ⟨7⟩] ∧
    ∃ inst made,
      Engine.instantiate idle ⟨.standard, 0⟩ ⟨1⟩ (.object [("x", .string "A"), ("y", .null)])
        titledWorld = (some inst, made) ∧
      Scene.Course ⟨made.document, inst.graph⟩ true titledMounted ∧
      let once := Instance.update idle { inst with graph := titledMounted.graph }
        (.object [("y", .string "B")]) { made with document := titledMounted.document }
      once.1 = .ok () ∧
        Instance.update idle once.2.1 (.object [("y", .string "B")]) once.2.2 = once := by
  have source : titledSource.WellFormed :=
    Document.wellFormed_edit Document.wellFormed_new trivial
  have wellFormed : titledWorld.document.WellFormed := by
    rw [titledWorld]
    exact source
  have nests : Tree.NestsAll (fun content : Content => content.kind ≠ .text)
      (titledWorld.document.forest ⟨1⟩) := by decide +kernel
  have matching (name? : Option String) :
      (titledWorld.registry 0).resolve name? = ⟨.keyMatching, none⟩ := by
    rw [titledWorld]
    exact Registry.resolve_empty name?
  have parts : (Scene.instantiate titledWorld.document .standard ⟨1⟩).graph.parts.isEmpty = false := by
    decide +kernel
  have start : (Scene.instantiate titledWorld.document .standard ⟨1⟩).assignAll
      (.object [("x", .string "A"), ("y", .null)]) = titledFirst := by
    rw [titledFirst, titledInstance]
  have instantiated := Engine.instantiate_eq idle ⟨.standard, 0⟩ ⟨1⟩ (matching _)
    (.object [("x", .string "A"), ("y", .null)])
  dsimp only at instantiated
  rw [parts, if_neg Bool.false_ne_true, start] at instantiated
  have read : Scene.Course titledFirst false
      ⟨titledFirst.document.edit (.read "<b></b>"), titledFirst.graph⟩ := .edit .start trivial trivial
  have target : titledFirst.graph.parts[0]?.map Part.target = some (.nodes 0 [⟨11⟩] none) := by
    decide +kernel
  have written : Scene.Course titledFirst false titledWritten := by
    rw [titledWritten]
    exact .write read target rfl
  have bound : titledWritten.document.Has ⟨14⟩ := by
    change 14 < titledWritten.document.size
    decide +kernel
  have course : Scene.Course titledFirst true titledMounted := by
    rw [titledMounted]
    exact .mount none written bound
  have shown : titledMounted.document.children ⟨14⟩ = [⟨9⟩, ⟨16⟩, ⟨10⟩, ⟨7⟩] := by decide +kernel
  exact ⟨shown, _, _, instantiated, course, Engine.update_update idle ⟨.standard, 0⟩ ⟨1⟩ wellFormed
    nests (matching _) _ instantiated course _⟩

end LiveTemplate
