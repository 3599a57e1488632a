import LiveTemplate.Proofs.Bindings
import LiveTemplate.Proofs.Histories
import LiveTemplate.Proofs.Values

/-! Parts as registers: every part reads as the value it was given last, wherever the nodes of its
instance were moved in between. -/

namespace LiveTemplate

def Edit.IsStructural : Edit → Prop
  | .setData _ _ | .setAttribute _ _ _ | .removeAttribute _ _ => False
  | _ => True

namespace Document

theorem content_foldl {α : Type} {step : Document → α → Document} {id : NodeId}
    (same : ∀ (document : Document) (item : α), (step document item).content id = document.content id)
    (items : List α) (document : Document) :
    (items.foldl step document).content id = document.content id := by
  induction items generalizing document with
  | nil => rfl
  | cons item rest ih => exact (ih _).trans (same document item)

theorem size_foldl {α : Type} {step : Document → α → Document}
    (same : ∀ (document : Document) (item : α), (step document item).size = document.size)
    (items : List α) (document : Document) : (items.foldl step document).size = document.size := by
  induction items generalizing document with
  | nil => rfl
  | cons item rest ih => exact (ih _).trans (same document item)

section
variable (document : Document) (id : NodeId)

theorem content_insertBefore (parent moved : NodeId) (reference? : Option NodeId) :
    (document.insertBefore parent moved reference?).content id = document.content id := by
  rw [insertBefore]
  split
  · rfl
  · exact (content_foldl_setParent _ _ _ _).trans ((content_setChildren _ _ _ _).trans
      (content_foldl (fun document moved => content_detach document moved id) _ _))

theorem content_fill (span : Span) (nodes : List NodeId) :
    (document.fill span nodes).content id = document.content id :=
  (content_foldl (fun document node => content_insertBefore document id _ node _) _ _).trans
    (content_foldl (fun document node => content_detach document node id) _ _)

theorem size_insertBefore (parent moved : NodeId) (reference? : Option NodeId) :
    (document.insertBefore parent moved reference?).size = document.size := by
  rw [insertBefore]
  split
  · rfl
  · rw [size_foldl_setParent, size_setChildren]
    exact size_foldl size_detach _ _

theorem size_fill (span : Span) (nodes : List NodeId) :
    (document.fill span nodes).size = document.size :=
  (size_foldl (fun document node => size_insertBefore document _ node _) _ _).trans
    (size_foldl size_detach _ _)

end

section
variable {document : Document} {id : NodeId}

theorem content_edit {edit : Edit} (structural : edit.IsStructural) (has : document.Has id) :
    (document.edit edit).content id = document.content id := by
  cases edit with
  | create content => exact (extends_create document content).content_eq has
  | read markup =>
      simp only [Document.edit]
      split
      · rename_i fragment result read
        obtain ⟨trees, _, _, rfl⟩ := Scene.Prepares.exists_graft read
        exact (extends_graft document _).content_eq has
      · rfl
  | clone other deep => exact (extends_graft document _).content_eq has
  | insert parent moved reference? => exact content_insertBefore document id parent moved reference?
  | remove other => exact content_detach document other id
  | setData _ _ => exact structural.elim
  | setAttribute _ _ _ => exact structural.elim
  | removeAttribute _ _ => exact structural.elim

theorem attribute?_congr {result : Document} (same : result.content id = document.content id)
    (name : AttributeName) : result.attribute? id name = document.attribute? id name := by
  rw [attribute?, attribute?, same]

theorem kind_of_attribute? {name : AttributeName} {value : String}
    (found : document.attribute? id name = some value) : document.kind id = .element := by
  obtain ⟨entry, named, _⟩ := Option.map_eq_some_iff.mp found
  exact kind_of_named? named

theorem attribute?_putAttribute (kind : document.kind id = .element) (name other : AttributeName)
    (value? : Option String) :
    (document.putAttribute id name value?).attribute? id other =
      if name.agrees other then value? else document.attribute? id other := by
  change (Attribute.named? _ other).map Attribute.value = _
  rw [attributes_putAttribute kind, Attribute.named?_put]
  split
  · cases value? <;> rfl
  · rfl

theorem attribute?_putAttribute_of_apart {name other : AttributeName} {element : NodeId}
    (kind : document.kind id = .element) (apart : id = element → name.agrees other = false)
    (value? : Option String) :
    (document.putAttribute element name value?).attribute? id other = document.attribute? id other := by
  by_cases same : id = element
  · subst same
    rw [attribute?_putAttribute kind, apart rfl, if_neg Bool.false_ne_true]
  · exact attribute?_congr ((content_putAttribute _).trans (if_neg same)) other

theorem text_of_content {text : String} (held : document.content id = .text text) :
    document.text id = text := by
  have label := document.label_tree id
  rw [held] at label
  rw [Document.text]
  cases found : document.tree id with
  | node content children =>
      rw [found, Tree.label] at label
      rw [label]
      rfl

end

end Document

theorem Binding.exists_of_isWhole {binding : Binding} (whole : binding.isWhole = true) :
    ∃ part, binding.pieces = [.part part] := by
  rw [isWhole] at whole
  split at whole
  · exact ⟨_, by assumption⟩
  · cases whole

namespace Scene

def Cleared (scene : Scene) : Prop :=
  ∀ (index : Nat) (binding : Binding), scene.graph.bindings[index]? = some binding →
    binding.isWhole = true →
      scene.document.attribute? binding.element binding.name = some ""

variable {scene result : Scene} {given : Nat → Option (Option String)} {index number : Nat}

theorem cleared_instantiate {document : Document} (wellFormed : document.WellFormed) (config : Config)
    (template : NodeId) : (instantiate document config template).Cleared := by
  intro index binding found whole
  obtain ⟨part, pieces⟩ := Binding.exists_of_isWhole whole
  have shown := blank_instantiate wellFormed config template index binding found
  rw [Binding.blank, Binding.joined, pieces] at shown
  exact congrArg (Option.map Attribute.value) shown

inductive Assigned (start : Scene) : (Nat → Option (Option String)) → Scene → Prop
  | start : Assigned start (fun _ => none) start
  | edit {given : Nat → Option (Option String)} {scene : Scene} (edit : Edit) :
      Assigned start given scene → edit.IsStructural → scene.document.Allows edit →
      Assigned start given { scene with document := scene.document.edit edit }
  | value {given : Nat → Option (Option String)} {scene : Scene} (index : Nat)
      (value? : Option String) : Assigned start given scene →
      Assigned start (Function.update given index (some value?)) (scene.setValue index value?)

structure Registers (scene : Scene) (given : Nat → Option (Option String)) : Prop where
  bound : scene.graph.Bound
  stored : ∀ {index number : Nat} {value? : Option String} {binding : Binding},
    scene.graph.parts[index]?.map Part.target = some (.attribute number value?) →
      scene.graph.bindings[number]? = some binding →
        value? = if binding.isWhole then (given index).getD (some "")
          else some ((given index).join.getD "")
  shown : ∀ {number : Nat} {binding : Binding}, scene.graph.bindings[number]? = some binding →
    binding.isWhole = true → scene.document.kind binding.element = .element ∧
      scene.document.attribute? binding.element binding.name = scene.graph.valueOf binding
  displayed : ∀ {index number : Nat} {content : List NodeId} {nested? : Option Nested},
    scene.graph.parts[index]?.map Part.target = some (.nodes number content nested?) →
      content = [] ∧ given index = none ∨
        ∃ id, content = [id] ∧ scene.document.content id = .text ((given index).join.getD "")
  apart : ∀ {first second : Nat} {id : NodeId}, id ∈ scene.graph.contentOf first →
    id ∈ scene.graph.contentOf second → first = second

theorem valueOf_of_target {graph : PartGraph} {binding : Binding} {value? : Option String}
    (bound : graph.Bound) (found : graph.bindings[number]? = some binding)
    (whole : binding.isWhole = true)
    (target : graph.parts[index]?.map Part.target = some (.attribute number value?)) :
    graph.valueOf binding = value? := by
  obtain ⟨part, pieces⟩ := Binding.exists_of_isWhole whole
  obtain ⟨recorded, recordedFound, member⟩ := bound.part target
  cases recordedFound.symm.trans found
  rw [pieces, List.mem_singleton] at member
  cases member
  obtain ⟨known, knownFound, targetEq⟩ := Option.map_eq_some_iff.mp target
  rw [PartGraph.valueOf, pieces]
  dsimp only
  rw [knownFound, Option.bind_some, Part.value?, targetEq]

theorem registers_instantiate {document : Document} (wellFormed : document.WellFormed)
    (config : Config) (template : NodeId) :
    (instantiate document config template).Registers fun _ => none := by
  have cleared := cleared_instantiate wellFormed config template
  obtain ⟨slots, rows, made⟩ := exists_instantiated wellFormed config template
  have unwritten := made.unwritten
  generalize instantiate document config template = start at *
  refine ⟨unwritten.bound, unwritten.stores _ _ _ _, ?_, ?_, ?_⟩
  · intro number binding found whole
    have empty := cleared number binding found whole
    obtain ⟨part, pieces⟩ := Binding.exists_of_isWhole whole
    obtain ⟨value?, target⟩ := unwritten.bound.piece found
      (by rw [pieces]; exact List.mem_singleton_self _)
    refine ⟨Document.kind_of_attribute? empty, ?_⟩
    rw [empty, valueOf_of_target unwritten.bound found whole target, unwritten.initial target]
  · intro index number content nested? target
    have empty := unwritten.empty index
    rw [PartGraph.contentOf_of_target target] at empty
    exact Or.inl ⟨empty, rfl⟩
  · intro first second id member
    rw [unwritten.empty] at member
    cases member

section
variable (scene : Scene) (index : Nat)

theorem content_reconcileRegion (id : NodeId) :
    (scene.reconcileRegion index).document.content id = scene.document.content id := by
  cases found : scene.graph.regions[index]? with
  | none => rw [reconcileRegion, found]
  | some region =>
      rw [reconcileRegion_eq scene found]
      split
      · rfl
      · exact Document.content_fill _ _ _ _

theorem size_reconcileRegion :
    (scene.reconcileRegion index).document.size = scene.document.size := by
  cases found : scene.graph.regions[index]? with
  | none => rw [reconcileRegion, found]
  | some region =>
      rw [reconcileRegion_eq scene found]
      split
      · rfl
      · exact Document.size_fill _ _ _

theorem keepsKinds_reconcileRegion :
    (scene.reconcileRegion index).document.KeepsKinds scene.document where
  has := fun bound => by rwa [Document.Has, size_reconcileRegion]
  kind_eq := fun _ => congrArg Content.kind (content_reconcileRegion scene index _)

theorem graph_reconcileRegion : (scene.reconcileRegion index).graph =
    { scene.graph with regions := (scene.reconcileRegion index).graph.regions } := by
  cases found : scene.graph.regions[index]? with
  | none => rw [reconcileRegion, found]
  | some region =>
      rw [reconcileRegion_eq scene found]
      split <;> rfl

theorem parts_reconcileRegion : (scene.reconcileRegion index).graph.parts = scene.graph.parts := by
  rw [graph_reconcileRegion]

theorem bindings_reconcileRegion :
    (scene.reconcileRegion index).graph.bindings = scene.graph.bindings := by
  rw [graph_reconcileRegion]

end

namespace Registers

theorem congr (registers : scene.Registers given) (parts : result.graph.parts = scene.graph.parts)
    (bindings : result.graph.bindings = scene.graph.bindings)
    (same : ∀ id, scene.document.Has id → result.document.content id = scene.document.content id) :
    result.Registers given where
  bound := registers.bound.congr parts bindings
  stored := by
    rw [parts, bindings]
    exact registers.stored
  shown := by
    intro number binding found whole
    rw [bindings] at found
    obtain ⟨kind, shown⟩ := registers.shown found whole
    have held := same binding.element (Document.has_of_kind (by rw [kind]; decide))
    refine ⟨by rw [Document.kind, held]; exact kind, ?_⟩
    rw [Document.attribute?_congr held, shown]
    exact (PartGraph.valueOf_congr fun part _ => by rw [parts]).symm
  displayed := by
    intro index number content nested? target
    rw [parts] at target
    refine (registers.displayed target).imp_right ?_
    rintro ⟨id, only, held⟩
    exact ⟨id, only, (same id (Document.has_of_text held)).trans held⟩
  apart := by
    intro first second id
    rw [PartGraph.contentOf, PartGraph.contentOf, parts]
    exact registers.apart

theorem of_edit (registers : scene.Registers given) {edit : Edit} (structural : edit.IsStructural) :
    Registers { scene with document := scene.document.edit edit } given :=
  registers.congr rfl rfl fun _ => Document.content_edit structural

theorem text_of_shown (registers : scene.Registers given) {id : NodeId}
    (member : id ∈ scene.graph.contentOf index) :
    scene.document.content id = .text ((given index).join.getD "") := by
  rw [PartGraph.contentOf_eq] at member
  cases target : scene.graph.parts[index]?.map Part.target with
  | none =>
      rw [target] at member
      cases member
  | some known =>
      rw [target] at member
      rcases known with ⟨number, value?⟩ | ⟨number, content, nested?⟩
      · cases member
      · change id ∈ content at member
        rcases registers.displayed target with ⟨rfl, _⟩ | ⟨only, rfl, held⟩
        · cases member
        · rw [List.mem_singleton.mp member]
          exact held

theorem not_shown_of_whole (registers : scene.Registers given) {binding : Binding}
    (found : scene.graph.bindings[number]? = some binding) (whole : binding.isWhole = true)
    (index : Nat) : binding.element ∉ scene.graph.contentOf index := by
  intro member
  have kind := (registers.shown found whole).1
  rw [Document.kind, registers.text_of_shown member] at kind
  cases kind

/-- A value goes to the one binding of a part of an attribute, and to no attribute but its own. -/
theorem of_attribute (registers : scene.Registers given) {old? : Option String}
    (target : scene.graph.parts[index]?.map Part.target = some (.attribute number old?))
    (value? : Option String) :
    (scene.setValue index value?).Registers (Function.update given index (some value?)) := by
  have bound := registers.bound
  obtain ⟨binding, found, _⟩ := bound.part target
  rw [setValue_of_attribute target found]
  have stored : scene.graph.Stores given := fun _ _ _ _ => registers.stored
  have storedNow := stored.setTarget found index value?
  generalize (if binding.isWhole then value? else some (value?.getD "")) = new? at *
  refine ⟨bound.setTarget target (by simp), storedNow _ _ _ _, ?_, ?_, ?_⟩
  · intro other otherBinding otherFound otherWhole
    obtain ⟨kind, shown⟩ := registers.shown otherFound otherWhole
    refine ⟨(Document.keepsKinds_putAttribute.kind_eq (Document.has_of_kind
      (by rw [kind]; decide))).trans kind, ?_⟩
    by_cases same : other = number
    · subst same
      cases found.symm.trans otherFound
      rw [Document.attribute?_putAttribute kind, AttributeName.agrees_refl, if_pos rfl]
    · rw [bound.valueOf_setTarget target otherFound same, ← shown]
      refine Document.attribute?_putAttribute_of_apart kind (fun element => ?_) _
      rw [Bool.eq_false_iff, AttributeName.agrees_comm]
      exact fun agrees => same (bound.keyed otherFound found element agrees)
  · intro other otherNumber content nested? otherTarget
    rcases PartGraph.target_of_setTarget otherTarget with ⟨_, same⟩ | ⟨differ, older⟩
    · cases same
    · rw [Function.update_of_ne (Ne.symm differ)]
      refine (registers.displayed older).imp_right ?_
      rintro ⟨id, only, held⟩
      exact ⟨id, only, Document.content_putAttribute_text held⟩
  · intro first second id left right
    rw [PartGraph.contentOf_setTarget target] at left right
    split at left
    · cases left
    · split at right
      · cases right
      · exact registers.apart left right

/-- The text node that a part is made to show is new, or no other part shows it. -/
theorem exists_text (registers : scene.Registers given) {content shown : List NodeId}
    {nested? : Option Nested} {value? : Option String} {document : Document}
    (target : scene.graph.parts[index]?.map Part.target = some (.nodes number content nested?))
    (prepared : scene.Prepares number content (.value value?) document shown) :
    ∃ id, shown = [id] ∧ document.content id = .text (value?.getD "") ∧
      ∀ other, id ∈ scene.graph.contentOf other → other = index := by
  obtain ⟨id, only, held, ⟨single, _⟩ | ⟨fresh, _⟩⟩ := prepared.exists_text
  · have member : id ∈ scene.graph.contentOf index := by
      rw [PartGraph.contentOf_of_target target, single]
      exact List.mem_singleton_self id
    exact ⟨id, only, held, fun other shared => registers.apart shared member⟩
  · refine ⟨id, only, held, fun other shared => ?_⟩
    exact (fresh (Document.has_of_text (registers.text_of_shown shared))).elim

theorem apart_setTarget (registers : scene.Registers given) {content : List NodeId}
    {nested? : Option Nested} {new id : NodeId} {first second : Nat}
    (target : scene.graph.parts[index]?.map Part.target = some (.nodes number content nested?))
    (own : ∀ other, new ∈ scene.graph.contentOf other → other = index)
    (left : id ∈ (scene.graph.setTarget index (.nodes number [new] nested?)).contentOf first)
    (right : id ∈ (scene.graph.setTarget index (.nodes number [new] nested?)).contentOf second) :
    first = second := by
  rw [PartGraph.contentOf_setTarget target] at left right
  split at left <;> split at right
  · rename_i same other
    exact same.symm.trans other
  · rename_i same _
    rw [List.mem_singleton.mp left] at right
    exact same.symm.trans (own second right).symm
  · rename_i _ same
    rw [List.mem_singleton.mp right] at left
    exact (own first left).trans same
  · exact registers.apart left right

theorem of_nodes (registers : scene.Registers given) {content : List NodeId} {nested? : Option Nested}
    (target : scene.graph.parts[index]?.map Part.target = some (.nodes number content nested?))
    (value? : Option String) :
    (scene.setValue index value?).Registers (Function.update given index (some value?)) := by
  obtain ⟨document, shown, prepared, set⟩ := scene.exists_prepared target value?
  obtain ⟨new, rfl, text, own⟩ := registers.exists_text target prepared
  have shownBy : scene.graph.contentOf index = content := PartGraph.contentOf_of_target target
  have kept {id : NodeId} (has : scene.document.Has id)
      (outside : id ∉ scene.graph.contentOf index) :=
    prepared.content_eq has (shownBy ▸ outside)
  rw [set]
  refine Registers.congr ?_ (parts_reconcileRegion _ _) (bindings_reconcileRegion _ _)
    fun id _ => content_reconcileRegion _ _ id
  refine ⟨registers.bound.setTarget target (by simp), ?_, ?_, ?_, registers.apart_setTarget target own⟩
  · intro other otherNumber otherValue? binding otherTarget found
    rcases PartGraph.target_of_setTarget otherTarget with ⟨_, same⟩ | ⟨differ, older⟩
    · cases same
    · rw [Function.update_of_ne (Ne.symm differ)]
      exact registers.stored older found
  · intro other binding found whole
    obtain ⟨kind, shown⟩ := registers.shown found whole
    -- A part overwrites only texts, and the element of a binding is none.
    have held := kept (Document.has_of_kind (by rw [kind]; decide))
      (registers.not_shown_of_whole found whole index)
    refine ⟨by rw [Document.kind, held]; exact kind, ?_⟩
    rw [Document.attribute?_congr held, shown]
    refine (PartGraph.valueOf_congr fun part member => PartGraph.value?_setTarget_of_ne ?_).symm
    rintro rfl
    obtain ⟨_, bindingTarget⟩ := registers.bound.piece found member
    cases target.symm.trans bindingTarget
  · intro other otherNumber otherContent otherNested? otherTarget
    rcases PartGraph.target_of_setTarget otherTarget with ⟨rfl, same⟩ | ⟨differ, older⟩
    · cases same
      rw [Function.update_self]
      exact Or.inr ⟨new, rfl, text⟩
    · rw [Function.update_of_ne (Ne.symm differ)]
      refine (registers.displayed older).imp_right ?_
      rintro ⟨id, rfl, held⟩
      refine ⟨id, rfl, (kept (Document.has_of_text held) fun member => differ ?_).trans held⟩
      refine registers.apart member ?_
      rw [PartGraph.contentOf_of_target older]
      exact List.mem_singleton_self _

theorem of_value (registers : scene.Registers given) (index : Nat) (value? : Option String) :
    (scene.setValue index value?).Registers (Function.update given index (some value?)) := by
  cases target : scene.graph.parts[index]?.map Part.target with
  | none =>
      have missing {known : Target} {other : Nat}
          (found : scene.graph.parts[other]?.map Part.target = some known) : other ≠ index := by
        rintro rfl
        cases target.symm.trans found
      rw [setValue_of_none target]
      refine ⟨registers.bound, ?_, registers.shown, ?_, registers.apart⟩
      · intro other otherNumber otherValue? binding found
        rw [Function.update_of_ne (missing found)]
        exact registers.stored found
      · intro other otherNumber content nested? found
        rw [Function.update_of_ne (missing found)]
        exact registers.displayed found
  | some known =>
      rcases known with ⟨number, old?⟩ | ⟨number, content, nested?⟩
      · exact registers.of_attribute target value?
      · exact registers.of_nodes target value?

theorem value?_eq (registers : scene.Registers given) {part : Part}
    (found : scene.graph.parts[index]? = some part) :
    scene.value? part =
      if scene.isWhole index then (given index).getD (some "")
      else some ((given index).join.getD "") := by
  have target : scene.graph.parts[index]?.map Part.target = some part.target := by rw [found]; rfl
  rcases targetEq : part.target with ⟨number, value?⟩ | ⟨number, content, nested?⟩
  · rw [targetEq] at target
    obtain ⟨binding, bindingFound, _⟩ := registers.bound.part target
    have whole : scene.isWhole index = binding.isWhole := by
      simp only [isWhole, target, bindingFound, Option.map_some, Option.getD_some]
    rw [whole, ← registers.stored target bindingFound]
    simp only [Scene.value?, targetEq, bindingFound]
    split
    · rename_i isWhole
      rw [(registers.shown bindingFound isWhole).2,
        valueOf_of_target registers.bound bindingFound isWhole target]
    · rfl
  · rw [targetEq] at target
    have several : scene.isWhole index = false := by
      simp only [isWhole, target]
    rw [several, if_neg Bool.false_ne_true]
    simp only [Scene.value?, targetEq]
    rcases registers.displayed target with ⟨rfl, none⟩ | ⟨id, rfl, held⟩
    · rw [none]
      rfl
    · rw [List.map_singleton, Document.text_of_content held, String.join_cons]
      simp

end Registers

theorem Assigned.registers {start : Scene} (assigned : Assigned start given scene)
    (initial : start.Registers fun _ => none) : scene.Registers given := by
  induction assigned with
  | start => exact initial
  | edit edit _ structural _ ih => exact ih.of_edit structural
  | value index value? _ ih => exact ih.of_value index value?

/-- Parts are independent registers: whatever values were given to parts of a new instance, and
wherever nodes were moved in between, every part reads as the value given to it last. A missing
value takes away an attribute that the part is all of; everywhere else it reads as the empty text,
and so does a part that was given nothing. -/
theorem value?_of_assigned {document : Document} (wellFormed : document.WellFormed) (config : Config)
    (template : NodeId) (assigned : Assigned (instantiate document config template) given scene)
    {part : Part} (found : scene.graph.parts[index]? = some part) :
    scene.value? part =
      if scene.isWhole index then (given index).getD (some "")
      else some ((given index).join.getD "") :=
  (assigned.registers (registers_instantiate wellFormed config template)).value?_eq found

def labelledSource : Document :=
  (Document.new.graft (.node .fragment
    [.node (.element "p" [⟨.plain "class", "\x7b\x7bk\x7d\x7d"⟩, ⟨.plain "title", "a\x7b\x7bk\x7d\x7d"⟩])
      [.node (.element "i" []) [], .node (.text "\x7b\x7bx\x7d\x7d\x7b\x7by\x7d\x7d") []]])).2

@[irreducible]
def labelledInstance : Scene :=
  instantiate labelledSource .standard ⟨1⟩

def labelledFilled : Scene :=
  (labelledInstance.setValue 0 (some "c")).setValue 2 (some "u")

def labelledTorn : Scene :=
  ⟨(labelledFilled.document.edit (.remove ⟨7⟩)).edit (.remove ⟨9⟩), labelledFilled.graph⟩

def labelledRewritten : Scene :=
  ((labelledTorn.setValue 3 (some "v")).setValue 2 none).setValue 0 none

theorem assigned_rewritten : ∃ given, Assigned labelledInstance given labelledRewritten ∧
    given 0 = some none ∧ given 1 = none ∧ given 2 = some none ∧ given 3 = some (some "v") := by
  have filled := ((@Assigned.start labelledInstance).value 0 (some "c")).value 2 (some "u")
  have torn := (filled.edit (.remove ⟨7⟩) trivial trivial).edit (.remove ⟨9⟩) trivial trivial
  exact ⟨_, ((torn.value 3 (some "v")).value 2 none).value 0 none, rfl, rfl, rfl, rfl⟩

theorem value?_of_rewritten :
    labelledTorn.isLive 0 = false ∧
      (∃ part, labelledRewritten.graph.parts[0]? = some part ∧ labelledRewritten.value? part = none) ∧
      (∃ part, labelledRewritten.graph.parts[1]? = some part ∧
        labelledRewritten.value? part = some "") ∧
      (∃ part, labelledRewritten.graph.parts[2]? = some part ∧
        labelledRewritten.value? part = some "") ∧
      ∃ part, labelledRewritten.graph.parts[3]? = some part ∧
        labelledRewritten.value? part = some "v" := by
  have wellFormed : labelledSource.WellFormed :=
    Document.wellFormed_graft Document.wellFormed_new
      ⟨by simp [Tree.preorder, Tree.preorderForest, Content.attributes, AttributeName.agrees,
          AttributeName.plain, AttributeName.localName],
        by simp [Tree.children, Tree.preorder, Tree.preorderForest, Content.kind]⟩
  obtain ⟨given, assigned, ofClass, ofTitle, ofFirst, ofSecond⟩ := assigned_rewritten
  rw [labelledInstance] at assigned
  have reads {index : Nat} {value? : Option String}
      (known : (labelledRewritten.graph.parts[index]?).isSome = true)
      (reading : (if labelledRewritten.isWhole index then (given index).getD (some "")
        else some ((given index).join.getD "")) = value?) :
      ∃ part, labelledRewritten.graph.parts[index]? = some part ∧
        labelledRewritten.value? part = value? := by
    obtain ⟨part, found⟩ := Option.isSome_iff_exists.mp known
    exact ⟨part, found, (value?_of_assigned wellFormed .standard ⟨1⟩ assigned found).trans reading⟩
  have whole : labelledRewritten.isWhole 0 = true := by decide +kernel
  have several : labelledRewritten.isWhole 1 = false ∧ labelledRewritten.isWhole 2 = false ∧
      labelledRewritten.isWhole 3 = false := by decide +kernel
  refine ⟨by decide +kernel, reads (by decide +kernel) ?_, reads (by decide +kernel) ?_,
    reads (by decide +kernel) ?_, reads (by decide +kernel) ?_⟩
  · rw [whole, ofClass]
    rfl
  · rw [several.1, ofTitle]
    rfl
  · rw [several.2.1, ofFirst]
    rfl
  · rw [several.2.2, ofSecond]
    rfl

end Scene

end LiveTemplate
