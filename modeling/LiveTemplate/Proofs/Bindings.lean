import LiveTemplate.Proofs.Construction
import LiveTemplate.Proofs.Instances

/-! The bindings of a new instance: each is made of an attribute of the template with placeholders, and
shows its fixed texts in the place of that attribute, while all other attributes stay as they are. -/

namespace LiveTemplate

namespace Document

def attributeNames (document : Document) (id : NodeId) : List AttributeName :=
  (document.content id).attributes.map Attribute.name

def named? (document : Document) (id : NodeId) (name : AttributeName) : Option Attribute :=
  Attribute.named? (document.content id).attributes name

end Document

def PartGraph.Keyed (graph : PartGraph) : Prop :=
  ∀ (first second : Nat) (left right : Binding), graph.bindings[first]? = some left →
    graph.bindings[second]? = some right → left.element = right.element →
      left.name.agrees right.name = true → first = second

def PartGraph.Stores (graph : PartGraph) (given : Nat → Option (Option String)) : Prop :=
  ∀ (index number : Nat) (value? : Option String) (binding : Binding),
    graph.parts[index]?.map Part.target = some (.attribute number value?) →
      graph.bindings[number]? = some binding →
        value? = if binding.isWhole then (given index).getD (some "")
          else some ((given index).join.getD "")

def PartGraph.MadeOf (graph : PartGraph) (document : Document) (binding : Binding) : Prop :=
  ∃ entry tokens, document.named? binding.element binding.name = some entry ∧
    entry.name = binding.name ∧ Token.templated? entry.value = some tokens ∧
      graph.Spelled Eq tokens binding.pieces

namespace Attribute

theorem map_name_assign {entries : List Attribute} {name : AttributeName} {entry : Attribute}
    (found : named? entries name = some entry) (value : String) :
    (assign name value entries).map Attribute.name = entries.map Attribute.name := by
  induction entries with
  | nil => cases found
  | cons head rest ih =>
      rw [assign]
      rw [named?_cons] at found
      split
      · rfl
      · rename_i apart
        rw [if_neg apart] at found
        rw [List.map_cons, List.map_cons, ih found]

theorem distinct_iff (entries : List Attribute) : Distinct entries ↔
    (entries.map Attribute.name).Pairwise fun first second => first.agrees second = false := by
  rw [List.pairwise_map]
  rfl

end Attribute

namespace Document

variable {document : Document} {id : NodeId} {name : AttributeName} {entry : Attribute}

theorem attributes_putAttribute (kind : document.kind id = .element) (name : AttributeName)
    (value? : Option String) : ((document.putAttribute id name value?).content id).attributes =
      Attribute.put name value? (document.content id).attributes := by
  obtain ⟨tag, attributes, held⟩ := Content.exists_element kind
  rw [content_putAttribute, if_pos rfl, held]
  rfl

theorem kind_of_named? (found : document.named? id name = some entry) :
    document.kind id = .element := by
  by_contra plain
  rw [named?, Content.attributes_eq_nil plain] at found
  cases found

theorem has_of_named? (found : document.named? id name = some entry) : document.Has id := by
  apply has_of_kind
  rw [kind_of_named? found]
  decide

theorem named?_putAttribute (kind : document.kind id = .element)
    (own : ∀ entry, document.named? id name = some entry → entry.name = name)
    (value? : Option String) (other : NodeId) (wanted : AttributeName) :
    (document.putAttribute id name value?).named? other wanted =
      if other = id ∧ name.agrees wanted = true then value?.map fun value => ⟨name, value⟩
      else document.named? other wanted := by
  by_cases same : other = id
  · subst same
    have kept : ((document.named? other name).map Attribute.name).getD name = name := by
      cases found : document.named? other name with
      | none => rfl
      | some entry => exact own entry found
    rw [named?] at kept ⊢
    rw [attributes_putAttribute kind, Attribute.named?_put, kept]
    simp only [true_and]
    rfl
  · rw [named?, content_putAttribute, if_neg same, if_neg fun both => same both.1]
    rfl

end Document

namespace PartGraph

variable {graph : PartGraph} {given : Nat → Option (Option String)} {binding : Binding}
  {number : Nat}

theorem Stores.setTarget (stores : graph.Stores given)
    (found : graph.bindings[number]? = some binding) (index : Nat) (value? : Option String) :
    (graph.setTarget index (.attribute number
      (if binding.isWhole then value? else some (value?.getD "")))).Stores
        (Function.update given index (some value?)) := by
  intro other otherNumber otherValue? otherBinding otherTarget otherFound
  rcases target_of_setTarget otherTarget with ⟨rfl, same⟩ | ⟨differ, older⟩
  · cases same
    cases found.symm.trans otherFound
    rw [Function.update_self]
    rfl
  · rw [Function.update_of_ne (Ne.symm differ)]
    exact stores _ _ _ _ older otherFound

end PartGraph

namespace Scene

def Blank (scene : Scene) : Prop :=
  ∀ (index : Nat) (binding : Binding), scene.graph.bindings[index]? = some binding →
    scene.document.named? binding.element binding.name = some ⟨binding.name, binding.blank⟩

def Named (area : NodeId → Prop) (scene : Scene) : Prop :=
  ∀ id, area id → scene.document.Has id ∧ Attribute.Distinct (scene.document.content id).attributes

structure Fastens (area : NodeId → Prop) (result scene : Scene) : Prop where
  part : ∀ {index : Nat} {part}, scene.graph.parts[index]? = some part →
    result.graph.parts[index]? = some part
  binding : ∀ {index : Nat} {binding}, scene.graph.bindings[index]? = some binding →
    result.graph.bindings[index]? = some binding
  has : ∀ id, scene.document.Has id → result.document.Has id
  names : ∀ id, scene.document.Has id →
    result.document.attributeNames id = scene.document.attributeNames id
  other : ∀ id name, scene.document.Has id →
    (∀ (index : Nat) (binding : Binding), result.graph.bindings[index]? = some binding →
      binding.element = id → binding.name.agrees name = false) →
        result.document.named? id name = scene.document.named? id name
  origin : result.graph.Keyed → ∀ (index : Nat) (binding : Binding),
    result.graph.bindings[index]? = some binding → scene.graph.bindings[index]? = some binding ∨
      area binding.element ∧ result.graph.MadeOf scene.document binding
  blank : result.graph.Keyed → scene.Blank → result.Blank

namespace Fastens

variable {area : NodeId → Prop} {scene first second third : Scene}

theorem of_adds (adds : second.Adds first) : second.Fastens area first := by
  have bindings := adds.bindings
  have named (id : NodeId) (name : AttributeName) (has : first.document.Has id) :
      second.document.named? id name = first.document.named? id name := by
    rw [Document.named?, adds.content id has, Document.named?]
  refine ⟨adds.part, fun found => bindings ▸ found, adds.has, ?_,
    fun id name has _ => named id name has, ?_, ?_⟩
  · intro id has
    rw [Document.attributeNames, adds.content id has, Document.attributeNames]
  · exact fun _ index binding found => Or.inl (bindings ▸ found)
  · intro _ blank index binding found
    rw [bindings] at found
    have shown := blank index binding found
    rw [named _ _ (Document.has_of_named? shown), shown]

theorem named (fastens : second.Fastens area first) (named : first.Named area) :
    second.Named area := by
  intro id inside
  obtain ⟨has, distinct⟩ := named id inside
  refine ⟨fastens.has id has, ?_⟩
  have names := fastens.names id has
  rw [Document.attributeNames, Document.attributeNames] at names
  rw [Attribute.distinct_iff] at distinct ⊢
  rwa [names]

theorem spelled (fastens : second.Fastens area first) {tokens : List Token}
    {pieces : List (Piece String)} (spelled : first.graph.Spelled Eq tokens pieces) :
    second.graph.Spelled Eq tokens pieces := by
  refine spelled.congr (fun _ _ _ reads => reads) fun part expression _ same => ?_
  obtain ⟨recorded, partFound, rfl⟩ := Option.map_eq_some_iff.mp same
  rw [fastens.part partFound, Option.map_some]

/-- No attribute gets two bindings, so that one which gets a binding later has none before. -/
theorem trans (right : third.Fastens area second) (left : second.Fastens area first)
    (named : first.Named area) : third.Fastens area first := by
  have before (keyed : third.graph.Keyed) : second.graph.Keyed :=
    fun _ _ _ _ found other => keyed _ _ _ _ (right.binding found) (right.binding other)
  refine ⟨fun found => right.part (left.part found), fun found => right.binding (left.binding found),
    fun id has => right.has id (left.has id has), ?_, ?_, ?_, ?_⟩
  · intro id has
    rw [right.names id (left.has id has), left.names id has]
  · intro id name has unbound
    rw [right.other id name (left.has id has) unbound]
    exact left.other id name has fun index binding found => unbound index binding (right.binding found)
  · intro keyed index binding found
    have earlier (older : second.graph.bindings[index]? = some binding) :
        first.graph.bindings[index]? = some binding ∨
          area binding.element ∧ third.graph.MadeOf first.document binding := by
      refine (left.origin (before keyed) index binding older).imp_right ?_
      rintro ⟨inside, entry, tokens, shown, name, templated, spelled⟩
      exact ⟨inside, entry, tokens, shown, name, templated, right.spelled spelled⟩
    rcases right.origin keyed index binding found with older | ⟨inside, entry, tokens, shown, known⟩
    · exact earlier older
    by_cases unbound : ∀ (other : Nat) (old : Binding), second.graph.bindings[other]? = some old →
        old.element = binding.element → old.name.agrees binding.name = false
    · rw [left.other _ _ (named _ inside).1 unbound] at shown
      exact Or.inr ⟨inside, entry, tokens, shown, known⟩
    · push Not at unbound
      obtain ⟨other, old, oldFound, element, agrees⟩ := unbound
      have same := keyed _ _ _ _ (right.binding oldFound) found element (by simpa using agrees)
      subst same
      cases (right.binding oldFound).symm.trans found
      exact earlier oldFound
  · exact fun keyed blank => right.blank keyed (left.blank (before keyed) blank)

theorem refl (area : NodeId → Prop) (scene : Scene) : scene.Fastens area scene :=
  of_adds ⟨id, rfl, fun _ => id, fun _ _ => rfl⟩

end Fastens

theorem fastens_addBinding {area : NodeId → Prop} {scene : Scene} {id : NodeId} {entry : Attribute}
    (inside : area id) (present : scene.document.named? id entry.name = some entry) :
    (scene.addBinding id entry).Fastens area scene ∧ ∀ name, entry.name.agrees name = false →
      (scene.addBinding id entry).document.named? id name = scene.document.named? id name := by
  cases templated : Token.templated? entry.value with
  | none =>
      simp only [addBinding, templated]
      exact ⟨.refl area scene, fun _ _ => trivial⟩
  | some tokens =>
  obtain ⟨pieces, later, parted, spelled, made⟩ := scene.exists_addBinding id templated
  rw [made, parted.bindings_eq]
  have kind := Document.kind_of_named? present
  have own (other : Attribute) (found : scene.document.named? id entry.name = some other) :
      other.name = entry.name := by
    cases present.symm.trans found
    rfl
  have named := Document.named?_putAttribute kind own (some (Binding.blank ⟨id, entry.name, pieces⟩))
  refine ⟨⟨parted.old, PartGraph.getElem?_push_of_some _,
    fun _ => Document.keepsKinds_putAttribute.has, ?_, ?_, ?_, ?_⟩, ?_⟩
  · intro other _
    rw [Document.attributeNames]
    by_cases same : other = id
    · subst same
      rw [Document.attributes_putAttribute kind]
      exact Attribute.map_name_assign present _
    · rw [Document.content_putAttribute, if_neg same]
      rfl
  · intro other name _ unbound
    rw [named, if_neg]
    rintro ⟨rfl, agrees⟩
    have apart := unbound _ _ Array.getElem?_push_size rfl
    rw [agrees] at apart
    cases apart
  · intro _ index binding found
    refine (PartGraph.getElem?_push_cases found).imp_right ?_
    rintro ⟨_, rfl⟩
    exact ⟨inside, entry, tokens, present, rfl, templated,
      spelled.congr (fun _ _ _ reads => reads) fun _ _ _ known => known⟩
  · intro keyed blank index binding found
    rw [named]
    rcases PartGraph.getElem?_push_cases found with older | ⟨_, rfl⟩
    · rw [if_neg, blank index binding older]
      rintro ⟨element, agrees⟩
      -- Two bindings of one attribute would have one number, but the new number was not in use.
      have same := keyed _ _ _ _ Array.getElem?_push_size (PartGraph.getElem?_push_of_some _ older)
        element.symm agrees
      rw [← same, Array.getElem?_size] at older
      cases older
    · rw [if_pos ⟨rfl, AttributeName.agrees_refl _⟩]
      rfl
  · intro name apart
    rw [named, if_neg]
    rintro ⟨_, agrees⟩
    rw [apart] at agrees
    cases agrees

theorem fastens_addBindings {area : NodeId → Prop} {scene : Scene} (named : scene.Named area)
    {id : NodeId} (inside : area id) : (scene.addBindings id).Fastens area scene := by
  have folded (entries : List Attribute) (scene : Scene) (named : scene.Named area)
      (distinct : Attribute.Distinct entries)
      (present : ∀ entry ∈ entries, scene.document.named? id entry.name = some entry) :
      (entries.foldl (fun scene entry => scene.addBinding id entry) scene).Fastens area scene := by
    induction entries generalizing scene with
    | nil => exact .refl area scene
    | cons entry rest ih =>
        obtain ⟨apart, restDistinct⟩ := List.pairwise_cons.mp distinct
        obtain ⟨here, later⟩ := List.forall_mem_cons.mp present
        obtain ⟨first, same⟩ := fastens_addBinding inside here
        refine (ih _ (first.named named) restDistinct fun other member => ?_).trans first named
        rw [same _ (apart other member), later other member]
  rw [addBindings]
  have distinct := (named id inside).2
  exact folded _ scene named distinct fun entry => Attribute.named?_of_mem distinct

theorem constructive_fastens (area : NodeId → Prop) :
    Constructive area fun result scene => scene.Named area → result.Fastens area scene where
  refl := fun scene _ => .refl area scene
  trans := fun right left named => (right ((left named).named named)).trans (left named) named
  adds := fun adds _ => .of_adds adds
  binds := fun _ _ inside named => fastens_addBindings named inside

theorem Unwritten.stores {scene : Scene} (unwritten : scene.Unwritten) :
    scene.graph.Stores fun _ => none := by
  intro index number value? binding target _
  rw [unwritten.initial target]
  split <;> rfl

theorem Unwritten.valueOf_eq {scene : Scene} (unwritten : scene.Unwritten) {number : Nat}
    {binding : Binding} (found : scene.graph.bindings[number]? = some binding) :
    scene.graph.valueOf binding = some binding.blank := by
  refine PartGraph.valueOf_eq_joined fun part member => ?_
  obtain ⟨value?, target⟩ := unwritten.bound.piece found member
  obtain ⟨known, knownFound, same⟩ := Option.map_eq_some_iff.mp target
  rw [knownFound, Option.bind_some, Part.value?, same, unwritten.initial target]
  rfl

theorem fastens_instantiate {document : Document} (wellFormed : document.WellFormed) (config : Config)
    (template : NodeId) :
    let copy := document.graft (.node .fragment (document.forest template))
    (instantiate document config template).Fastens copy.2.Has ⟨copy.2, .empty copy.1⟩ := by
  obtain ⟨root, copy, trees, grafted, copied⟩ := wellFormed.exists_copied template
  refine (constructive_fastens _).instantiate document config template ?_ ?_
  · rw [grafted, copied.layout]
    exact copied.outlined.2.2.has
  · rw [grafted]
    exact fun id has => ⟨has, copied.wellFormed.names id⟩

theorem blank_instantiate {document : Document} (wellFormed : document.WellFormed) (config : Config)
    (template : NodeId) : (instantiate document config template).Blank := by
  obtain ⟨slots, rows, made⟩ := exists_instantiated wellFormed config template
  refine (fastens_instantiate wellFormed config template).blank
    (fun _ _ _ _ => made.unwritten.bound.keyed) ?_
  intro index binding found
  simp [PartGraph.empty] at found

end Scene

end LiveTemplate
