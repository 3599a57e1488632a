import LiveTemplate.Proofs.Writes
import LiveTemplate.Template.Build

/-! Blueprints: which fixed nodes and which regions are the children of which node, and what of the
template they stand for. -/

namespace LiveTemplate

def Source.tokens : Source → List Token
  | .inline tokens => tokens
  | .nested expression _ => [.placeholder expression]

inductive Slot where
  | node (id : NodeId) (content : Content)
  | region (index : Nat) (source : Source)

namespace Slot

def regions : Slot → List Nat
  | node _ _ => []
  | region index _ => [index]

def Holds : Option Slot → Option NodeId → Prop
  | none, none => True
  | some (node id _), some anchor => id = anchor
  | _, _ => False

theorem Holds.exists_node {slot? : Option Slot} {anchor : NodeId} (holds : Holds slot? (some anchor)) :
    ∃ content, slot? = some (node anchor content) := by
  cases slot? with
  | none => exact holds.elim
  | some slot =>
      cases slot with
      | node id content =>
          cases holds
          exact ⟨content, rfl⟩
      | region index source => exact holds.elim

theorem Holds.eq_some {id : NodeId} {content : Content} {anchor? : Option NodeId}
    (holds : Holds (some (node id content)) anchor?) : anchor? = some id := by
  cases anchor? with
  | none => exact holds.elim
  | some anchor => exact congrArg some (Eq.symm holds)

end Slot

structure Row where
  home : NodeId
  parent? : Option NodeId
  slots : List Slot

def Row.regions (row : Row) : List Nat :=
  row.slots.flatMap Slot.regions

namespace Region

structure Fits (region : Region) (parent? : Option NodeId) (left? right? : Option Slot) : Prop where
  parent : region.parent? = parent?
  alone : region.owning = true → parent?.isSome ∧ left? = none ∧ right? = none
  previous : region.owning = false → Slot.Holds left? region.previous?
  next : region.owning = false → Slot.Holds right? region.next?
  outer : parent? = none →
    (∃ id, left? = some (.node id (.text ""))) ∧ ∃ id, right? = some (.node id (.text ""))

end Region

namespace PartGraph

def slotNodes (graph : PartGraph) : Slot → List NodeId
  | .node id _ => [id]
  | .region index _ => (graph.regions[index]?.map graph.nodesOf).getD []

def expand (graph : PartGraph) (slots : List Slot) : List NodeId :=
  slots.flatMap graph.slotNodes

def Framed (graph : PartGraph) (parent? : Option NodeId) (right? : Option Slot) :
    Option Slot → List Slot → Prop
  | _, [] => True
  | left?, slot :: rest =>
    (∀ index source, slot = .region index source →
      ∃ region, graph.regions[index]? = some region ∧
        region.Fits parent? left? (rest.head?.or right?)) ∧
    Framed graph parent? right? (some slot) rest

section
variable {graph : PartGraph} {parent? : Option NodeId} {left? right? : Option Slot}
  {before after : List Slot}

@[simp]
theorem expand_nil (graph : PartGraph) : graph.expand [] = [] :=
  rfl

@[simp]
theorem expand_cons (graph : PartGraph) (slot : Slot) (rest : List Slot) :
    graph.expand (slot :: rest) = graph.slotNodes slot ++ graph.expand rest :=
  List.flatMap_cons

@[simp]
theorem expand_append (graph : PartGraph) (first second : List Slot) :
    graph.expand (first ++ second) = graph.expand first ++ graph.expand second :=
  List.flatMap_append

theorem Framed.fits {index : Nat} {source : Source}
    (framed : graph.Framed parent? right? left? (before ++ .region index source :: after)) :
    ∃ region, graph.regions[index]? = some region ∧
      region.Fits parent? (before.getLast?.or left?) (after.head?.or right?) := by
  induction before generalizing left? with
  | nil =>
      obtain ⟨region, found, fits⟩ := framed.1 index source rfl
      exact ⟨region, found, by simpa using fits⟩
  | cons slot rest ih =>
      obtain ⟨region, found, fits⟩ := ih framed.2
      refine ⟨region, found, ?_⟩
      cases found : rest.getLast? with
      | none => simpa [List.getLast?_cons, found] using fits
      | some last => simpa [List.getLast?_cons, found] using fits

theorem Framed.append (first : graph.Framed parent? (after.head?.or right?) left? before)
    (second : graph.Framed parent? right? (before.getLast?.or left?) after) :
    graph.Framed parent? right? left? (before ++ after) := by
  induction before generalizing left? with
  | nil => simpa using second
  | cons slot rest ih =>
      refine ⟨?_, ih first.2 ?_⟩
      · intro index source same
        obtain ⟨region, found, fits⟩ := first.1 index source same
        exact ⟨region, found, by simpa [List.head?_append, Option.or_assoc] using fits⟩
      · cases found : rest.getLast? with
        | none => simpa [List.getLast?_cons, found] using second
        | some last => simpa [List.getLast?_cons, found] using second

theorem Framed.congr {result : PartGraph} {slots : List Slot}
    (framed : graph.Framed parent? right? left? slots)
    (same : ∀ index ∈ slots.flatMap Slot.regions, ∀ region, graph.regions[index]? = some region →
      ∃ other, result.regions[index]? = some other ∧
        ∀ left? right?, region.Fits parent? left? right? → other.Fits parent? left? right?) :
    result.Framed parent? right? left? slots := by
  induction slots generalizing left? with
  | nil => trivial
  | cons slot rest ih =>
      constructor
      · rintro index source rfl
        obtain ⟨region, found, fits⟩ := framed.1 index source rfl
        obtain ⟨other, otherFound, transfer⟩ := same index (by simp [Slot.regions]) region found
        exact ⟨other, otherFound, transfer _ _ fits⟩
      · apply ih framed.2
        intro index member
        exact same index (by simp [member])

/-- The anchor before a region is the last of the nodes before it. -/
theorem getLast?_expand {anchor? : Option NodeId} (holds : Slot.Holds before.getLast? anchor?) :
    (graph.expand before).getLast? = anchor? := by
  rcases List.eq_nil_or_concat before with rfl | ⟨start, last, rfl⟩
  · cases anchor? with
    | none => rfl
    | some anchor => exact holds.elim
  · rw [List.concat_eq_append, List.getLast?_concat] at holds
    cases last with
    | region index source => cases anchor? <;> exact holds.elim
    | node id content =>
        cases anchor? with
        | none => exact holds.elim
        | some anchor =>
            cases holds
            simp [slotNodes]

theorem head?_expand {anchor? : Option NodeId} (holds : Slot.Holds after.head? anchor?) :
    (graph.expand after).head? = anchor? := by
  cases after with
  | nil =>
      cases anchor? with
      | none => rfl
      | some anchor => exact holds.elim
  | cons first rest =>
      cases first with
      | region index source => cases anchor? <;> exact holds.elim
      | node id content =>
          cases anchor? with
          | none => exact holds.elim
          | some anchor =>
              cases holds
              simp [slotNodes]

theorem expand_congr {result : PartGraph} {slots : List Slot}
    (same : ∀ index ∈ slots.flatMap Slot.regions, result.regions[index]?.map result.nodesOf =
      graph.regions[index]?.map graph.nodesOf) : result.expand slots = graph.expand slots := by
  apply List.flatMap_congr
  rintro (⟨id, content⟩ | ⟨index, source⟩) member
  · rfl
  · rw [slotNodes, slotNodes, same index (List.mem_flatMap.mpr ⟨_, member, by simp [Slot.regions]⟩)]

theorem mem_expand {slots : List Slot} {id : NodeId} :
    id ∈ graph.expand slots ↔ ∃ slot ∈ slots, id ∈ graph.slotNodes slot :=
  List.mem_flatMap

end

inductive Spelled {α : Type} (graph : PartGraph) (reads : α → String → Prop) :
    List Token → List (Piece α) → Prop
  | nil : Spelled graph reads [] []
  | empty {tokens pieces} : Spelled graph reads tokens pieces →
      Spelled graph reads (.literal "" :: tokens) pieces
  | literal {value text tokens pieces} : text ≠ "" → reads value text →
      Spelled graph reads tokens pieces →
      Spelled graph reads (.literal text :: tokens) (.literal value :: pieces)
  | part {index expression tokens pieces} :
      graph.parts[index]?.map Part.expression = some expression →
      Spelled graph reads tokens pieces →
      Spelled graph reads (.placeholder expression :: tokens) (.part index :: pieces)

theorem Spelled.congr {α : Type} {graph result : PartGraph} {reads readsNow : α → String → Prop}
    {tokens : List Token} {pieces : List (Piece α)} (spelled : graph.Spelled reads tokens pieces)
    (literals : ∀ value text, .literal value ∈ pieces → reads value text → readsNow value text)
    (parts : ∀ index expression, .part index ∈ pieces →
      graph.parts[index]?.map Part.expression = some expression →
      result.parts[index]?.map Part.expression = some expression) :
    result.Spelled readsNow tokens pieces := by
  induction spelled with
  | nil => exact .nil
  | empty _ ih => exact .empty (ih literals parts)
  | literal shown readsText _ ih =>
      refine .literal shown (literals _ _ (by simp) readsText) (ih ?_ ?_)
      · exact fun value text member => literals value text (List.mem_cons_of_mem _ member)
      · exact fun index expression member => parts index expression (List.mem_cons_of_mem _ member)
  | part found _ ih =>
      refine .part (parts _ _ (by simp) found) (ih ?_ ?_)
      · exact fun value text member => literals value text (List.mem_cons_of_mem _ member)
      · exact fun index expression member => parts index expression (List.mem_cons_of_mem _ member)

theorem Spelled.exists_reads {α : Type} {graph : PartGraph} {reads : α → String → Prop}
    {tokens : List Token} {pieces : List (Piece α)} {value : α}
    (spelled : graph.Spelled reads tokens pieces) (member : .literal value ∈ pieces) :
    ∃ text, text ≠ "" ∧ reads value text := by
  induction spelled with
  | nil => cases member
  | empty _ ih => exact ih member
  | literal shown held _ ih =>
      rcases List.mem_cons.mp member with same | later
      · cases same
        exact ⟨_, shown, held⟩
      · exact ih later
  | part _ _ ih =>
      rcases List.mem_cons.mp member with same | later
      · cases same
      · exact ih later

end PartGraph

namespace Scene

def IsText (scene : Scene) (id : NodeId) (text : String) : Prop :=
  scene.document.content id = .text text ∧ scene.document.children id = []

def Bears (scene : Scene) (id : NodeId) (entry : Attribute) : Prop :=
  let shown? := Attribute.named? (scene.document.content id).attributes entry.name
  match Token.templated? entry.value with
  | none => shown? = some entry
  | some tokens => ∃ (index : Nat) (binding : Binding),
    scene.graph.bindings[index]? = some binding ∧ binding.element = id ∧
      binding.name = entry.name ∧ scene.graph.Spelled Eq tokens binding.pieces ∧
      shown? = (scene.graph.valueOf binding).map fun value => ⟨entry.name, value⟩

structure Displays (scene : Scene) (id : NodeId) (content : Content) : Prop where
  distinct : Attribute.Distinct content.attributes
  keyed : content.kind = .element → ∀ {index : Nat} {binding : Binding},
    scene.graph.bindings[index]? = some binding → binding.element = id →
      ∃ entry ∈ content.attributes, binding.name = entry.name ∧
        (Token.templated? entry.value).isSome = true
  same : ∃ entries, scene.document.content id = content.mapAttributes fun _ => entries
  entry : ∀ entry ∈ content.attributes, scene.Bears id entry
  other : ∀ name : AttributeName, (∀ entry ∈ content.attributes, entry.name.agrees name = false) →
    Attribute.named? (scene.document.content id).attributes name = none

def Shows (scene : Scene) : Slot → Prop
  | .node id content => scene.Displays id content
  | .region index source => ∃ region, scene.graph.regions[index]? = some region ∧
    scene.graph.Spelled scene.IsText source.tokens region.group

end Scene

def Config.isOwned (config : Config) (contents : List Content) : Bool :=
  (contents.filter fun content => (config.source? content).isSome).length == 1 &&
    contents.all fun content => (config.source? content).isSome || content.isBlankText

theorem Content.kind_of_isBlankText {content : Content} (blank : content.isBlankText = true) :
    content.kind = .text := by
  cases content with
  | text data => rfl
  | _ => cases blank

theorem Config.kind_of_inline {config : Config} {content : Content} {tokens : List Token}
    (found : config.source? content = some (.inline tokens)) : content.kind = .text := by
  cases content with
  | text data => rfl
  | element tag attributes =>
      rw [source?] at found
      split at found <;> cases found
  | _ => cases found

/-- The slots stand for the trees of a template one after another, with anchors between them. Blank
texts are left out beside a region that owns its parent. -/
inductive Mirrors (config : Config) (rows : List Row) : Bool → List (Tree Content) → List Slot → Prop
  | nil {owning} : Mirrors config rows owning [] []
  | anchor {owning trees slots id} : ⟨id, some id, []⟩ ∈ rows → Mirrors config rows owning trees slots →
      Mirrors config rows owning trees (.node id (.text "") :: slots)
  | dropped {content children rest slots} : config.source? content = none →
      content.isBlankText = true → Mirrors config rows true rest slots →
      Mirrors config rows true (.node content children :: rest) slots
  | kept {content children rest slots id below} : config.source? content = none →
      ⟨id, some id, below⟩ ∈ rows →
      Mirrors config rows (config.isOwned (children.map Tree.label)) children below →
      Mirrors config rows false rest slots →
      Mirrors config rows false (.node content children :: rest) (.node id content :: slots)
  | source {owning content children rest slots index source} :
      config.source? content = some source → Mirrors config rows owning rest slots →
      Mirrors config rows owning (.node content children :: rest) (.region index source :: slots)

theorem Mirrors.mono {config : Config} {rows more : List Row} {owning : Bool}
    {trees : List (Tree Content)} {slots : List Slot} (mirrors : Mirrors config rows owning trees slots)
    (subset : ∀ row ∈ rows, row ∈ more) : Mirrors config more owning trees slots := by
  induction mirrors with
  | nil => exact .nil
  | anchor member _ ih => exact .anchor (subset _ member) ih
  | dropped plain blank _ ih => exact .dropped plain blank ih
  | kept plain member _ _ below rest => exact .kept plain (subset _ member) below rest
  | source found _ ih => exact .source found ih

theorem Mirrors.append {config : Config} {rows : List Row} {owning : Bool}
    {trees others : List (Tree Content)} {slots more : List Slot}
    (first : Mirrors config rows owning trees slots)
    (second : Mirrors config rows owning others more) :
    Mirrors config rows owning (trees ++ others) (slots ++ more) := by
  induction first with
  | nil => exact second
  | anchor member _ ih => exact .anchor member (ih second)
  | dropped plain blank _ ih => exact .dropped plain blank (ih second)
  | kept plain member below _ _ rest => exact .kept plain member below (rest second)
  | source found _ ih => exact .source found (ih second)

inductive Hangs (rows : List Row) (slots : List Slot) : NodeId → Prop
  | here {id content} : .node id content ∈ slots → Hangs rows slots id
  | under {row id content} : row ∈ rows → Hangs rows slots row.home → .node id content ∈ row.slots →
      Hangs rows slots id

theorem Hangs.mono {rows more : List Row} {slots others : List Slot} {id : NodeId}
    (hangs : Hangs rows slots id) (subset : ∀ row ∈ rows, row ∈ more)
    (slotSubset : ∀ slot ∈ slots, slot ∈ others) : Hangs more others id := by
  induction hangs with
  | here member => exact .here (slotSubset _ member)
  | under member _ inside ih => exact .under (subset _ member) ih inside

/-- What hangs below a node hangs below everything that the node hangs below. -/
theorem Hangs.trans {rows more : List Row} {slots : List Slot} {id : NodeId} (row : Row)
    (home : Hangs more slots row.home) (hangs : Hangs rows row.slots id) (member : row ∈ more)
    (subset : ∀ row ∈ rows, row ∈ more) : Hangs more slots id := by
  induction hangs with
  | here inside => exact .under member home inside
  | under rowMember _ inside ih => exact .under (subset _ rowMember) ih inside

def Counts (regions : List Nat) (first last : Nat) : Prop :=
  ∀ index, regions.count index = if first ≤ index ∧ index < last then 1 else 0

theorem Counts.nil (number : Nat) : Counts [] number number := by
  intro index
  rw [if_neg (by omega)]
  rfl

theorem Counts.eq_nil {regions : List Nat} {number : Nat} (counts : Counts regions number number) :
    regions = [] := by
  refine List.eq_nil_iff_forall_not_mem.mpr fun index => List.count_eq_zero.mp ?_
  rw [counts index, if_neg (by omega)]

theorem Counts.singleton (number : Nat) : Counts [number] number (number + 1) := by
  intro index
  rw [List.count_singleton]
  grind

theorem Counts.append {regions others : List Nat} {first middle last : Nat}
    (left : Counts regions first middle) (right : Counts others middle last)
    (lower : first ≤ middle) (upper : middle ≤ last) : Counts (regions ++ others) first last := by
  intro index
  rw [List.count_append, left index, right index]
  grind

theorem Counts.perm {regions others : List Nat} {first last : Nat}
    (counts : Counts regions first last) (perm : regions.Perm others) : Counts others first last := by
  intro index
  rw [← perm.count_eq, counts index]

structure Scene.Planned (scene : Scene) (rows : List Row) : Prop where
  laid : ∀ row ∈ rows, scene.document.children row.home = scene.graph.expand row.slots
  framed : ∀ row ∈ rows, scene.graph.Framed row.parent? none none row.slots
  homes : (rows.map Row.home).Nodup
  has : ∀ row ∈ rows, scene.document.Has row.home
  recorded : ∀ row ∈ rows, row.parent? = some row.home ∨
    row.parent? = none ∧ row.home = scene.graph.fragment
  counts : Counts (rows.flatMap Row.regions) 0 scene.graph.regions.size

end LiveTemplate
