import LiveTemplate.Proofs.PlainText
import LiveTemplate.Proofs.Registers

/-! Two runs of one instance that show the same texts. Whether a run overwrites text nodes in place or
replaces them, and whether an empty text has a node, makes no difference to the markup. -/

namespace LiveTemplate

def Target.bare : Target → Target
  | .attribute binding value? => .attribute binding value?
  | .nodes region _ nested? => .nodes region [] nested?

def Part.bare (part : Part) : Part :=
  { part with target := part.target.bare }

theorem Part.value?_bare (part : Part) : part.bare.value? = part.value? := by
  obtain ⟨expression, target⟩ := part
  cases target <;> rfl

namespace PartGraph

theorem bare_setTarget (graph : PartGraph) (index : Nat) (target : Target) :
    (graph.setTarget index target).parts.map Part.bare =
      (graph.parts.map Part.bare).modify index fun part => { part with target := target.bare } := by
  apply Array.ext_getElem?
  intro other
  rw [Array.getElem?_map, parts_setTarget, Array.getElem?_modify, Array.getElem?_map]
  split
  · rw [Option.map_map, Option.map_map]
    rfl
  · rfl

theorem valueOf_of_bare {graph result : PartGraph}
    (same : result.parts.map Part.bare = graph.parts.map Part.bare) (binding : Binding) :
    result.valueOf binding = graph.valueOf binding := by
  refine valueOf_congr fun part _ => ?_
  have value (graph : PartGraph) : graph.parts[part]?.bind Part.value? =
      ((graph.parts.map Part.bare)[part]?).bind Part.value? := by
    rw [Array.getElem?_map, Option.bind_map]
    congr 1
    funext part
    exact part.value?_bare.symm
  rw [value, value, same]

end PartGraph

namespace Document

variable {document : Document} {nodes : List NodeId} {text : String}

def marks (document : Document) (nodes : List NodeId) : List Char :=
  nodes.flatMap fun id => (document.outerMarkup id).toList

theorem marks_append (document : Document) (first second : List NodeId) :
    document.marks (first ++ second) = document.marks first ++ document.marks second :=
  List.flatMap_append

theorem WellFormed.marks_singleton (wellFormed : document.WellFormed) (id : NodeId) :
    document.marks [id] = Markup.writeOpening (document.content id) ++
      if Markup.showsChildren (document.content id) then
        document.marks (document.children id) ++ Markup.writeClosing (document.content id)
      else [] := by
  rw [marks, List.flatMap_singleton, wellFormed.outerMarkup_eq]
  rfl

theorem WellFormed.marks_text (wellFormed : document.WellFormed) {id : NodeId}
    (held : document.content id = .text text) :
    document.marks [id] = Reference.escape .content text.toList := by
  rw [wellFormed.marks_singleton, held]
  exact List.append_nil _

theorem Letters.marks_eq (letters : document.Letters nodes text) (wellFormed : document.WellFormed) :
    document.marks nodes = Reference.escape .content text.toList := by
  rcases letters with ⟨rfl, rfl⟩ | ⟨id, rfl, held⟩
  · rfl
  · exact wellFormed.marks_text held

theorem WellFormed.innerMarkup_eq (wellFormed : document.WellFormed) (id : NodeId) :
    document.innerMarkup id = String.ofList (document.marks (document.children id)) := by
  rw [innerMarkup, wellFormed.forest_eq, writeAll_map_tree, marks]

end Document

namespace Scene

def Fixed (start : Scene) (rows : List Row) (id : NodeId) : Prop :=
  (∃ row ∈ rows, ∃ content, .node id content ∈ row.slots) ∨
    ∃ (number : Nat) (region : Region), start.graph.regions[number]? = some region ∧
      .literal id ∈ region.group

structure Lettered (scene start : Scene) (rows : List Row) (words : Nat → String) : Prop
    extends scene.Live start rows where
  bound : scene.graph.Bound
  literals : ∀ {number : Nat} {region : Region} {id : NodeId},
    scene.graph.regions[number]? = some region → .literal id ∈ region.group →
      ∃ text, scene.document.content id = .text text
  letters : ∀ {index number : Nat} {content : List NodeId} {nested? : Option Nested},
    scene.graph.parts[index]?.map Part.target = some (.nodes number content nested?) →
      scene.document.Letters content (words index)

variable {scene result start : Scene} {rows : List Row} {words : Nat → String} {index number : Nat}
  {content shown : List NodeId} {nested? : Option Nested} {write : Write} {document : Document}
  {text : String}

theorem Live.group_eq (live : scene.Live start rows) {region : Region}
    (found : scene.graph.regions[number]? = some region) :
    ∃ built, start.graph.regions[number]? = some built ∧ region.group = built.group := by
  rw [live.regions, Option.map_eq_some_iff] at found
  obtain ⟨built, builtFound, rfl⟩ := found
  exact ⟨built, builtFound, rfl⟩

theorem Live.not_shown_of_fixed (live : scene.Live start rows) {id : NodeId}
    (fixed : start.Fixed rows id)
    (target : scene.graph.parts[index]?.map Part.target = some (.nodes number content nested?)) :
    id ∉ content := by
  rcases fixed with ⟨row, member, held, slot⟩ | ⟨other, built, found, literal⟩
  · exact live.planned.not_shown_of_slot live.toSound target member slot
  · exact live.planned.not_shown_of_literal live.toSound target (live.region_of_built found) literal

theorem Live.exists_home (live : scene.Live start rows) {id : NodeId} (fixed : start.Fixed rows id) :
    ∃ row ∈ rows, scene.document.parent? id = some row.home := by
  rcases fixed with ⟨row, member, held, slot⟩ | ⟨other, built, builtFound, literal⟩
  · exact ⟨row, member,
      live.planned.parent?_of_slot live.wellFormed member slot (List.mem_singleton_self id)⟩
  · have found := live.region_of_built builtFound
    obtain ⟨row, member, before, source, after, split, _⟩ := live.planned.exists_row found
    refine ⟨row, member, live.planned.parent?_of_shown live.wellFormed member split found ?_⟩
    exact List.mem_flatMap.mpr ⟨.literal id, literal, List.mem_singleton_self id⟩

theorem Lettered.of_nodes (lettered : scene.Lettered start rows words)
    (target : scene.graph.parts[index]?.map Part.target = some (.nodes number content nested?))
    (prepared : scene.Prepares number content write document shown) (textual : write.nodes = [])
    (letters : document.Letters shown text) :
    let result := reconcileRegion
      ⟨document, scene.graph.setTarget index (.nodes number shown nested?)⟩ number
    result.Lettered start rows (Function.update words index text) ∧
      ∀ id, start.Fixed rows id → result.document.content id = scene.document.content id := by
  intro result
  have live := lettered.toLive
  have nothing (id : NodeId) : id ∉ write.nodes := by
    rw [textual]
    exact List.not_mem_nil
  have resultLive : result.Live start rows := live.of_prepares target prepared
    (textual ▸ List.nodup_nil) fun id member => (nothing id member).elim
  have held (id : NodeId) : result.document.content id = document.content id :=
    content_reconcileRegion _ _ id
  have parts : result.graph.parts =
      (scene.graph.setTarget index (.nodes number shown nested?)).parts := parts_reconcileRegion _ _
  have bindings : result.graph.bindings = scene.graph.bindings := bindings_reconcileRegion _ _
  have has {id : NodeId} (fixed : start.Fixed rows id) : scene.document.Has id := by
    obtain ⟨_, _, linked⟩ := live.exists_home fixed
    exact Document.has_of_parent? linked
  have kept : ∀ id, start.Fixed rows id → result.document.content id = scene.document.content id :=
    fun id fixed => (held id).trans
      (prepared.content_eq (has fixed) (live.not_shown_of_fixed fixed target))
  refine ⟨⟨resultLive, (lettered.bound.setTarget target (by simp)).congr parts bindings, ?_, ?_⟩, kept⟩
  · intro other region id found literal
    obtain ⟨built, builtFound, group⟩ := resultLive.group_eq found
    rw [group] at literal
    rw [kept id (Or.inr ⟨other, built, builtFound, literal⟩)]
    exact lettered.literals (live.region_of_built builtFound) literal
  -- Another part keeps its text, because no node is shown by two parts.
  · intro other otherNumber otherContent otherNested? otherTarget
    rw [parts] at otherTarget
    rcases PartGraph.target_of_setTarget otherTarget with ⟨rfl, same⟩ | ⟨differ, older⟩
    · cases same
      rw [Function.update_self]
      refine letters.imp_right ?_
      rintro ⟨id, only, text⟩
      exact ⟨id, only, (held id).trans text⟩
    · rw [Function.update_of_ne (Ne.symm differ)]
      refine (lettered.letters older).imp_right ?_
      rintro ⟨id, rfl, text⟩
      have outside : id ∉ content := live.planned.not_shown_of_part live.toSound target older
        (Ne.symm differ) (List.mem_singleton_self id)
      exact ⟨id, rfl, (held id).trans
        ((prepared.content_eq (Document.has_of_text text) outside).trans text)⟩

theorem Lettered.of_attribute {old? : Option String} (lettered : scene.Lettered start rows words)
    (target : scene.graph.parts[index]?.map Part.target = some (.attribute number old?))
    (value? : Option String) (text : String) :
    (scene.setValue index value?).Lettered start rows (Function.update words index text) := by
  obtain ⟨binding, found, _⟩ := lettered.bound.part target
  have quiet : (scene.setValue index value?).Quiet scene :=
    scene.quiet_write (by simp [target]) (.value value?)
  have set := setValue_of_attribute target found value?
  refine ⟨lettered.toLive.of_quiet quiet, ?_, ?_, ?_⟩
  · rw [set]
    exact lettered.bound.setTarget target (by simp)
  · intro other region id known literal
    rw [quiet.regions] at known
    obtain ⟨shown, held⟩ := lettered.literals known literal
    exact ⟨shown, quiet.texts held⟩
  · intro other otherNumber content nested? otherTarget
    rw [set] at otherTarget
    rcases PartGraph.target_of_setTarget otherTarget with ⟨_, same⟩ | ⟨differ, older⟩
    · cases same
    · rw [Function.update_of_ne (Ne.symm differ)]
      refine (lettered.letters older).imp_right ?_
      rintro ⟨id, only, held⟩
      exact ⟨id, only, quiet.texts held⟩

inductive Receives (scene : Scene) (index : Nat) (value? : Option String) : Scene → Prop
  | binding {number : Nat} {old? : Option String} :
      scene.graph.parts[index]?.map Part.target = some (.attribute number old?) →
      Receives scene index value? (scene.setValue index value?)
  | region {number : Nat} {content shown : List NodeId} {nested? : Option Nested} {write : Write}
      {document : Document} :
      scene.graph.parts[index]?.map Part.target = some (.nodes number content nested?) →
      scene.Prepares number content write document shown → write.nodes = [] →
      document.Letters shown (value?.getD "") →
      Receives scene index value? (reconcileRegion
        ⟨document, scene.graph.setTarget index (.nodes number shown nested?)⟩ number)

inductive Assigns (state : Json) : List Nat → Scene → Scene → Prop
  | nil {scene : Scene} : Assigns state [] scene scene
  | skip {index : Nat} {rest : List Nat} {scene result : Scene} :
      scene.assigned? state index = none → Assigns state rest scene result →
      Assigns state (index :: rest) scene result
  | give {index : Nat} {rest : List Nat} {scene next result : Scene} {value : Json} :
      scene.assigned? state index = some value → scene.Receives index value.shown next →
      Assigns state rest next result → Assigns state (index :: rest) scene result

theorem exists_part_of_assigned {state value : Json} (assigned : scene.assigned? state index = some value) :
    ∃ part, scene.graph.parts[index]? = some part := by
  cases found : scene.graph.parts[index]? with
  | some part => exact ⟨part, rfl⟩
  | none => cases members : state.members? <;> simp [assigned?, found, members] at assigned

theorem shown_of_isPlain {state value : Json} (plain : state.IsPlain)
    (assigned : scene.assigned? state index = some value) : IsPlain (value.shown.getD "") := by
  obtain ⟨part, found⟩ := exists_part_of_assigned assigned
  cases members : state.members? with
  | none => simp [assigned?, members] at assigned
  | some known =>
      simp only [assigned?, members, found, bind, Option.bind_some] at assigned
      have member : (part.expression, value) ∈ state.members?.getD [] := by
        obtain ⟨before, after, split, _⟩ := List.lookup_eq_some_iff.mp assigned
        rw [members, Option.getD_some, split]
        exact List.mem_append_right _ (List.mem_cons_self ..)
      have texts := plain _ member
      cases shown : value.shown with
      | none => exact ⟨by simp, by simp⟩
      | some text => exact texts text (by rw [shown]; exact List.mem_singleton_self _)

theorem Prepares.letters {value? : Option String}
    (prepared : scene.Prepares number content (.value value?) document shown) :
    document.Letters shown (value?.getD "") := by
  obtain ⟨id, only, held, _⟩ := prepared.exists_text
  exact Or.inr ⟨id, only, held⟩

theorem receives_setValue {part : Part} (found : scene.graph.parts[index]? = some part)
    (value? : Option String) : scene.Receives index value? (scene.setValue index value?) := by
  have target : scene.graph.parts[index]?.map Part.target = some part.target := by rw [found]; rfl
  rcases targetEq : part.target with ⟨number, old?⟩ | ⟨number, content, nested?⟩
  · exact .binding (target.trans (congrArg some targetEq))
  · rw [targetEq] at target
    obtain ⟨document, shown, prepared, set⟩ := scene.exists_prepared target value?
    rw [set]
    exact .region target prepared rfl prepared.letters

theorem assigns_foldl (state : Json) (indices : List Nat) (scene : Scene) :
    Assigns state indices scene (indices.foldl (assign state) scene) := by
  induction indices generalizing scene with
  | nil => exact .nil
  | cons index rest ih =>
      rw [List.foldl_cons]
      cases assigned : scene.assigned? state index with
      | none =>
          have same : assign state scene index = scene := by rw [assign, assigned]
          rw [same]
          exact .skip assigned (ih scene)
      | some value =>
          have next : assign state scene index = scene.setValue index value.shown := by
            rw [assign, assigned]
          obtain ⟨part, found⟩ := exists_part_of_assigned assigned
          rw [next]
          exact .give assigned (receives_setValue found value.shown) (ih _)

theorem exists_receives_markup {state value : Json} (plain : state.IsPlain)
    (assigned : scene.assigned? state index = some value) :
    ∃ next, scene.assignMarkup state index = (.ok (), next) ∧
      scene.Receives index value.shown next := by
  obtain ⟨part, found⟩ := exists_part_of_assigned assigned
  have target : scene.graph.parts[index]?.map Part.target = some part.target := by rw [found]; rfl
  rw [assignMarkup, assigned, found]
  dsimp only
  rcases targetEq : part.target with ⟨number, old?⟩ | ⟨number, content, nested?⟩
  · have kind : part.kind = .attribute := by rw [Part.kind, targetEq]
    rw [if_pos kind]
    exact ⟨_, rfl, receives_setValue found value.shown⟩
  · have kind : part.kind ≠ .attribute := by
      rw [Part.kind, targetEq]
      cases nested? <;> rintro ⟨⟩
    rw [targetEq] at target
    obtain ⟨fragment, document, read, letters⟩ :=
      scene.document.exists_read?_of_isPlain (shown_of_isPlain plain assigned)
    have grown : (⟨document, scene.graph⟩ : Scene).graph.parts[index]?.map Part.target =
        some (.nodes number content nested?) := target
    simp only [if_neg kind, replaceMarkup, read]
    rw [setContent_eq grown]
    exact ⟨_, rfl, .region target (.markup read) rfl letters⟩

theorem exists_assigns_markup {state : Json} (plain : state.IsPlain) (indices : List Nat)
    (scene : Scene) : ∃ result, scene.assignMarkupTo state indices = (.ok (), result) ∧
      Assigns state indices scene result := by
  induction indices generalizing scene with
  | nil => exact ⟨scene, rfl, .nil⟩
  | cons index rest ih =>
      cases assigned : scene.assigned? state index with
      | none =>
          obtain ⟨result, run, assigns⟩ := ih scene
          have same : scene.assignMarkup state index = (.ok (), scene) := by
            rw [assignMarkup, assigned]
          rw [assignMarkupTo, same]
          exact ⟨result, run, .skip assigned assigns⟩
      | some value =>
          obtain ⟨next, first, receives⟩ := exists_receives_markup plain assigned
          obtain ⟨result, run, assigns⟩ := ih next
          rw [assignMarkupTo, first]
          exact ⟨result, run, .give assigned receives assigns⟩

structure Parallel (first second start : Scene) (rows : List Row) (words : Nat → String) : Prop where
  left : first.Lettered start rows words
  right : second.Lettered start rows words
  bindings : second.graph.bindings = first.graph.bindings
  parts : second.graph.parts.map Part.bare = first.graph.parts.map Part.bare
  fixed : ∀ id, start.Fixed rows id → second.document.content id = first.document.content id

section
variable {first second firstNext secondNext : Scene} {state : Json}

namespace Parallel

theorem target_eq (parallel : Parallel first second start rows words) (index : Nat) :
    (second.graph.parts[index]?.map Part.target).map Target.bare =
      (first.graph.parts[index]?.map Part.target).map Target.bare := by
  have same := congrArg (fun parts => parts[index]?.map Part.target) parallel.parts
  rw [Array.getElem?_map, Array.getElem?_map, Option.map_map, Option.map_map] at same
  rw [Option.map_map, Option.map_map]
  exact same

theorem assigned?_eq (parallel : Parallel first second start rows words) (state : Json)
    (index : Nat) : second.assigned? state index = first.assigned? state index := by
  have same := congrArg (fun parts => parts[index]?.map Part.expression) parallel.parts
  rw [Array.getElem?_map, Array.getElem?_map, Option.map_map, Option.map_map] at same
  exact assigned?_congr same

theorem size_eq (parallel : Parallel first second start rows words) :
    second.graph.parts.size = first.graph.parts.size := by
  have same := congrArg Array.size parallel.parts
  rwa [Array.size_map, Array.size_map] at same

/-- The same value for the same part keeps two scenes in step, whichever way each takes. -/
theorem receives {value? : Option String} (parallel : Parallel first second start rows words)
    (left : first.Receives index value? firstNext) (right : second.Receives index value? secondNext) :
    Parallel firstNext secondNext start rows (Function.update words index (value?.getD "")) := by
  have same := parallel.target_eq index
  -- Both scenes have the same targets, so that one part is an attribute in both or in neither.
  cases left with
  | @binding number old? target =>
      cases right with
      | region otherTarget =>
          rw [target, otherTarget] at same
          cases same
      | @binding otherNumber otherOld? otherTarget =>
          rw [target, otherTarget] at same
          cases same
          obtain ⟨binding, found, _⟩ := parallel.left.bound.part target
          have otherFound : second.graph.bindings[number]? = some binding := by
            rw [parallel.bindings, found]
          have set := setValue_of_attribute target found value?
          have otherSet := setValue_of_attribute otherTarget otherFound value?
          have parts (target : Target) : (second.graph.setTarget index target).parts.map Part.bare =
              (first.graph.setTarget index target).parts.map Part.bare := by
            rw [PartGraph.bare_setTarget, PartGraph.bare_setTarget, parallel.parts]
          refine ⟨parallel.left.of_attribute target value? _,
            parallel.right.of_attribute otherTarget value? _, ?_, ?_, fun id fixed => ?_⟩
          · rw [set, otherSet]
            exact parallel.bindings
          · rw [set, otherSet]
            exact parts _
          · rw [set, otherSet]
            dsimp only
            rw [PartGraph.valueOf_of_bare (parts _), Document.content_putAttribute,
              Document.content_putAttribute]
            split
            · rename_i element
              rw [← element, parallel.fixed id fixed]
            · exact parallel.fixed id fixed
  | region target prepared textual letters =>
      cases right with
      | binding otherTarget =>
          rw [target, otherTarget] at same
          cases same
      | region otherTarget otherPrepared otherTextual otherLetters =>
          rw [target, otherTarget] at same
          cases same
          obtain ⟨leftNext, kept⟩ := parallel.left.of_nodes target prepared textual letters
          obtain ⟨rightNext, otherKept⟩ :=
            parallel.right.of_nodes otherTarget otherPrepared otherTextual otherLetters
          refine ⟨leftNext, rightNext, ?_, ?_, fun id fixed => ?_⟩
          · rw [bindings_reconcileRegion, bindings_reconcileRegion]
            exact parallel.bindings
          · rw [parts_reconcileRegion, parts_reconcileRegion, PartGraph.bare_setTarget,
              PartGraph.bare_setTarget, parallel.parts]
            rfl
          · rw [otherKept id fixed, kept id fixed, parallel.fixed id fixed]

theorem assigns {indices : List Nat} (parallel : Parallel first second start rows words)
    (left : Assigns state indices first firstNext) (right : Assigns state indices second secondNext) :
    ∃ later, Parallel firstNext secondNext start rows later := by
  -- Scenes in step have the same expressions, so that both runs skip the same parts.
  induction left generalizing second words with
  | nil =>
      cases right
      exact ⟨words, parallel⟩
  | skip missing _ ih =>
      cases right with
      | skip _ later => exact ih parallel later
      | give given _ _ =>
          rw [parallel.assigned?_eq, missing] at given
          cases given
  | give given receives _ ih =>
      cases right with
      | skip missing _ =>
          rw [parallel.assigned?_eq, given] at missing
          cases missing
      | give otherGiven otherReceives later =>
          rw [parallel.assigned?_eq, given] at otherGiven
          cases otherGiven
          exact ih (parallel.receives receives otherReceives) later

theorem marks_group (parallel : Parallel first second start rows words) {built : Region}
    (found : start.graph.regions[number]? = some built) :
    second.document.marks (second.graph.nodesOf built) =
      first.document.marks (first.graph.nodesOf built) := by
  have leftPlace := parallel.left.region_of_built found
  have rightPlace := parallel.right.region_of_built found
  have piece : ∀ piece ∈ built.group, second.document.marks (second.graph.pieceNodes piece) =
      first.document.marks (first.graph.pieceNodes piece) := by
    rintro (id | part) member
    · obtain ⟨text, held⟩ := parallel.left.literals leftPlace member
      have same := parallel.fixed id (Or.inr ⟨number, built, found, member⟩)
      exact (parallel.right.wellFormed.marks_text (same.trans held)).trans
        (parallel.left.wellFormed.marks_text held).symm
    · obtain ⟨_, _, target⟩ := parallel.left.linked.piece leftPlace member
      obtain ⟨_, _, otherTarget⟩ := parallel.right.linked.piece rightPlace member
      rw [PartGraph.pieceNodes, PartGraph.pieceNodes, PartGraph.contentOf_of_target target,
        PartGraph.contentOf_of_target otherTarget]
      exact ((parallel.right.letters otherTarget).marks_eq parallel.right.wellFormed).trans
        ((parallel.left.letters target).marks_eq parallel.left.wellFormed).symm
  rw [Document.marks, Document.marks, PartGraph.nodesOf, PartGraph.nodesOf, List.flatMap_assoc,
    List.flatMap_assoc]
  exact List.flatMap_congr piece

theorem marks_region (parallel : Parallel first second start rows words) (number : Nat)
    (source : Source) : second.document.marks (second.graph.slotNodes (.region number source)) =
      first.document.marks (first.graph.slotNodes (.region number source)) := by
  rw [PartGraph.slotNodes, PartGraph.slotNodes, parallel.right.regions, parallel.left.regions]
  cases found : start.graph.regions[number]? with
  | none => rfl
  | some built =>
      change second.document.marks (second.graph.nodesOf built) = _
      exact parallel.marks_group found

theorem marks_node (parallel : Parallel first second start rows words) {row : Row}
    (member : row ∈ rows) (fixed : start.Fixed rows row.home)
    (below : second.document.marks (second.graph.expand row.slots) =
      first.document.marks (first.graph.expand row.slots)) :
    second.document.marks [row.home] = first.document.marks [row.home] := by
  rw [parallel.right.wellFormed.marks_singleton, parallel.left.wellFormed.marks_singleton,
    parallel.fixed _ fixed, parallel.right.planned.laid row member,
    parallel.left.planned.laid row member, below]

theorem marks_expand {config : Config} {below : List Row} {owning : Bool}
    {trees : List (Tree Content)} {slots : List Slot}
    (parallel : Parallel first second start rows words) (subset : ∀ row ∈ below, row ∈ rows)
    (mirrors : Mirrors config below owning trees slots)
    (fixed : ∀ id content, .node id content ∈ slots → start.Fixed rows id) :
    second.document.marks (second.graph.expand slots) =
      first.document.marks (first.graph.expand slots) := by
  have rest {slot : Slot} {slots : List Slot}
      (fixed : ∀ id content, .node id content ∈ slot :: slots → start.Fixed rows id) :
      ∀ id content, .node id content ∈ slots → start.Fixed rows id :=
    fun id content member => fixed id content (List.mem_cons_of_mem _ member)
  have split (slot : Slot) (slots : List Slot) (scene : Scene) :
      scene.document.marks (scene.graph.expand (slot :: slots)) =
        scene.document.marks (scene.graph.slotNodes slot) ++
          scene.document.marks (scene.graph.expand slots) := by
    rw [PartGraph.expand_cons, Document.marks_append]
  -- Slots are fixed nodes or regions. Below a fixed node stand the slots of its own row.
  induction mirrors with
  | nil => rfl
  | anchor member _ ih =>
      have node := parallel.marks_node (subset _ member) (fixed _ _ (List.mem_cons_self ..)) rfl
      rw [split, split, ih (rest fixed)]
      exact congrArg (· ++ _) node
  | dropped _ _ _ ih => exact ih fixed
  | @kept content children others slots id inner _ member _ _ ihBelow ih =>
      have inside := ihBelow fun other held slot => Or.inl ⟨_, subset _ member, held, slot⟩
      have node := parallel.marks_node (subset _ member) (fixed _ _ (List.mem_cons_self ..)) inside
      rw [split, split, ih (rest fixed)]
      exact congrArg (· ++ _) node
  | source _ _ ih => rw [split, split, ih (rest fixed), parallel.marks_region]

theorem innerMarkup_eq {config : Config} {below : List Row} {trees : List (Tree Content)}
    {slots : List Slot}
    (parallel : Parallel first second start (⟨start.graph.fragment, none, slots⟩ :: below) words)
    (mirrors : Mirrors config below false trees slots) :
    second.document.innerMarkup second.graph.fragment =
      first.document.innerMarkup first.graph.fragment := by
  have outer (scene : Scene) (lettered : scene.Lettered start
      (⟨start.graph.fragment, none, slots⟩ :: below) words) :
      scene.document.children scene.graph.fragment = scene.graph.expand slots := by
    rw [lettered.fragment]
    exact lettered.planned.laid _ (List.mem_cons_self ..)
  rw [parallel.right.wellFormed.innerMarkup_eq, parallel.left.wellFormed.innerMarkup_eq,
    outer first parallel.left, outer second parallel.right]
  refine congrArg String.ofList (parallel.marks_expand ?_ mirrors ?_)
  · exact fun row member => List.mem_cons_of_mem _ member
  · exact fun id content slot => Or.inl ⟨_, List.mem_cons_self .., content, slot⟩

end Parallel

end

end Scene

end LiveTemplate
