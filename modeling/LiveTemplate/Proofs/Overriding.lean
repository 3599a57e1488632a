import LiveTemplate.Proofs.Discovery
import LiveTemplate.Proofs.MarkupUpdates

/-! Later updates hide earlier ones, failed or not: once all their keys have been given new values, what
they did is no longer to be seen in the tree of the instance. -/

namespace LiveTemplate

inductive Tree.Alike : Tree Content → Tree Content → Prop
  | node {content other : Content} {children others : List (Tree Content)} :
      content.bare = other.bare → content.attributes.Perm other.attributes →
      List.Forall₂ Tree.Alike children others → Tree.Alike (.node content children) (.node other others)

mutual

theorem Tree.Alike.refl : ∀ tree : Tree Content, tree.Alike tree
  | .node _ children => .node rfl (.refl _) (forest children)

theorem Tree.Alike.forest : ∀ trees : List (Tree Content), List.Forall₂ Tree.Alike trees trees
  | [] => .nil
  | tree :: rest => .cons (refl tree) (forest rest)

end

namespace Document

def AlikeAll (document other : Document) (ids others : List NodeId) : Prop :=
  List.Forall₂ (fun id twin => (document.tree id).Alike (other.tree twin)) ids others

variable {document other : Document}

theorem alikeAll_flatMap {α : Type} {items : List α} {ids others : α → List NodeId}
    (alike : ∀ item ∈ items, document.AlikeAll other (ids item) (others item)) :
    document.AlikeAll other (items.flatMap ids) (items.flatMap others) := by
  induction items with
  | nil => exact .nil
  | cons item rest ih =>
      rw [List.flatMap_cons, List.flatMap_cons]
      exact List.rel_append (alike item (List.mem_cons_self ..))
        (ih fun later member => alike later (List.mem_cons_of_mem _ member))

theorem alikeAll_of_map_eq {ids others : List NodeId}
    (same : ids.map document.tree = others.map other.tree) : document.AlikeAll other ids others := by
  have alike : List.Forall₂ Tree.Alike (ids.map document.tree) (others.map other.tree) :=
    same ▸ Tree.Alike.forest _
  rwa [List.forall₂_map_left_iff, List.forall₂_map_right_iff] at alike

theorem alikeAll_of_forall {ids : List NodeId}
    (alike : ∀ id ∈ ids, (document.tree id).Alike (other.tree id)) : document.AlikeAll other ids ids :=
  List.forall₂_same.mpr alike

theorem alike_of_children (wellFormed : document.WellFormed) (otherWellFormed : other.WellFormed)
    {id : NodeId} (bare : (document.content id).bare = (other.content id).bare)
    (attributes : (document.content id).attributes.Perm (other.content id).attributes)
    (below : document.AlikeAll other (document.children id) (other.children id)) :
    (document.tree id).Alike (other.tree id) := by
  rw [wellFormed.tree_eq, otherWellFormed.tree_eq]
  refine .node bare attributes ?_
  rw [List.forall₂_map_left_iff, List.forall₂_map_right_iff]
  exact below

end Document

namespace Scene

variable {scene start first second : Scene} {rows : List Row} {index number : Nat}
  {values : Nat → Option (Option String)}

structure Matches (first second start : Scene) (rows : List Row) : Prop where
  base : start.Live start rows
  left : first.Steady start rows
  right : second.Steady start rows
  value : ∀ index : Nat, first.graph.parts[index]?.bind Part.value? =
    second.graph.parts[index]?.bind Part.value?
  content : ∀ index : Nat, (first.graph.contentOf index).map first.document.tree =
    (second.graph.contentOf index).map second.document.tree

theorem Renewed.matches (base : start.Live start rows) (left : scene.Renewed values first)
    (right : scene.Renewed values second) (leftSteady : first.Steady start rows)
    (rightSteady : second.Steady start rows) : first.Matches second start rows := by
  have same (index : Nat) : first.graph.parts[index]?.bind Part.value? =
        second.graph.parts[index]?.bind Part.value? ∧
      (first.graph.contentOf index).map first.document.tree =
        (second.graph.contentOf index).map second.document.tree := by
    cases given : values index with
    | none =>
        obtain ⟨part, trees⟩ := left.kept given
        obtain ⟨otherPart, otherTrees⟩ := right.kept given
        refine ⟨by rw [part, otherPart], ?_⟩
        rw [left.contentOf_eq given, right.contentOf_eq given]
        exact List.map_congr_left fun id member =>
          (trees id member).trans (otherTrees id member).symm
    | some value? =>
        cases found : scene.graph.parts[index]? with
        | none =>
            have missing {result : Scene} (renewed : scene.Renewed values result) :
                result.graph.parts[index]? = none := by
              rwa [Array.getElem?_eq_none_iff, renewed.size, ← Array.getElem?_eq_none_iff]
            rw [PartGraph.contentOf, PartGraph.contentOf, missing left, missing right]
            exact ⟨rfl, rfl⟩
        | some part =>
            obtain ⟨expression, ⟨number, old?⟩ | ⟨number, content, nested?⟩⟩ := part
            · rw [PartGraph.contentOf, PartGraph.contentOf, left.stored given found,
                right.stored given found]
              exact ⟨rfl, rfl⟩
            · obtain ⟨shown, trees, read, now, same⟩ := left.shown given found
              obtain ⟨otherShown, otherTrees, otherRead, otherNow, otherSame⟩ := right.shown given found
              cases read.symm.trans otherRead
              rw [PartGraph.contentOf, PartGraph.contentOf, now, otherNow]
              exact ⟨rfl, same.trans otherSame.symm⟩
  exact ⟨base, leftSteady, rightSteady, fun index => (same index).1, fun index => (same index).2⟩

namespace Matches

variable (pair : first.Matches second start rows)

include pair

theorem perm_attributes {id : NodeId} (old : start.document.Has id) :
    (first.document.content id).attributes.Perm (second.document.content id).attributes := by
  obtain ⟨_, left⟩ := pair.left.shows
  obtain ⟨_, right⟩ := pair.right.shows
  by_cases kind : start.document.kind id = .element
  · refine Attribute.perm_of_named? (pair.left.wellFormed.names id) (pair.right.wellFormed.names id)
      fun name => ?_
    change first.document.named? id name = second.document.named? id name
    by_cases bound : ∃ (number : Nat) (binding : Binding),
        start.graph.bindings[number]? = some binding ∧ binding.element = id ∧
          binding.name.agrees name = true
    · obtain ⟨number, binding, found, rfl, agrees⟩ := bound
      have value : first.graph.valueOf binding = second.graph.valueOf binding :=
        PartGraph.valueOf_congr fun part _ => pair.value part
      have shown := (left.shown number binding found).2
      have otherShown := (right.shown number binding found).2
      rw [Document.named?, Attribute.named?_congr agrees] at shown otherShown
      exact shown.trans ((congrArg _ value).trans otherShown.symm)
    · have unbound : ∀ (number : Nat) (binding : Binding),
          start.graph.bindings[number]? = some binding → binding.element = id →
            binding.name.agrees name = false := fun number binding found element =>
        Bool.eq_false_iff.mpr fun agrees => bound ⟨number, binding, found, element, agrees⟩
      exact (left.other id name kind unbound).trans (right.other id name kind unbound).symm
  · have nothing {scene : Scene} (steady : scene.Steady start rows) :
        (scene.document.content id).attributes = [] := by
      refine Content.attributes_eq_nil fun element => kind ?_
      rwa [← steady.kinds.kind_eq old]
    rw [nothing pair.left, nothing pair.right]

/-- What fills a slot consists of nodes of the start and of what parts show. -/
theorem alikeAll_slot {row : Row} (member : row ∈ rows) {slot : Slot} (inside : slot ∈ row.slots)
    (alike : ∀ id ∈ first.document.children row.home, start.document.Has id →
      (first.document.tree id).Alike (second.document.tree id)) :
    first.document.AlikeAll second.document (first.graph.slotNodes slot)
      (second.graph.slotNodes slot) := by
  have alike {id : NodeId} (fixed : start.Fixed rows id) (shown : id ∈ first.graph.slotNodes slot) :
      first.document.AlikeAll second.document [id] [id] := by
    obtain ⟨_, _, linked⟩ := pair.base.exists_home fixed
    have child : id ∈ first.document.children row.home := by
      rw [pair.left.planned.laid row member]
      exact PartGraph.mem_expand.mpr ⟨slot, inside, shown⟩
    exact .cons (alike id child (Document.has_of_parent? linked)) .nil
  cases slot with
  | node id content => exact alike (Or.inl ⟨row, member, content, inside⟩) (List.mem_singleton_self id)
  | region number source =>
      rw [PartGraph.slotNodes, pair.left.regions] at alike ⊢
      rw [PartGraph.slotNodes, pair.right.regions]
      cases found : start.graph.regions[number]? with
      | none => exact .nil
      | some built =>
          refine Document.alikeAll_flatMap fun piece pieceMember => ?_
          cases piece with
          | part index => exact Document.alikeAll_of_map_eq (pair.content index)
          | literal id =>
              refine alike (Or.inr ⟨number, built, found, pieceMember⟩) ?_
              rw [found]
              exact List.mem_flatMap.mpr ⟨_, pieceMember, List.mem_singleton_self id⟩

/-- Nodes of the start look alike in both scenes, attributes in whatever order. -/
theorem alike_tree {id : NodeId} (old : start.document.Has id) :
    (first.document.tree id).Alike (second.document.tree id) := by
  -- The induction goes from the children of a node to the node, over the first document.
  induction id using pair.left.wellFormed.downward.induction with
  | h id ih =>
    refine Document.alike_of_children pair.left.wellFormed pair.right.wellFormed
      ((pair.left.held id old).trans (pair.right.held id old).symm) (pair.perm_attributes old) ?_
    by_cases home : ∃ row ∈ rows, row.home = id
    · obtain ⟨row, member, rfl⟩ := home
      rw [pair.left.planned.laid row member, pair.right.planned.laid row member]
      exact Document.alikeAll_flatMap fun slot inside => pair.alikeAll_slot member inside ih
    · have apart : ∀ row ∈ rows, row.home ≠ id := fun row member same => home ⟨row, member, same⟩
      rw [pair.left.still id old apart] at ih ⊢
      rw [pair.right.still id old apart]
      exact Document.alikeAll_of_forall fun child member =>
        ih child member (pair.base.wellFormed.has_child member)

end Matches

/-- After an update, one that gives all of its keys new values makes what it would have made without
it. -/
theorem Steady.matches_assignAllMarkup (base : start.Live start rows)
    (steady : scene.Steady start rows) {state later : Json}
    (covers : ∀ key, state.given? key ≠ none → later.given? key ≠ none) :
    let once := (scene.assignAllMarkup state).2
    ((once.assignAllMarkup later).1 = .ok () ↔ (scene.assignAllMarkup later).1 = .ok ()) ∧
      ((scene.assignAllMarkup later).1 = .ok () →
        (scene.assignAllMarkup later).2.Matches (once.assignAllMarkup later).2 start rows) := by
  intro once
  obtain ⟨clean, onceSteady⟩ := steady.cleanPrefix state
  obtain ⟨direct, directSteady⟩ := steady.cleanPrefix later
  obtain ⟨after, afterSteady⟩ := onceSteady.cleanPrefix later
  have covered (index : Nat) (missing : scene.gives later.given? index = none) :
      scene.gives state.given? index = none := by
    rw [gives] at missing ⊢
    cases found : scene.graph.parts[index]? with
    | none => rfl
    | some part =>
        rw [found, Option.map_some, Option.bind_some] at missing
        by_contra given
        exact covers part.expression given missing
  obtain ⟨values, renewed, within⟩ : ∃ values, scene.Renewed values once ∧
      ∀ index, scene.gives later.given? index = none → values index = none := by
    cases outcome : (scene.assignAllMarkup state).1 with
    | ok => exact ⟨_, clean.complete outcome, covered⟩
    | error failure =>
        obtain ⟨limit, _, _, _, _, _, renewed⟩ := clean.halted failure outcome
        refine ⟨_, renewed, fun index missing => ?_⟩
        rw [givesTo, covered index missing, ite_self]
  have succeeds : (once.assignAllMarkup later).1 = .ok () ↔
      (scene.assignAllMarkup later).1 = .ok () := by
    rw [← not_iff_not]
    refine after.fails_iff.trans (Iff.trans ?_ direct.fails_iff.symm)
    exact exists_congr fun index => renewed.refuses_iff later index
  refine ⟨succeeds, fun accepted => ?_⟩
  have twice := renewed.trans (after.complete (succeeds.mpr accepted))
  have values : (fun index => (once.gives later.given? index).or (values index)) =
      scene.gives later.given? := by
    funext index
    rw [renewed.gives_eq]
    cases given : scene.gives later.given? index with
    | none => rw [within index given, Option.or_none]
    | some value? => rw [Option.some_or]
  rw [values] at twice
  exact (direct.complete accepted).matches base twice directSteady afterSteady

end Scene

section
variable {Script State : Type} {world : World Script State}

theorem Engine.exists_updated (interpret : Interpreter Script State) (engine : Engine)
    (template : NodeId) (markup : (world.registry engine.registry).resolve
      (world.document.attribute? template (.plain engine.config.typeAttribute)) = ⟨.markup, none⟩)
    {first : Json} {inst : Instance} {made : World Script State}
    (instantiated : engine.instantiate interpret template first world = (some inst, made)) :
    let start := Scene.instantiate world.document engine.config template
    let once := (start.assignAllMarkup first).2
    inst = ⟨world.document.attribute? template (.plain engine.config.typeAttribute), engine.registry,
      once.graph⟩ ∧ made = { world with document := once.document } := by
  intro start once
  have resolved : ((World.mk start.document world.registries world.state).registry
      engine.registry).resolve (world.document.attribute? template (.plain engine.config.typeAttribute)) =
        ⟨.markup, none⟩ := markup
  simp only [instantiate] at instantiated
  rw [resolved] at instantiated
  dsimp only [Callback.run] at instantiated
  split at instantiated
  · cases instantiated
  · split at instantiated
    · cases instantiated
    · rename_i done
      cases instantiated
      rw [Prod.mk.injEq, Prod.mk.injEq] at done
      exact ⟨done.2.1.symm, done.2.2.symm⟩

theorem Instance.update_eq {interpret : Interpreter Script State} {inst : Instance}
    (markup : ((world.registry inst.registry).resolve inst.type?).process = .markup) (state : Json) :
    Instance.update interpret inst state world =
      let outcome := Scene.assignAllMarkup ⟨world.document, inst.graph⟩ state
      (outcome.1, { inst with graph := outcome.2.graph },
        { world with document := outcome.2.document }) := by
  rw [update, markup]
  rfl

/-- An update with markup that fails is a clean prefix and does no lasting harm. It ends at the first
part whose value cannot be read, and names it. The parts before have their new content by then and the
others what they had, every region shows that in its place, and so do the attributes. An update that has
values for the same keys later on succeeds if it would have done so without the first, and makes the same
tree, up to the order of attributes. -/
theorem Engine.update_overridden (interpret : Interpreter Script State) (engine : Engine)
    (template : NodeId) (wellFormed : world.document.WellFormed)
    (markup : (world.registry engine.registry).resolve
      (world.document.attribute? template (.plain engine.config.typeAttribute)) = ⟨.markup, none⟩)
    (first : Json) {inst : Instance} {made : World Script State}
    (instantiated : engine.instantiate interpret template first world = (some inst, made))
    {scene : Scene} (course : Scene.Course ⟨made.document, inst.graph⟩ false scene) (state : Json) :
    let start := Scene.instantiate world.document engine.config template
    let shown := { inst with graph := scene.graph }
    let before := { made with document := scene.document }
    let once := Instance.update interpret shown state before
    let updated : Scene := ⟨once.2.2.document, once.2.1.graph⟩
    scene.CleanPrefix state once.1 updated ∧ updated.InPlace start ∧
      (∃ given, Ledger.Shows start ⟨updated, given⟩) ∧
      ∀ later : Json, (∀ key, state.given? key ≠ none → later.given? key ≠ none) →
        let direct := Instance.update interpret shown later before
        let after := Instance.update interpret once.2.1 later once.2.2
        (after.1 = .ok () ↔ direct.1 = .ok ()) ∧ (direct.1 = .ok () →
          (direct.2.2.document.tree direct.2.1.graph.fragment).Alike
            (after.2.2.document.tree after.2.1.graph.fragment)) := by
  obtain ⟨slots, rows, built⟩ := Scene.exists_instantiated wellFormed engine.config template
  have startSteady := built.steady wellFormed
  obtain ⟨rfl, rfl⟩ := engine.exists_updated interpret template markup instantiated
  generalize Scene.instantiate world.document engine.config template = start at *
  have steady := course.steady rfl (startSteady.cleanPrefix first).2
  have process : ((world.registry engine.registry).resolve (world.document.attribute? template
      (.plain engine.config.typeAttribute))).process = .markup := congrArg TemplateType.process markup
  have run (state : Json) (scene : Scene) :=
    @Instance.update_eq _ _ { world with document := scene.document } interpret
      ⟨world.document.attribute? template (.plain engine.config.typeAttribute), engine.registry,
        scene.graph⟩ process state
  obtain ⟨clean, updatedSteady⟩ := steady.cleanPrefix state
  simp only [run]
  refine ⟨clean, updatedSteady.inPlace, updatedSteady.shows, fun later covers => ?_⟩
  obtain ⟨succeeds, pairs⟩ := steady.matches_assignAllMarkup built.live covers
  refine ⟨succeeds, fun accepted => ?_⟩
  have pair := pairs accepted
  rw [pair.left.fragment, pair.right.fragment]
  exact pair.alike_tree (built.live.homes _ (List.mem_cons_self ..))

end

@[irreducible]
def brokenSource : Document :=
  Document.new.edit (.read ("<template type=\"markup\">\x7b\x7bx\x7d\x7d" ++
    "<p class=\"\x7b\x7by\x7d\x7d\">\x7b\x7bz\x7d\x7d</p></template>"))

@[irreducible]
def brokenStart : Scene :=
  Scene.instantiate brokenSource .standard ⟨2⟩

def brokenFirst : Json :=
  .object [("x", .string "<b>1</b>"), ("y", .null), ("z", .string "2")]

def brokenState : Json :=
  .object [("x", .string "<i></i>"), ("y", .string "a"), ("z", .string "<b>")]

def brokenLater : Json :=
  .object [("z", .null), ("y", .string "b"), ("x", .string "c")]

@[irreducible]
def brokenScene : Scene :=
  (((brokenStart.assignAllMarkup brokenFirst).2.setValue 0 (some "d")).assignAllMarkup brokenState).2

theorem Engine.update_overridden_broken :
    ∃ inst made,
      Engine.instantiate CommandWorld.noScripts ⟨.standard, 0⟩ ⟨2⟩ brokenFirst
        (CommandWorld.start brokenSource) = (some inst, made) ∧
      Scene.Course ⟨made.document, inst.graph⟩ false brokenScene ∧
      let shown := { inst with graph := brokenScene.graph }
      let before := { made with document := brokenScene.document }
      let once := Instance.update CommandWorld.noScripts shown brokenState before
      let direct := Instance.update CommandWorld.noScripts shown brokenLater before
      let after := Instance.update CommandWorld.noScripts once.2.1 brokenLater once.2.2
      once.1 = .error (.within "part \x60z\x60" (.part .markup)) ∧ after.1 = .ok () ∧
        (direct.2.2.document.tree direct.2.1.graph.fragment).Alike
          (after.2.2.document.tree after.2.1.graph.fragment) := by
  have source : brokenSource.WellFormed := by
    rw [brokenSource]
    exact Document.wellFormed_edit Document.wellFormed_new trivial
  have wellFormed : (CommandWorld.start brokenSource).document.WellFormed := source
  have named : brokenSource.attribute? ⟨2⟩ (.plain Config.standard.typeAttribute) =
      some CommandWorld.markupType := by decide +kernel
  have markup : ((CommandWorld.start brokenSource).registry 0).resolve
      (brokenSource.attribute? ⟨2⟩ (.plain Config.standard.typeAttribute)) = ⟨.markup, none⟩ := by
    rw [named, CommandWorld.resolve_start, if_pos rfl]
  have start : Scene.instantiate brokenSource .standard ⟨2⟩ = brokenStart := by rw [brokenStart]
  have templated : brokenStart.graph.parts.isEmpty = false := by decide +kernel
  have accepted : (brokenStart.assignAllMarkup brokenFirst).1 = .ok () := by decide +kernel
  have started : Callback.run CommandWorld.noScripts .markup brokenFirst
      ⟨brokenSource.attribute? ⟨2⟩ (.plain Config.standard.typeAttribute), 0,
        (Scene.instantiate brokenSource .standard ⟨2⟩).graph⟩
      { CommandWorld.start brokenSource with
        document := (Scene.instantiate brokenSource .standard ⟨2⟩).document } =
      (.ok (), ⟨brokenSource.attribute? ⟨2⟩ (.plain Config.standard.typeAttribute), 0,
        (brokenStart.assignAllMarkup brokenFirst).2.graph⟩,
        { CommandWorld.start brokenSource with
          document := (brokenStart.assignAllMarkup brokenFirst).2.document }) := by
    rw [start, ← accepted]
    rfl
  have instantiated := Engine.instantiate_of_run CommandWorld.noScripts ⟨.standard, 0⟩ ⟨2⟩ markup started
  have startNow : Scene.instantiate (CommandWorld.start brokenSource).document .standard ⟨2⟩ =
      brokenStart := start
  dsimp only at instantiated
  rw [startNow, templated, if_neg Bool.false_ne_true] at instantiated
  have course : Scene.Course (brokenStart.assignAllMarkup brokenFirst).2 false brokenScene := by
    rw [brokenScene]
    exact (Scene.Course.start.value 0 (some "d")).assignAllMarkup brokenState
  have covers : ∀ key, brokenState.given? key ≠ none → brokenLater.given? key ≠ none := by
    intro key
    simp only [brokenState, brokenLater, Json.given?, Json.members?, Option.bind_some, Json.member?,
      List.lookup_cons, List.lookup_nil]
    cases key == "x" <;> cases key == "y" <;> cases key == "z" <;> simp
  have failed : (brokenScene.assignAllMarkup brokenState).1 =
      .error (.within "part \x60z\x60" (.part .markup)) := by decide +kernel
  have succeeded : (brokenScene.assignAllMarkup brokenLater).1 = .ok () := by decide +kernel
  have run (state : Json) := @Instance.update_eq _ _
    { CommandWorld.start brokenSource with document := brokenScene.document } CommandWorld.noScripts
    ⟨brokenSource.attribute? ⟨2⟩ (.plain Config.standard.typeAttribute), 0, brokenScene.graph⟩
    (congrArg TemplateType.process markup) state
  obtain ⟨_, _, _, hidden⟩ := Engine.update_overridden CommandWorld.noScripts ⟨.standard, 0⟩ ⟨2⟩
    wellFormed markup brokenFirst instantiated course brokenState
  obtain ⟨succeeds, alike⟩ := hidden brokenLater covers
  have directly := (congrArg Prod.fst (run brokenLater)).trans succeeded
  exact ⟨_, _, instantiated, course, (congrArg Prod.fst (run brokenState)).trans failed,
    succeeds.mpr directly, alike directly⟩

end LiveTemplate
