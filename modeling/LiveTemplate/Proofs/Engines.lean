import LiveTemplate.Engine.Instance
import LiveTemplate.Proofs.Rendering

/-! Engines with key matching: which templates have instances, and what these look like after any
number of updates. -/

namespace LiveTemplate

namespace Scene

variable {scene start : Scene} {rows : List Row}

theorem Valued.foldl_assignAll {prior : List Json}
    (valued : scene.Valued start rows (start.gives (Json.last? prior)))
    (tall : ∀ row ∈ rows, row.regions ≠ [] → start.document.kind row.home ≠ .text)
    (states : List Json) :
    (states.foldl Scene.assignAll scene).Valued start rows
      (start.gives (Json.last? (prior ++ states))) := by
  induction states generalizing scene prior with
  | nil => simpa using valued
  | cons state rest ih => simpa using ih (valued.later tall state)

section
variable {document : Document} {config : Config} {template : NodeId} {slots : List Slot}

theorem Instantiated.looks_eq (made : Instantiated document config template start slots rows)
    (nests : Tree.NestsAll (fun content => content.kind ≠ .text) (document.forest template))
    (states : List Json) :
    let last := states.foldl Scene.assignAll start
    Tree.looks (last.document.forest last.graph.fragment) =
      Tree.looks (config.fillAll (Json.last? states) false (document.forest template)) := by
  intro last
  have valued : last.Valued start _ _ :=
    Valued.foldl_assignAll made.valued (made.tall nests) states
  have outer := valued.planned.laid _ (List.mem_cons_self ..)
  rw [valued.wellFormed.forest_eq, valued.fragment, outer]
  exact valued.looks_eq (fun row member => List.mem_cons_of_mem _ member) made.mirrors
    (valued.shows _ (List.mem_cons_self ..))

theorem exists_part {α : Type} {graph : PartGraph} {reads : α → String → Prop} {tokens : List Token}
    {pieces : List (Piece α)} (spelled : graph.Spelled reads tokens pieces)
    (placeholder : ∃ expression, .placeholder expression ∈ tokens) : graph.parts ≠ #[] := by
  obtain ⟨expression, member⟩ := placeholder
  induction spelled with
  | nil => cases member
  | empty _ ih => exact ih (by simpa using member)
  | literal _ _ _ ih => exact ih (by simpa using member)
  | part found _ _ =>
      intro empty
      rw [empty] at found
      cases found

theorem not_templated (known : ∀ row ∈ rows, ∀ slot ∈ row.slots, scene.Shows slot)
    (none : scene.graph.parts = #[]) {owning : Bool} {trees : List (Tree Content)}
    (mirrors : Mirrors config rows owning trees slots)
    (nests : Tree.NestsAll (fun content => content.kind ≠ .text) trees)
    (shows : ∀ slot ∈ slots, scene.Shows slot) : config.anyTemplated trees = false := by
  induction mirrors with
  | nil => rfl
  | anchor _ _ ih => exact ih nests fun slot member => shows slot (List.mem_cons_of_mem _ member)
  | @dropped content children rest slots plain blank _ ih =>
      rw [Tree.NestsAll, Tree.Nests] at nests
      cases content with
      | text data =>
          have childless : children = [] := by
            by_contra below
            exact nests.1.1 below rfl
          rw [Config.anyTemplated, Config.isTemplated, plain, childless, ih nests.2 shows]
          rfl
      | _ => cases blank
  | @kept content children rest slots id below plain member _ _ ihBelow ihRest =>
      rw [Tree.NestsAll, Tree.Nests] at nests
      have displays : scene.Displays id content := shows _ (List.mem_cons_self ..)
      have fixed : ∀ entry ∈ content.attributes, Token.templated? entry.value = .none := by
        intro entry entryMember
        cases templated : Token.templated? entry.value with
        | none => rfl
        | some tokens =>
            have bears := displays.entry entry entryMember
            simp only [Bears, templated] at bears
            obtain ⟨_, _, _, _, _, spelled, _⟩ := bears
            exact (exists_part spelled (Token.exists_placeholder templated) none).elim
      have later := ihRest nests.2 fun slot slotMember => shows slot (List.mem_cons_of_mem _ slotMember)
      have inside := ihBelow nests.1.2 (known _ member)
      rw [Config.anyTemplated, Config.isTemplated, plain, inside, later]
      simpa using fixed
  | source found _ _ =>
      obtain ⟨region, _, spelled⟩ := shows _ (List.mem_cons_self ..)
      exact (exists_part spelled (Config.exists_placeholder found) none).elim

end

mutual

theorem build_of_not_templated (config : Config) (level : Level) (previous? : Option NodeId)
    (framed : Bool) (following : List NodeId) (scene : Scene) :
    ∀ tree : Tree NodeId, config.isTemplated (tree.map scene.document.content) = false →
      (build config level previous? framed following scene tree).2.graph = scene.graph ∧
      (build config level previous? framed following scene tree).2.document.content =
        scene.document.content
  | .node id children, plain => by
      rw [Tree.map, Config.isTemplated, Bool.or_eq_false_iff, Bool.or_eq_false_iff] at plain
      obtain ⟨⟨noSource, noBinding⟩, below⟩ := plain
      have unbound : scene.addBindings id = scene := by
        rw [addBindings]
        generalize (scene.document.content id).attributes = entries at noBinding
        induction entries with
        | nil => rfl
        | cons entry rest ih =>
            rw [List.any_cons, Bool.or_eq_false_iff, Option.isSome_eq_false_iff,
              Option.isNone_iff_eq_none] at noBinding
            have same : scene.addBinding id entry = scene := by rw [addBinding, noBinding.1]
            rw [List.foldl_cons, same]
            exact ih noBinding.2
      rw [Option.isSome_eq_false_iff, Option.isNone_iff_eq_none] at noSource
      have inside := buildAll_of_not_templated config
        ⟨some id, scene.isOwned config (children.map Tree.label)⟩ none false scene children below
      rw [build, noSource]
      dsimp only
      rw [unbound, buildBelow]
      refine ⟨inside.1, ?_⟩
      funext other
      rw [← inside.2]
      exact Document.content_arrange _ _ _ _

theorem buildAll_of_not_templated (config : Config) (level : Level) (previous? : Option NodeId)
    (framed : Bool) (scene : Scene) :
    ∀ trees : List (Tree NodeId),
      config.anyTemplated (Tree.mapForest scene.document.content trees) = false →
      (buildAll config level previous? framed scene trees).2.graph = scene.graph ∧
      (buildAll config level previous? framed scene trees).2.document.content =
        scene.document.content
  | [], _ => by
      rw [buildAll]
      exact ⟨rfl, rfl⟩
  | tree :: rest, plain => by
      rw [Tree.mapForest, Config.anyTemplated, Bool.or_eq_false_iff] at plain
      have first := build_of_not_templated config level previous? framed (rest.map Tree.label) scene
        tree plain.1
      rw [buildAll]
      dsimp only
      generalize build config level previous? framed (rest.map Tree.label) scene tree = made at first ⊢
      have later := buildAll_of_not_templated config level made.1.getLast?
        (scene.isSource config tree.label) made.2 rest (first.2 ▸ plain.2)
      exact ⟨later.1.trans first.1, later.2.trans first.2⟩

end

theorem isEmpty_parts_instantiate {document : Document} (wellFormed : document.WellFormed)
    (config : Config) (template : NodeId)
    (nests : Tree.NestsAll (fun content => content.kind ≠ .text) (document.forest template)) :
    (instantiate document config template).graph.parts.isEmpty =
      !config.anyTemplated (document.forest template) := by
  rw [Bool.eq_iff_iff, Array.isEmpty_iff, Bool.not_eq_true']
  constructor
  · intro none
    obtain ⟨slots, rows, made⟩ := exists_instantiated wellFormed config template
    refine not_templated (fun row member => ?_) none made.mirrors nests ?_
    · exact made.shows row (List.mem_cons_of_mem _ member)
    · exact made.shows _ (List.mem_cons_self ..)
  · intro plain
    obtain ⟨root, copy, trees, grafted, copied⟩ := wellFormed.exists_copied template
    rw [← copied.below, ← Tree.mapForest_eq_map] at plain
    have same := buildAll_of_not_templated config .outer none false ⟨copy, .empty root⟩ trees plain
    rw [instantiate, grafted]
    dsimp only
    rw [copied.layout, Tree.children, same.1]
    rfl

end Scene

theorem Registry.resolve_empty {Script : Type} (name? : Option String) :
    (Registry.empty : Registry Script).resolve name? = ⟨.keyMatching, none⟩ := by
  cases found : name?.filter (· != "") with
  | none => rw [resolve, found]; rfl
  | some name => rw [resolve, found]; rfl

section
variable {Script State : Type} {interpret : Interpreter Script State} {world : World Script State}

def Instance.updateAll (interpret : Interpreter Script State) :
    List Json → Instance → World Script State → Outcome Script State
  | [], inst, world => (.ok (), inst, world)
  | state :: rest, inst, world =>
    match inst.update interpret state world with
    | (.ok (), inst, world) => updateAll interpret rest inst world
    | (.error failure, inst, world) => (.error failure, inst, world)

theorem Instance.updateAll_eq {inst : Instance} (states : List Json)
    (matching : ((world.registry inst.registry).resolve inst.type?).process = .keyMatching) :
    let last := states.foldl Scene.assignAll ⟨world.document, inst.graph⟩
    Instance.updateAll interpret states inst world =
      (.ok (), { inst with graph := last.graph }, { world with document := last.document }) := by
  induction states generalizing inst world with
  | nil => rfl
  | cons state rest ih =>
      rw [updateAll, update, matching]
      exact ih matching

/-- When the one callback of a template's type goes through, there is an instance unless the template
has no parts. -/
theorem Engine.instantiate_of_run (interpret : Interpreter Script State) (engine : Engine)
    (template : NodeId) {state : Json} {callback : Callback Script} {inst : Instance}
    {later : World Script State}
    (resolved : (world.registry engine.registry).resolve
      (world.document.attribute? template (.plain engine.config.typeAttribute)) = ⟨callback, none⟩)
    (run : callback.run interpret state
      ⟨world.document.attribute? template (.plain engine.config.typeAttribute), engine.registry,
        (Scene.instantiate world.document engine.config template).graph⟩
      { world with document := (Scene.instantiate world.document engine.config template).document } =
        (.ok (), inst, later)) :
    let start := Scene.instantiate world.document engine.config template
    engine.instantiate interpret template state world =
      if start.graph.parts.isEmpty then (none, { world with document := start.document })
      else (some inst, later) := by
  intro start
  have resolved : ((World.mk start.document world.registries world.state).registry
      engine.registry).resolve (world.document.attribute? template (.plain engine.config.typeAttribute)) =
        ⟨callback, none⟩ := resolved
  simp only [instantiate]
  rw [resolved]
  dsimp only
  rw [run]

theorem Engine.instantiate_eq (interpret : Interpreter Script State) (engine : Engine)
    (template : NodeId)
    (matching : (world.registry engine.registry).resolve
      (world.document.attribute? template (.plain engine.config.typeAttribute)) =
        ⟨.keyMatching, none⟩) (state : Json) :
    let start := Scene.instantiate world.document engine.config template
    let made := start.assignAll state
    let type? := world.document.attribute? template (.plain engine.config.typeAttribute)
    engine.instantiate interpret template state world =
      if start.graph.parts.isEmpty then (none, { world with document := start.document })
      else (some ⟨type?, engine.registry, made.graph⟩, { world with document := made.document }) :=
  engine.instantiate_of_run interpret template matching rfl

/-- There is an instance of a template if and only if something in it is templated. Under key
matching it looks, after any updates, like the template with what the states gave last. No text of
the template may have nodes below it. -/
theorem Engine.looks_filled (interpret : Interpreter Script State) (engine : Engine)
    (template : NodeId) (wellFormed : world.document.WellFormed)
    (nests : Tree.NestsAll (fun content => content.kind ≠ .text) (world.document.forest template))
    (matching : (world.registry engine.registry).resolve
      (world.document.attribute? template (.plain engine.config.typeAttribute)) =
        ⟨.keyMatching, none⟩) (first : Json) (later : List Json) :
    let trees := world.document.forest template
    (engine.config.anyTemplated trees = false →
      (engine.instantiate interpret template first world).1 = none) ∧
    (engine.config.anyTemplated trees = true → ∃ inst made result after,
      engine.instantiate interpret template first world = (some inst, made) ∧
      Instance.updateAll interpret later inst made = (.ok (), result, after) ∧
      Tree.looks (after.document.forest result.graph.fragment) =
        Tree.looks (engine.config.fillAll (Json.last? (first :: later)) false trees)) := by
  intro trees
  have parts := Scene.isEmpty_parts_instantiate wellFormed engine.config template nests
  have instantiated := engine.instantiate_eq interpret template matching first
  dsimp only at instantiated
  rw [parts] at instantiated
  constructor
  · intro plain
    rw [instantiated, plain]
    rfl
  · intro templated
    obtain ⟨slots, rows, made⟩ := Scene.exists_instantiated wellFormed engine.config template
    have looks := made.looks_eq nests (first :: later)
    rw [templated, Bool.not_true, if_neg Bool.false_ne_true] at instantiated
    rw [List.foldl_cons] at looks
    generalize (Scene.instantiate world.document engine.config template).assignAll first = start
      at instantiated looks
    refine ⟨_, _, _, _, instantiated, Instance.updateAll_eq later ?_, looks⟩
    exact congrArg TemplateType.process matching

end

def titledSource : Document :=
  Document.new.edit
    (.read "\x7b\x7bx\x7d\x7d<p title=\"\x7b\x7by\x7d\x7d\"> \x7b\x7bx\x7d\x7d </p>")

@[irreducible]
def titledWorld : World Unit Unit :=
  ⟨titledSource, #[], ()⟩

def idle : Interpreter Unit Unit :=
  fun _ _ inst world => (.ok (), inst, world)

theorem Engine.looks_filled_titled :
    ∃ inst made result after,
      Engine.instantiate idle ⟨.standard, 0⟩ ⟨1⟩ (.object [("x", .string "A"), ("y", .null)])
        titledWorld = (some inst, made) ∧
      Instance.updateAll idle [.object [("y", .string "B")], .null] inst made =
        (.ok (), result, after) ∧
      Tree.looks (after.document.forest result.graph.fragment) =
        Tree.looks (Config.standard.fillAll
          (Json.last? [.object [("x", .string "A"), ("y", .null)], .object [("y", .string "B")], .null])
          false (titledWorld.document.forest ⟨1⟩)) := by
  have source : titledSource.WellFormed :=
    Document.wellFormed_edit Document.wellFormed_new trivial
  have wellFormed : titledWorld.document.WellFormed := by
    rw [titledWorld]
    exact source
  have nests : Tree.NestsAll (fun content : Content => content.kind ≠ .text)
      (titledWorld.document.forest ⟨1⟩) := by decide +kernel
  have matching (name? : Option String) :
      (titledWorld.registry 0).resolve name? = ⟨.keyMatching, none⟩ := by
    rw [titledWorld]
    exact Registry.resolve_empty name?
  have filled := Engine.looks_filled idle ⟨.standard, 0⟩ ⟨1⟩ wellFormed nests (matching _)
    (.object [("x", .string "A"), ("y", .null)]) [.object [("y", .string "B")], .null]
  exact filled.2 (by decide +kernel)

end LiveTemplate
