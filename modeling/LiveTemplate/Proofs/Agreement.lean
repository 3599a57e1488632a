import LiveTemplate.Proofs.Frames
import LiveTemplate.Proofs.Parallel
import LiveTemplate.Proofs.Shifting

/-! Rendering values without markup: the type of markup values gives what key matching gives. -/

namespace LiveTemplate

namespace Scene

variable {document other : Document} {config : Config} {template : NodeId} {start twin : Scene}
  {slots : List Slot} {rows : List Row}

/-- Below a template that two documents have alike, instances are made alike. -/
theorem instantiate_congr (wellFormed : document.WellFormed) (size : other.size = document.size)
    (same : other.forest template = document.forest template) (config : Config) :
    let first := instantiate document config template
    let second := instantiate other config template
    second.graph = first.graph ∧ second.document.size = first.document.size ∧
      ∀ id, ¬ document.Has id → second.document.node id = first.document.node id := by
  have shifted := shifted_instantiate wellFormed (size.trans (Nat.add_zero _).symm) config template same
  have still : NodeId.shift 0 = id := rfl
  refine ⟨?_, shifted.document.size, fun id missing => ?_⟩
  · rw [shifted.graph, still, PartGraph.rename_id]
  · have node := shifted.document.node id (Nat.not_lt.mp missing)
    rwa [still, Node.rename_id] at node

namespace Instantiated

variable (made : Instantiated document config template start slots rows)

include made

theorem new_of_parent? (wellFormed : document.WellFormed) {row : Row}
    (member : row ∈ (⟨start.graph.fragment, none, slots⟩ :: rows : List Row)) {id : NodeId}
    (linked : start.document.parent? id = some row.home) : ¬ document.Has id := by
  intro old
  rw [made.spares.parent?_eq id old List.not_mem_nil] at linked
  exact made.new row member (wellFormed.has_parent linked)

theorem live_of_same (wellFormed : document.WellFormed) (sound : twin.Sound) (graph : twin.graph = start.graph)
    (size : twin.document.size = start.document.size)
    (nodes : ∀ id, ¬ document.Has id → twin.document.node id = start.document.node id) :
    twin.Live start (⟨start.graph.fragment, none, slots⟩ :: rows) := by
  have live := made.live
  have has (id : NodeId) : twin.document.Has id ↔ start.document.Has id := by
    rw [Document.Has, Document.Has, size]
  refine ⟨sound, ⟨?_, ?_, made.planned.homes, ?_, ?_, ?_⟩, ?_, ?_, live.homes, ?_, ?_, ?_⟩
  · intro row member
    rw [graph, ← made.planned.laid row member]
    exact congrArg Node.children (nodes row.home (made.new row member))
  · rw [graph]
    exact made.planned.framed
  · exact fun row member => (has _).mpr (made.planned.has row member)
  · rw [graph]
    exact made.planned.recorded
  · rw [graph]
    exact made.planned.counts
  · have shown : twin.shown = start.shown := shown_congr fun part => by rw [graph]
    rw [graph, shown]
    exact live.regions
  · exact fun id old => (has id).mpr old
  · exact fun id _ parent linked => (has parent).mp (sound.wellFormed.has_parent linked)
  · intro row member id text slot
    have linked := made.planned.parent?_of_slot live.wellFormed member slot (List.mem_singleton_self id)
    refine (congrArg Node.content (nodes id ?_)).trans (live.texts row member id text slot)
    exact made.new_of_parent? wellFormed member linked
  · rw [graph]

theorem lettered_of_same
    (live : twin.Live start (⟨start.graph.fragment, none, slots⟩ :: rows))
    (graph : twin.graph = start.graph)
    (fixed : ∀ id, start.Fixed (⟨start.graph.fragment, none, slots⟩ :: rows) id →
      twin.document.content id = start.document.content id) :
    twin.Lettered start (⟨start.graph.fragment, none, slots⟩ :: rows) fun _ => "" := by
  refine ⟨live, graph ▸ made.unwritten.bound, ?_, ?_⟩
  · intro number region id found literal
    rw [graph] at found
    obtain ⟨row, member, before, source, after, split, _⟩ := made.planned.exists_row found
    obtain ⟨shown, shownFound, spelled⟩ := made.shows row member (.region number source) (by simp [split])
    cases found.symm.trans shownFound
    obtain ⟨text, _, held⟩ := spelled.exists_reads literal
    exact ⟨text, (fixed id (Or.inr ⟨number, region, found, literal⟩)).trans held.1⟩
  · intro index number content nested? target
    have empty := made.unwritten.empty index
    rw [graph] at target
    rw [PartGraph.contentOf_of_target target] at empty
    exact Or.inl ⟨empty, rfl⟩

end Instantiated

/-- Instances of a template that two documents have alike start in step. -/
theorem exists_parallel (wellFormed : document.WellFormed) (otherWellFormed : other.WellFormed)
    (size : other.size = document.size) (same : other.forest template = document.forest template)
    (config : Config) :
    let start := instantiate document config template
    ∃ slots rows, Mirrors config rows false (document.forest template) slots ∧
      Parallel start (instantiate other config template) start
        (⟨start.graph.fragment, none, slots⟩ :: rows) fun _ => "" := by
  intro start
  obtain ⟨slots, rows, made⟩ := exists_instantiated wellFormed config template
  obtain ⟨_, _, otherMade⟩ := exists_instantiated otherWellFormed config template
  obtain ⟨graph, sizes, nodes⟩ := instantiate_congr wellFormed size same config
  have live := made.live_of_same wellFormed otherMade.unwritten.toSound graph sizes nodes
  have fixed : ∀ id, start.Fixed (⟨start.graph.fragment, none, slots⟩ :: rows) id →
      (instantiate other config template).document.content id = start.document.content id := by
    intro id known
    obtain ⟨row, member, linked⟩ := made.live.exists_home known
    exact congrArg Node.content (nodes id (made.new_of_parent? wellFormed member linked))
  exact ⟨slots, rows, made.mirrors, made.lettered_of_same made.live rfl fun _ _ => rfl,
    made.lettered_of_same live graph fixed, congrArg PartGraph.bindings graph,
    congrArg (fun graph => graph.parts.map Part.bare) graph, fixed⟩

end Scene

theorem Callback.exists_assigns {state : Json} (plain : state.IsPlain) (callback : Callback Empty)
    (inst : Instance) (world : CommandWorld) :
    ∃ next : Scene, callback.run CommandWorld.noScripts state inst world =
        (.ok (), { inst with graph := next.graph }, { world with document := next.document }) ∧
      Scene.Assigns state (List.range inst.graph.parts.size) ⟨world.document, inst.graph⟩ next := by
  cases callback with
  | keyMatching => exact ⟨_, rfl, Scene.assigns_foldl state _ _⟩
  | markup =>
      obtain ⟨next, run, assigns⟩ := Scene.exists_assigns_markup plain
        (List.range inst.graph.parts.size) ⟨world.document, inst.graph⟩
      refine ⟨next, ?_, assigns⟩
      rw [Callback.run, Scene.assignAllMarkup, run]
  | script own => exact own.elim

namespace Rendering

variable {files : Files} {first second : Rendering}

def InStep (first second : Rendering) : Prop :=
  ∃ (start : Scene) (config : Config) (trees : List (Tree Content)) (slots : List Slot)
    (rows : List Row) (words : Nat → String), Mirrors config rows false trees slots ∧
      Scene.Parallel first.scene second.scene start (⟨start.graph.fragment, none, slots⟩ :: rows) words

inductive Alike : Except CommandError Rendering → Except CommandError Rendering → Prop
  | failed (error : CommandError) : Alike (.error error) (.error error)
  | inStep {first second : Rendering} : first.InStep second → Alike (.ok first) (.ok second)

theorem InStep.frame_eq (inStep : first.InStep second) : second.frame = first.frame := by
  obtain ⟨start, config, trees, slots, rows, words, mirrors, parallel⟩ := inStep
  exact parallel.innerMarkup_eq mirrors

theorem exists_step {path : String} {state : Json} (plain : state.IsPlain)
    (read : readJson files path = .ok state) (rendering : Rendering) :
    ∃ later, rendering.step files path = .ok later ∧
      Scene.Assigns state (List.range rendering.scene.graph.parts.size) rendering.scene later.scene := by
  obtain ⟨next, run, assigns⟩ := Callback.exists_assigns plain
    ((rendering.world.registry rendering.inst.registry).resolve rendering.inst.type?).process
    rendering.inst rendering.world
  refine ⟨⟨{ rendering.inst with graph := next.graph },
    { rendering.world with document := next.document }⟩, ?_, assigns⟩
  rw [step, read]
  simp only [bind, Except.bind, Instance.update, run]

/-- A file without markup keeps two renderings in step, and one that cannot be read stops both. -/
theorem InStep.step (inStep : first.InStep second) {path : String}
    (plain : ∀ state, readJson files path = .ok state → state.IsPlain) :
    Alike (first.step files path) (second.step files path) := by
  cases read : readJson files path with
  | error error =>
      rw [Rendering.step, Rendering.step, read]
      exact .failed error
  | ok state =>
      obtain ⟨later, stepped, assigns⟩ := exists_step (plain state read) read first
      obtain ⟨other, otherStepped, otherAssigns⟩ := exists_step (plain state read) read second
      obtain ⟨start, config, trees, slots, rows, words, mirrors, parallel⟩ := inStep
      -- Both runs go through all parts, which are as many on each side.
      rw [parallel.size_eq] at otherAssigns
      obtain ⟨laterWords, laterParallel⟩ := parallel.assigns assigns otherAssigns
      rw [stepped, otherStepped]
      exact .inStep ⟨start, config, trees, slots, rows, laterWords, mirrors, laterParallel⟩

theorem InStep.frames_eq (inStep : first.InStep second) {paths : List String}
    (plain : ∀ path ∈ paths, ∀ state, readJson files path = .ok state → state.IsPlain) :
    second.frames files paths = first.frames files paths := by
  induction paths generalizing first second with
  | nil => rfl
  | cons path rest ih =>
      obtain ⟨here, later⟩ := List.forall_mem_cons.mp plain
      have alike := inStep.step here
      rw [frames, frames]
      generalize first.step files path = next at alike ⊢
      generalize second.step files path = other at alike ⊢
      cases alike with
      | failed error => rfl
      | inStep nextInStep =>
          simp only [bind, Except.bind]
          rw [ih nextInStep later, nextInStep.frame_eq]

end Rendering

section
variable {files : Files} {options : RenderOptions} {config : Config} {template : NodeId}
  {document : Document} {state : Json}

/-- With values that have no markup, a rendering starts if the template has any parts, and these have
been given the values of the first state. -/
theorem exists_start (configured : readConfig files options.config? = .ok config)
    (read : readTemplate files options.template config = .ok (template, document))
    (stateRead : readState files options.state? = .ok state) (plain : state.IsPlain) :
    ∃ (source : Document) (rendering : Rendering), source.WellFormed ∧ source.size = document.size ∧
      source.forest template = document.forest template ∧
      let start := Scene.instantiate source config template
      Scene.Assigns state (List.range start.graph.parts.size) start rendering.scene ∧
        startRendering files options =
          if start.graph.parts.isEmpty then .error (.noInstance options.template)
          else .ok rendering := by
  obtain ⟨source, typed, wellFormed, size, forest, _⟩ :=
    options.exists_typed (wellFormed_readTemplate read) template (.plain config.typeAttribute)
  let inst : Instance := ⟨source.attribute? template (.plain config.typeAttribute), 0,
    (Scene.instantiate source config template).graph⟩
  have resolved := CommandWorld.resolve_start source inst.type?
  obtain ⟨next, run, assigns⟩ := Callback.exists_assigns plain _ inst
    (CommandWorld.start (Scene.instantiate source config template).document)
  have made : Engine.instantiate CommandWorld.noScripts ⟨config, 0⟩ template state
      (CommandWorld.start source) =
        if (Scene.instantiate source config template).graph.parts.isEmpty then
          (none, CommandWorld.start (Scene.instantiate source config template).document)
        else (some { inst with graph := next.graph }, CommandWorld.start next.document) :=
    Engine.instantiate_of_run CommandWorld.noScripts ⟨config, 0⟩ template resolved run
  refine ⟨source, ⟨{ inst with graph := next.graph }, CommandWorld.start next.document⟩, wellFormed,
    size, forest, assigns, ?_⟩
  simp only [startRendering, configured, read, stateRead, bind, Except.bind]
  -- With or without a given type, the document that instances are made from is `source`.
  cases given : options.type? <;>
  · simp only [given] at typed
    simp only [typed, made]
    cases (Scene.instantiate source config template).graph.parts.isEmpty <;> rfl

theorem alike_of_read (configured : readConfig files options.config? = .ok config)
    (read : readTemplate files options.template config = .ok (template, document))
    (stateRead : readState files options.state? = .ok state) (plain : state.IsPlain)
    (type? : Option String) : Rendering.Alike (startRendering files options)
      (startRendering files { options with type? }) := by
  obtain ⟨source, first, wellFormed, size, forest, assigns, begun⟩ :=
    exists_start configured read stateRead plain
  obtain ⟨other, second, otherWellFormed, otherSize, otherForest, otherAssigns, otherBegun⟩ :=
    @exists_start files { options with type? } _ _ _ _ configured read stateRead plain
  obtain ⟨slots, rows, mirrors, parallel⟩ := Scene.exists_parallel wellFormed otherWellFormed
    (otherSize.trans size.symm) (otherForest.trans forest.symm) config
  have sizes := parallel.size_eq
  have empty : (Scene.instantiate other config template).graph.parts.isEmpty =
      (Scene.instantiate source config template).graph.parts.isEmpty := by
    rw [Bool.eq_iff_iff, Array.isEmpty_iff_size_eq_zero, Array.isEmpty_iff_size_eq_zero, sizes]
  rw [sizes] at otherAssigns
  obtain ⟨words, later⟩ := parallel.assigns assigns otherAssigns
  rw [begun, otherBegun, empty]
  split
  · exact .failed _
  · exact .inStep ⟨_, config, _, slots, rows, words, mirrors, later⟩

theorem startRendering_alike
    (plain : ∀ state, readState files options.state? = .ok state → state.IsPlain)
    (type? : Option String) : Rendering.Alike (startRendering files options)
      (startRendering files { options with type? }) := by
  cases configured : readConfig files options.config? with
  | error error =>
      simp only [startRendering, configured, bind, Except.bind]
      exact .failed error
  | ok config =>
      cases read : readTemplate files options.template config with
      | error error =>
          simp only [startRendering, configured, read, bind, Except.bind]
          exact .failed error
      | ok found =>
          cases stateRead : readState files options.state? with
          | error error =>
              simp only [startRendering, configured, read, stateRead, bind, Except.bind]
              exact .failed error
          | ok state => exact alike_of_read configured read stateRead (plain state stateRead) type?

/-- The type of markup values agrees with key matching, and with any other type: as long as no value
has markup in it, a template is rendered into the same frames under each of them, or fails alike. -/
theorem render_markupType
    (plain : ∀ path ∈ options.state?.toList ++ options.updates, ∀ state,
      readJson files path = .ok state → state.IsPlain) :
    render files { options with type? := some CommandWorld.markupType } = render files options := by
  have first : ∀ state, readState files options.state? = .ok state → state.IsPlain := by
    intro state read
    cases given : options.state? with
    | none =>
        rw [given] at read
        cases read
        rintro member ⟨⟩
    | some path =>
        rw [given] at read
        exact plain path (by simp [given]) state read
  have updates : ∀ path ∈ options.updates, ∀ state,
      readJson files path = .ok state → state.IsPlain :=
    fun path member => plain path (List.mem_append_right _ member)
  rw [render, render]
  have alike := startRendering_alike first (some CommandWorld.markupType)
  generalize startRendering files options = started at alike ⊢
  generalize startRendering files { options with type? := some CommandWorld.markupType } = other
    at alike ⊢
  cases alike with
  | failed error => rfl
  | inStep inStep =>
      simp only [bind, Except.bind]
      rw [inStep.frames_eq updates, inStep.frame_eq]

end

def notedFiles : Files
  | "page" => some ("<template>\x7b\x7bx\x7d\x7d<p class=\"\x7b\x7by\x7d\x7d\">\x7b\x7bx\x7d\x7d, \x7b\x7by\x7d\x7d</p>" ++
      "<template expression=\"x\"></template></template>")
  | "first" => some "\x7b\"x\": \"a>b\", \"y\": \"\"\x7d"
  | "second" => some "\x7b\"y\": [1, true]\x7d"
  | "third" => some "\x7b\"x\": \"\", \"y\": null\x7d"
  | _ => none

theorem render_markupType_noted :
    let options : RenderOptions := ⟨"page", some "first", ["second", "third"], none, none⟩
    (∀ path ∈ options.state?.toList ++ options.updates, ∀ state,
      readJson notedFiles path = .ok state → state.IsPlain) ∧
    render notedFiles { options with type? := some CommandWorld.markupType } =
      render notedFiles options ∧
    render notedFiles options = .ok ["a&gt;b<p class=\"\">a&gt;b, </p>a&gt;b",
      "a&gt;b<p class=\"[1,true]\">a&gt;b, [1,true]</p>a&gt;b", "<p>, </p>"] := by
  intro options
  have plain : ∀ path ∈ options.state?.toList ++ options.updates, ∀ state,
      readJson notedFiles path = .ok state → state.IsPlain := by
    intro path member state read
    have known : ((options.state?.toList ++ options.updates).all fun path =>
        match readJson notedFiles path with
        | .ok state => decide state.IsPlain
        | .error _ => true) = true := by decide +kernel
    have here := List.all_eq_true.mp known path member
    rw [read] at here
    exact of_decide_eq_true here
  exact ⟨plain, render_markupType plain, by decide +kernel⟩

end LiveTemplate
