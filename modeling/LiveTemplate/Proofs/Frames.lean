import LiveTemplate.Command.Render
import LiveTemplate.Proofs.Discovery
import LiveTemplate.Proofs.Mounting
import LiveTemplate.Proofs.Skeletons
import LiveTemplate.Proofs.Spelling

/-! The markup that the command shows: all of it can be read, and its skeleton is settled by the
template before any state is known. -/

namespace LiveTemplate

mutual

theorem Markup.nests_of_expressible : ∀ tree : Tree Content, Markup.Expressible tree →
    tree.Nests fun content => content.kind ≠ .text
  | .node content children, expressible => by
      rw [Markup.Expressible] at expressible
      refine ⟨fun below isText => ?_, nestsAll_of_expressible children expressible.2.2⟩
      cases content with
      | text data => exact below (expressible.2.1 rfl)
      | _ => cases isText

theorem Markup.nestsAll_of_expressible : ∀ trees : List (Tree Content), Markup.ExpressibleAll trees →
    Tree.NestsAll (fun content => content.kind ≠ .text) trees
  | [], _ => trivial
  | tree :: rest, expressible => by
      rw [ExpressibleAll] at expressible
      exact ⟨nests_of_expressible tree expressible.1, nestsAll_of_expressible rest expressible.2⟩

end

namespace Document

variable {document : Document}

theorem WellFormed.expressibleAll_of_isAbove (wellFormed : document.WellFormed) {root id : NodeId}
    (above : document.IsAbove root id) (expressible : Markup.ExpressibleAll (document.forest root)) :
    Markup.ExpressibleAll (document.forest id) := by
  refine wellFormed.forest_of_isAbove Markup.ExpressibleAll ?_ above expressible
  rintro trees all ⟨content, children⟩ member
  exact ((Markup.expressibleAll_iff trees).mp all _ member).2.2

theorem WellFormed.forest_setAttribute (wellFormed : document.WellFormed) (id : NodeId)
    (name : AttributeName) (value : String) :
    (document.setAttribute id name value).forest id = document.forest id := by
  have changed := wellFormed_setAttribute wellFormed id name value
  rw [changed.forest_eq, wellFormed.forest_eq, setAttribute, children_setContent]
  refine List.map_congr_left fun child member => wellFormed.tree_congr changed fun other below => ?_
  have differ : other ≠ id := by
    rintro rfl
    exact wellFormed.not_isAbove_of_child member below
  exact ⟨content_setContent_of_ne _ differ _, children_setContent _ _ _ _⟩

theorem attribute?_setAttribute (document : Document) (id : NodeId) (name : AttributeName)
    (value : String) : (document.setAttribute id name value).attribute? id name = none ∨
      (document.setAttribute id name value).attribute? id name = some value := by
  have looked (entries : List Attribute) : Attribute.lookup (Attribute.assign name value entries) name =
      some value := by
    change (Attribute.named? (Attribute.assign name value entries) name).map (·.value) = _
    rw [Attribute.named?_assign, if_pos (AttributeName.agrees_refl name)]
    rfl
  rw [attribute?, setAttribute]
  by_cases has : document.Has id
  · rw [content_setContent has, if_pos rfl]
    cases document.content id with
    | element tag entries => exact Or.inr (looked entries)
    | _ => exact Or.inl rfl
  · rw [setContent, modify_of_not_has has, content, node_of_not_has has]
    exact Or.inl rfl

/-- When all of a fragment moves into a new element, this has below it what the fragment had. -/
theorem forest_append_create {fragment : NodeId} (wellFormed : document.WellFormed)
    (has : document.Has fragment) (isFragment : document.kind fragment = .fragment) (tag : String) :
    let made := document.create (.element tag [])
    (made.2.append made.1 fragment).forest made.1 = document.forest fragment := by
  have grown : (document.create (.element tag [])).2.WellFormed := wellFormed_create wellFormed rfl
  have extended := extends_create document (.element tag [])
  have wrapped := Scene.has_create document (.element tag [])
  have childless := node_create document (.element tag [])
  have fresh : fragment ≠ (document.create (.element tag [])).1 := by
    rintro rfl
    exact Nat.lt_irrefl _ has
  have kept (id : NodeId) (old : document.Has id) :
      (document.create (.element tag [])).2.tree id = document.tree id := by
    refine wellFormed.tree_congr grown fun other below => ?_
    have otherHas : document.Has other := by
      rcases Relation.ReflTransGen.cases_tail below with rfl | ⟨upper, _, linked⟩
      · exact old
      · exact has_of_parent? linked
    exact ⟨extended.content_eq otherHas, extended.children_eq otherHas⟩
  dsimp only
  generalize document.create (.element tag []) = made at *
  obtain ⟨wrapper, free⟩ := made
  dsimp only at *
  have outside : ¬ free.IsAbove fragment wrapper := by
    intro above
    rcases Relation.ReflTransGen.cases_tail above with same | ⟨upper, _, linked⟩
    · exact fresh same.symm
    · have linked : free.parent? wrapper = some upper := linked
      rw [Document.parent?, childless] at linked
      cases linked
  have nowhere (reference : NodeId) (given : (none : Option NodeId) = some reference) :
      reference ∈ free.children wrapper := by cases given
  obtain ⟨lead, trail, around, _, mounted⟩ := exists_mounted grown
    ((extended.kind_eq has).trans isFragment) (extended.has has) wrapped outside nowhere
  have alone : lead = [] ∧ trail = [] := by
    rw [Document.children, childless] at around
    exact List.append_eq_nil_iff.mp around.symm
  have moved := wellFormed_insertBefore grown wrapped (extended.has has) none
  rw [append, moved.forest_eq, mounted.shown, alone.1, alone.2, List.nil_append, List.append_nil,
    extended.children_eq has, wellFormed.forest_eq]
  refine List.map_congr_left fun child member => ?_
  rw [mounted.tree_eq grown moved ((extended.kind_eq has).trans isFragment)
    (by rwa [extended.children_eq has]), kept child (wellFormed.has_child member)]

theorem expressibleAll_chooseTemplate {fragment : NodeId} (wellFormed : document.WellFormed)
    (has : document.Has fragment) (isFragment : document.kind fragment = .fragment)
    (expressible : Markup.ExpressibleAll (document.forest fragment)) (config : Config) :
    Markup.ExpressibleAll ((chooseTemplate document config fragment).2.forest
      (chooseTemplate document config fragment).1) := by
  rw [chooseTemplate]
  split
  · rename_i template rest found
    have member : template ∈ document.elementsByTag fragment config.templateTag := by
      rw [found]
      exact List.mem_cons_self ..
    have inside := List.mem_of_mem_tail (List.mem_filter.mp member).1
    exact wellFormed.expressibleAll_of_isAbove (wellFormed.isAbove_of_mem_layoutUpTo inside) expressible
  · have wrapped := forest_append_create wellFormed has isFragment config.templateTag
    dsimp only at wrapped ⊢
    rwa [wrapped]

end Document

namespace Scene

variable {document : Document} {config : Config} {template : NodeId} {start : Scene}
  {slots : List Slot} {rows : List Row}

/-- An instance is always written as markup that can be read, with the skeleton of its template. -/
theorem Instantiated.reads_frame (made : Instantiated document config template start slots rows)
    (expressible : Markup.ExpressibleAll (document.forest template)) (states : List Json) :
    let last := states.foldl Scene.assignAll start
    ∃ trees, Markup.read? (last.document.innerMarkup last.graph.fragment).toList = some trees ∧
      Tree.skeletonAll trees =
        Tree.skeletonAll (config.fillAll (fun _ => none) false (document.forest template)) := by
  intro last
  have nests := Markup.nestsAll_of_expressible _ expressible
  have valued : last.Valued start _ _ := Valued.foldl_assignAll made.valued (made.tall nests) states
  have looks := made.looks_eq nests states
  dsimp only at looks
  change Tree.looks (last.document.forest last.graph.fragment) = _ at looks
  have filled := Markup.expressibleAll_fillAll config (Json.last? states) false _ expressible
  have shown := Tree.expressibleAll_looks _ filled
  rw [← looks] at shown
  have names : ∀ content ∈ Tree.preorderForest (last.document.forest last.graph.fragment),
      Attribute.Distinct content.attributes := by
    have plantable : Document.Plantable (.node .fragment (last.document.forest last.graph.fragment)) :=
      valued.wellFormed.plantable_forest List.Pairwise.nil _
    exact fun content member => plantable.names content (List.mem_cons_of_mem _ member)
  rw [Document.innerMarkup, String.toList_ofList]
  generalize last.document.forest last.graph.fragment = trees at looks shown names
  have joined := Tree.expressible_of_looks trees names shown
  refine ⟨Markup.joinedAll (Markup.joinedAll trees), ?_, ?_⟩
  · rw [← Markup.writeAll_joinedAll]
    exact Markup.read?_writeAll joined
  · rw [Markup.skeletonAll_joinedAll, Markup.skeletonAll_joinedAll, ← Tree.skeletonAll_looks, looks,
      Tree.skeletonAll_looks]
    exact Config.skeletonAll_fillAll ..

end Scene

def Config.template? (config : Config) (markup : String) : Option (NodeId × Document) :=
  (Document.new.read? markup).map fun (fragment, document) => chooseTemplate document config fragment

def Config.ownType? (config : Config) (markup : String) : Option String :=
  (config.template? markup).bind fun (template, document) =>
    document.attribute? template (.plain config.typeAttribute)

theorem readText_eq_ok {files : Files} {path markup : String} :
    readText files path = .ok markup ↔ files path = some markup := by
  rw [readText]
  cases files path <;> simp

theorem readTemplate_eq_ok {files : Files} {path : String} {config : Config} {template : NodeId}
    {document : Document} : readTemplate files path config = .ok (template, document) ↔
      ∃ markup, files path = some markup ∧ config.template? markup = some (template, document) := by
  rw [readTemplate, Except.bind_eq_ok]
  refine exists_congr fun markup => and_congr readText_eq_ok ?_
  rw [Config.template?]
  cases Document.new.read? markup <;> simp

theorem Config.expressibleAll_template {config : Config} {markup : String} {template : NodeId}
    {document : Document} (found : config.template? markup = some (template, document)) :
    Markup.ExpressibleAll (document.forest template) := by
  obtain ⟨⟨fragment, source⟩, read, chosen⟩ := Option.map_eq_some_iff.mp found
  obtain ⟨trees, treesRead, wellFormed, has, isFragment, below⟩ := Document.exists_read read
  have expressible : Markup.ExpressibleAll (source.forest fragment) :=
    below ▸ Markup.expressibleAll_read treesRead
  have shown := Document.expressibleAll_chooseTemplate wellFormed has isFragment expressible config
  change chooseTemplate source config fragment = _ at chosen
  rwa [chosen] at shown

def RenderOptions.typeOf? (options : RenderOptions) (config : Config) (markup : String) : Option String :=
  options.type?.or (config.ownType? markup)

namespace Rendering

variable {files : Files} {rendering later : Rendering} {path : String} {paths frames : List String}

def scene (rendering : Rendering) : Scene :=
  ⟨rendering.world.document, rendering.inst.graph⟩

def IsMatching (rendering : Rendering) : Prop :=
  ((rendering.world.registry rendering.inst.registry).resolve rendering.inst.type?).process = .keyMatching

theorem frames_cons_eq_ok : rendering.frames files (path :: paths) = .ok frames ↔
    ∃ later, rendering.step files path = .ok later ∧
      ∃ others, later.frames files paths = .ok others ∧ later.frame :: others = frames := by
  rw [Rendering.frames, Except.bind_eq_ok]
  refine exists_congr fun later => and_congr_right fun _ => ?_
  simp only [Except.bind_eq_ok, pure, Except.pure, Except.ok.injEq]

theorem exists_assigned (matching : rendering.IsMatching) (stepped : rendering.step files path = .ok later) :
    later.IsMatching ∧ ∃ state, later.scene = rendering.scene.assignAll state := by
  obtain ⟨state, _, updated⟩ := Except.bind_eq_ok.mp stepped
  rw [Instance.update, matching] at updated
  cases updated
  exact ⟨matching, state, rfl⟩

theorem exists_states (matching : rendering.IsMatching)
    (shown : rendering.frames files paths = .ok frames) : ∀ frame ∈ frames, ∃ states : List Json,
      let last := states.foldl Scene.assignAll rendering.scene
      frame = last.document.innerMarkup last.graph.fragment := by
  induction paths generalizing rendering frames with
  | nil =>
      cases shown
      simp
  | cons path rest ih =>
      obtain ⟨later, stepped, others, following, rfl⟩ := frames_cons_eq_ok.mp shown
      obtain ⟨laterMatching, state, assigned⟩ := exists_assigned matching stepped
      refine List.forall_mem_cons.mpr ⟨⟨[state], ?_⟩, fun frame member => ?_⟩
      · rw [List.foldl_cons, List.foldl_nil, ← assigned]
        rfl
      · obtain ⟨states, same⟩ := ih laterMatching following frame member
        exact ⟨state :: states, by rw [same, assigned]; rfl⟩

end Rendering

theorem Engine.scene_of_instantiate {Script State : Type} {interpret : Interpreter Script State}
    {world made : World Script State} {engine : Engine} {template : NodeId} {state : Json}
    {inst : Instance} (matching : (world.registry engine.registry).resolve
      (world.document.attribute? template (.plain engine.config.typeAttribute)) =
        ⟨.keyMatching, none⟩)
    (instantiated : engine.instantiate interpret template state world = (some inst, made)) :
    Scene.mk made.document inst.graph =
        (Scene.instantiate world.document engine.config template).assignAll state ∧
      ((made.registry inst.registry).resolve inst.type?).process = .keyMatching := by
  have same := engine.instantiate_eq interpret template matching state
  dsimp only at same
  rw [instantiated] at same
  generalize Scene.instantiate world.document engine.config template = start at same ⊢
  generalize start.assignAll state = scene at same ⊢
  split at same
  · cases same
  · cases same
    exact ⟨rfl, congrArg TemplateType.process matching⟩

section
variable {files : Files} {options : RenderOptions} {config : Config} {markup : String}
  {rendering : Rendering} {frames : List String}

theorem startRendering_eq_ok : startRendering files options = .ok rendering ↔
    ∃ config, readConfig files options.config? = .ok config ∧ ∃ template document,
      readTemplate files options.template config = .ok (template, document) ∧ ∃ state,
        readState files options.state? = .ok state ∧
          Engine.instantiate CommandWorld.noScripts ⟨config, 0⟩ template state (CommandWorld.start
            (match options.type? with
              | none => document
              | some type => document.setAttribute template (.plain config.typeAttribute) type)) =
            (some rendering.inst, rendering.world) := by
  rw [startRendering, Except.bind_eq_ok]
  refine exists_congr fun config => and_congr_right fun _ => ?_
  rw [Except.bind_eq_ok, Prod.exists]
  refine exists_congr fun template => exists_congr fun document => and_congr_right fun _ => ?_
  cases options.type? <;>
  · dsimp only
    rw [Except.bind_eq_ok]
    refine exists_congr fun state => and_congr_right fun _ => ?_
    split
    · rename_i made
      simp [made]
    · rename_i inst world made
      rw [made, Except.ok.injEq, Prod.mk.injEq, Option.some.injEq]
      exact ⟨fun same => same ▸ ⟨rfl, rfl⟩, fun ⟨sameInst, sameWorld⟩ => by rw [sameInst, sameWorld]⟩

theorem render_eq_ok {frames : List String} : render files options = .ok frames ↔
    ∃ rendering, startRendering files options = .ok rendering ∧
      ∃ others, rendering.frames files options.updates = .ok others ∧ rendering.frame :: others = frames := by
  rw [render]
  simp only [Except.bind_eq_ok, pure, Except.pure, Except.ok.injEq]

/-- A type that is asked for is the template's type from then on, unless this is no element, and
nothing changes below the template. -/
theorem RenderOptions.exists_typed (options : RenderOptions) {document : Document}
    (wellFormed : document.WellFormed) (template : NodeId) (name : AttributeName) :
    ∃ source, (match options.type? with
        | none => document
        | some type => document.setAttribute template name type) = source ∧
      source.WellFormed ∧ source.size = document.size ∧
      source.forest template = document.forest template ∧
      (source.attribute? template name = none ∨
        source.attribute? template name = options.type?.or (document.attribute? template name)) := by
  cases options.type? with
  | none => exact ⟨document, rfl, wellFormed, rfl, rfl, Or.inr rfl⟩
  | some type =>
      exact ⟨_, rfl, Document.wellFormed_setAttribute wellFormed _ _ _,
        Document.size_setContent _ _ _, wellFormed.forest_setAttribute _ _ _,
        document.attribute?_setAttribute _ _ _⟩

theorem RenderOptions.exists_source {template : NodeId} {document : Document}
    (wellFormed : document.WellFormed) (found : config.template? markup = some (template, document))
    (typed : options.typeOf? config markup ≠ some CommandWorld.markupType) :
    ∃ source, (match options.type? with
        | none => document
        | some type => document.setAttribute template (.plain config.typeAttribute) type) = source ∧
      source.WellFormed ∧ source.forest template = document.forest template ∧
      source.attribute? template (.plain config.typeAttribute) ≠ some CommandWorld.markupType := by
  rw [typeOf?, Config.ownType?, found, Option.bind_some] at typed
  obtain ⟨source, same, sourceWellFormed, _, forest, now⟩ :=
    options.exists_typed wellFormed template (.plain config.typeAttribute)
  refine ⟨source, same, sourceWellFormed, forest, ?_⟩
  rcases now with none | given
  · rw [none]
    rintro ⟨⟩
  · rw [given]
    exact typed

theorem exists_started (configured : readConfig files options.config? = .ok config)
    (text : readText files options.template = .ok markup)
    (typed : options.typeOf? config markup ≠ some CommandWorld.markupType)
    (started : startRendering files options = .ok rendering) :
    rendering.IsMatching ∧ ∃ template document, config.template? markup = some (template, document) ∧
      ∃ source start slots rows state, Scene.Instantiated source config template start slots rows ∧
        source.forest template = document.forest template ∧
        rendering.scene = start.assignAll state := by
  obtain ⟨_, sameConfigured, template, document, read, state, _, instantiated⟩ :=
    startRendering_eq_ok.mp started
  cases configured.symm.trans sameConfigured
  obtain ⟨_, known, found⟩ := readTemplate_eq_ok.mp read
  cases (readText_eq_ok.mp text).symm.trans known
  obtain ⟨source, same, wellFormed, forest, other⟩ :=
    RenderOptions.exists_source (wellFormed_readTemplate read) found typed
  have matching : ((CommandWorld.start source).registry 0).resolve
      (source.attribute? template (.plain config.typeAttribute)) = ⟨.keyMatching, none⟩ := by
    rw [CommandWorld.resolve_start, if_neg other]
  have instantiated := (congrArg (fun document => Engine.instantiate CommandWorld.noScripts
    ⟨config, 0⟩ template state (CommandWorld.start document)) same).symm.trans instantiated
  obtain ⟨scene, matchingNow⟩ :=
    @Engine.scene_of_instantiate _ _ _ _ _ ⟨config, 0⟩ _ _ _ matching instantiated
  obtain ⟨slots, rows, made⟩ := Scene.exists_instantiated wellFormed config template
  exact ⟨matchingNow, template, document, found, source, _, slots, rows, state, made, forest, scene⟩

/-- All frames of a rendering with key matching have one skeleton, which the template settles. -/
theorem render_frames (configured : readConfig files options.config? = .ok config)
    (text : readText files options.template = .ok markup)
    (typed : options.typeOf? config markup ≠ some CommandWorld.markupType)
    (rendered : render files options = .ok frames) : ∃ template document,
      config.template? markup = some (template, document) ∧ ∀ frame ∈ frames, ∃ trees,
        Markup.read? frame.toList = some trees ∧ Tree.skeletonAll trees =
          Tree.skeletonAll (config.fillAll (fun _ => none) false (document.forest template)) := by
  obtain ⟨rendering, started, others, later, rfl⟩ := render_eq_ok.mp rendered
  obtain ⟨matching, template, document, found, source, start, slots, rows, state, made, forest, scene⟩ :=
    exists_started configured text typed started
  have expressible := Config.expressibleAll_template found
  rw [← forest] at expressible
  have shown (states : List Json) := made.reads_frame expressible (state :: states)
  simp only [List.foldl_cons, ← scene, forest] at shown
  refine ⟨template, document, found, List.forall_mem_cons.mpr ⟨shown [], fun frame member => ?_⟩⟩
  obtain ⟨states, same⟩ := Rendering.exists_states matching later frame member
  rw [same]
  exact shown states

end

/-- State cannot inject structure. Any two renderings of one template, under one configuration and with
types other than markup, have the same skeleton in all their frames, and every frame can be read
into any document. -/
theorem render_skeletons {files others : Files} {options otherOptions : RenderOptions} {config : Config}
    {markup : String} {frames otherFrames : List String}
    (configured : readConfig files options.config? = .ok config)
    (otherConfigured : readConfig others otherOptions.config? = .ok config)
    (text : readText files options.template = .ok markup)
    (otherText : readText others otherOptions.template = .ok markup)
    (typed : options.typeOf? config markup ≠ some CommandWorld.markupType)
    (otherTyped : otherOptions.typeOf? config markup ≠ some CommandWorld.markupType)
    (rendered : render files options = .ok frames)
    (otherRendered : render others otherOptions = .ok otherFrames) :
    ∃ skeleton, ∀ frame ∈ frames ++ otherFrames, ∀ document : Document, document.WellFormed →
      ∃ fragment result, document.read? frame = some (fragment, result) ∧
        Tree.skeletonAll (result.forest fragment) = skeleton := by
  obtain ⟨template, source, found, shown⟩ := render_frames configured text typed rendered
  obtain ⟨_, _, otherFound, otherShown⟩ :=
    render_frames otherConfigured otherText otherTyped otherRendered
  cases found.symm.trans otherFound
  refine ⟨Tree.skeletonAll (config.fillAll (fun _ => none) false (source.forest template)), ?_⟩
  intro frame member document wellFormed
  have readable := (List.mem_append.mp member).elim (shown frame) (otherShown frame)
  obtain ⟨trees, read, skeleton⟩ := readable
  have planted := Document.tree_graft wellFormed (Markup.plantable_read read)
  refine ⟨(document.graft (.node .fragment trees)).1, (document.graft (.node .fragment trees)).2, ?_, ?_⟩
  · rw [Document.read?, read]
    rfl
  · rw [Document.forest, planted]
    exact skeleton

def titledFiles : Files
  | "page" =>
    some "<template><!--top--><p title=\"\x7b\x7by\x7d\x7d\">\x7b\x7bx\x7d\x7d</p></template>"
  | "plain" => some "\x7b\"x\": \"a\", \"y\": \"b\"\x7d"
  | "wild" => some "\x7b\"x\": \"<b>-->\", \"y\": \"\\\"><i>\"\x7d"
  | _ => none

theorem render_skeletons_titled :
    let plain : RenderOptions := ⟨"page", some "plain", [], none, none⟩
    let wild : RenderOptions := ⟨"page", some "wild", ["plain"], none, some "other"⟩
    render titledFiles plain = .ok ["<!--top--><p title=\"b\">a</p>"] ∧
    render titledFiles wild =
      .ok ["<!--top--><p title=\"&quot;&gt;&lt;i&gt;\">&lt;b&gt;--&gt;</p>",
        "<!--top--><p title=\"b\">a</p>"] ∧
    ∃ skeleton, ∀ frame ∈ ["<!--top--><p title=\"b\">a</p>",
        "<!--top--><p title=\"&quot;&gt;&lt;i&gt;\">&lt;b&gt;--&gt;</p>",
        "<!--top--><p title=\"b\">a</p>"],
      ∀ document : Document, document.WellFormed →
        ∃ fragment result, document.read? frame = some (fragment, result) ∧
          Tree.skeletonAll (result.forest fragment) = skeleton := by
  intro plain wild
  have rendered : render titledFiles plain = .ok ["<!--top--><p title=\"b\">a</p>"] := by
    decide +kernel
  have wildRendered : render titledFiles wild =
      .ok ["<!--top--><p title=\"&quot;&gt;&lt;i&gt;\">&lt;b&gt;--&gt;</p>",
        "<!--top--><p title=\"b\">a</p>"] := by
    decide +kernel
  exact ⟨rendered, wildRendered, render_skeletons rfl rfl rfl rfl (by decide +kernel) (by decide +kernel)
    rendered wildRendered⟩

end LiveTemplate
