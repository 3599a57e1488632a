import LiveTemplate.Proofs.Frames
import LiveTemplate.Proofs.Registers
import LiveTemplate.Proofs.TreeOrder

/-! When the commands succeed: exactly if all of their files can be read and the template has a part,
and every frame before any later update is known. -/

namespace LiveTemplate

namespace Tree

variable {α : Type}

mutual

def subtrees : Tree α → List (Tree α)
  | node label children => node label children :: subtreesAll children

def subtreesAll : List (Tree α) → List (Tree α)
  | [] => []
  | tree :: rest => subtrees tree ++ subtreesAll rest

end

theorem subtreesAll_eq_flatMap (trees : List (Tree α)) : subtreesAll trees = trees.flatMap subtrees := by
  induction trees with
  | nil => rfl
  | cons tree rest ih => rw [subtreesAll, ih, List.flatMap_cons]

end Tree

def IsJson (files : Files) (path : String) (value : Json) : Prop :=
  ∃ text, files path = some text ∧ Json.read? text = some value

def IsMarkup (files : Files) (path : String) (trees : List (Tree Content)) : Prop :=
  ∃ text, files path = some text ∧ Markup.read? text.toList = some trees

def IsConfig (files : Files) : Option String → Config → Prop
  | none, config => config = .standard
  | some path, config => ∃ value, IsJson files path value ∧ Config.ofJson? value = some config

namespace Config

def templateIn? (config : Config) (trees : List (Tree Content)) : Option (Tree Content) :=
  (Tree.subtreesAll trees).find? fun tree => tree.label.tag?.any (sameTag config.templateTag)

def contentIn (config : Config) (trees : List (Tree Content)) : List (Tree Content) :=
  match config.templateIn? trees with
  | some template => template.children
  | none => trees

end Config

def RenderOptions.typeIn? (options : RenderOptions) (config : Config) (trees : List (Tree Content)) :
    Option String :=
  options.type?.or ((config.templateIn? trees).bind fun template =>
    Attribute.lookup template.label.attributes (.plain config.typeAttribute))

def RenderOptions.AvoidsMarkup (options : RenderOptions) (files : Files) : Prop :=
  ∀ config trees, IsConfig files options.config? config → IsMarkup files options.template trees →
    options.typeIn? config trees ≠ some CommandWorld.markupType

def HasParts (files : Files) (template : String) (config? : Option String) : Prop :=
  ∃ config trees, IsConfig files config? config ∧ IsMarkup files template trees ∧
    config.listingAll (config.contentIn trees) ≠ []

section
variable {files : Files} {path : String} {value : Json} {config : Config}

theorem readJson_eq_ok : readJson files path = .ok value ↔ IsJson files path value := by
  rw [readJson, Except.bind_eq_ok]
  refine exists_congr fun text => and_congr readText_eq_ok ?_
  cases Json.read? text <;> simp

theorem readConfig_eq_ok {config? : Option String} :
    readConfig files config? = .ok config ↔ IsConfig files config? config := by
  cases config? with
  | none =>
      rw [readConfig, Except.ok.injEq]
      exact eq_comm
  | some path =>
      rw [readConfig, Except.bind_eq_ok]
      refine exists_congr fun value => and_congr readJson_eq_ok ?_
      cases Config.ofJson? value <;> simp

end

namespace Document

variable {document : Document}

namespace WellFormed

theorem label_tree (wellFormed : document.WellFormed) (id : NodeId) :
    (document.tree id).label = document.content id := by
  rw [wellFormed.tree_eq]
  rfl

/-- The nodes below a node and the trees below its tree are in one order. -/
theorem map_tree_listing (wellFormed : document.WellFormed) (id : NodeId) :
    (document.listing id).map document.tree = (document.tree id).subtrees := by
  induction id using wellFormed.downward.induction with
  | _ id ih =>
      rw [wellFormed.listing_eq, wellFormed.tree_eq, Tree.subtrees, Tree.subtreesAll_eq_flatMap,
        List.map_cons, List.map_flatMap, List.flatMap_map, wellFormed.tree_eq]
      exact congrArg _ (List.flatMap_congr ih)

theorem map_tree_descendants (wellFormed : document.WellFormed) (id : NodeId) :
    (document.descendants id).map document.tree = Tree.subtreesAll (document.forest id) := by
  rw [wellFormed.descendants_eq, wellFormed.forest_eq, Tree.subtreesAll_eq_flatMap, List.map_flatMap,
    List.flatMap_map]
  exact List.flatMap_congr fun child _ => wellFormed.map_tree_listing child

theorem templateIn?_forest (wellFormed : document.WellFormed) (fragment : NodeId) (config : Config) :
    config.templateIn? (document.forest fragment) =
      (document.elementsByTag fragment config.templateTag).head?.map document.tree := by
  rw [Config.templateIn?, ← wellFormed.map_tree_descendants, List.find?_map, elementsByTag,
    List.head?_filter]
  refine congrArg _ (congrArg (List.find? · _) (funext fun id => ?_))
  rw [Function.comp_apply, wellFormed.label_tree]

end WellFormed

/-- The template of a fragment has below it what instances are made of, and the attributes of the first
template in it. -/
theorem chooseTemplate_spec {fragment : NodeId} (wellFormed : document.WellFormed)
    (has : document.Has fragment) (isFragment : document.kind fragment = .fragment) (config : Config)
    (name : AttributeName) :
    let chosen := chooseTemplate document config fragment
    let trees := document.forest fragment
    chosen.2.forest chosen.1 = config.contentIn trees ∧
      chosen.2.attribute? chosen.1 name = (config.templateIn? trees).bind fun template =>
        Attribute.lookup template.label.attributes name := by
  have first := wellFormed.templateIn?_forest fragment config
  simp only [Config.contentIn, first, chooseTemplate]
  cases document.elementsByTag fragment config.templateTag with
  | cons template rest =>
      refine ⟨rfl, ?_⟩
      change _ = Attribute.lookup (document.tree template).label.attributes name
      rw [wellFormed.label_tree]
      rfl
  | nil =>
      refine ⟨forest_append_create wellFormed has isFragment config.templateTag, ?_⟩
      have made := node_create document (.element config.templateTag [])
      change Attribute.lookup (Document.content ((document.create _).2.append _ fragment) _).attributes
        name = none
      rw [append, content_insertBefore, content, made]
      rfl

end Document

theorem Config.template?_eq {markup : String} {trees : List (Tree Content)}
    (read : Markup.read? markup.toList = some trees) (config : Config) : ∃ template document,
      config.template? markup = some (template, document) ∧ document.WellFormed ∧
        document.forest template = config.contentIn trees ∧
        config.ownType? markup = (config.templateIn? trees).bind fun found =>
          Attribute.lookup found.label.attributes (.plain config.typeAttribute) := by
  have parsed : Document.new.read? markup = some (Document.new.graft (.node .fragment trees)) := by
    rw [Document.read?, read]
    rfl
  generalize Document.new.graft (.node .fragment trees) = source at parsed
  obtain ⟨fragment, document⟩ := source
  obtain ⟨same, sameRead, wellFormed, has, isFragment, below⟩ := Document.exists_read parsed
  cases read.symm.trans sameRead
  obtain ⟨forest, named⟩ := Document.chooseTemplate_spec wellFormed has isFragment config
    (.plain config.typeAttribute)
  have found : config.template? markup = some (chooseTemplate document config fragment) := by
    rw [Config.template?, parsed]
    rfl
  rw [below] at forest named
  refine ⟨_, _, found, ?_, forest, ?_⟩
  · exact Document.wellFormed_chooseTemplate wellFormed has config
  · rw [Config.ownType?, found]
    exact named

section
variable {files : Files} {path : String} {config : Config} {template : NodeId} {document : Document}

theorem exists_trees (read : readTemplate files path config = .ok (template, document)) :
    ∃ markup trees, files path = some markup ∧ Markup.read? markup.toList = some trees ∧
      config.template? markup = some (template, document) := by
  obtain ⟨markup, text, found⟩ := readTemplate_eq_ok.mp read
  obtain ⟨_, parsed, _⟩ := Option.map_eq_some_iff.mp found
  obtain ⟨trees, parsed, _⟩ := Option.map_eq_some_iff.mp parsed
  exact ⟨markup, trees, text, parsed, found⟩

theorem RenderOptions.typeOf?_eq {markup : String} {trees : List (Tree Content)} (options : RenderOptions)
    (read : Markup.read? markup.toList = some trees) :
    options.typeOf? config markup = options.typeIn? config trees := by
  obtain ⟨_, _, _, _, _, named⟩ := Config.template?_eq read config
  rw [typeOf?, typeIn?, named]

end

namespace Rendering

variable {files : Files} {rendering : Rendering} {path : String} {paths frames : List String}

/-- There is a frame for every update, which does not depend on later ones. -/
theorem frames_take (shown : rendering.frames files paths = .ok frames) :
    frames.length = paths.length ∧
      ∀ count, rendering.frames files (paths.take count) = .ok (frames.take count) := by
  induction paths generalizing rendering frames with
  | nil =>
      cases shown
      refine ⟨rfl, fun count => ?_⟩
      rw [List.take_nil]
      rfl
  | cons path rest ih =>
      obtain ⟨later, stepped, others, following, rfl⟩ := frames_cons_eq_ok.mp shown
      obtain ⟨length, taken⟩ := ih following
      refine ⟨congrArg Nat.succ length, fun count => ?_⟩
      cases count with
      | zero => rfl
      | succ count => exact frames_cons_eq_ok.mpr ⟨later, stepped, _, taken count, rfl⟩

theorem exists_step_iff (matching : rendering.IsMatching) (path : String) :
    (∃ later, rendering.step files path = .ok later) ↔ ∃ value, IsJson files path value := by
  constructor
  · rintro ⟨later, stepped⟩
    obtain ⟨value, read, _⟩ := Except.bind_eq_ok.mp stepped
    exact ⟨value, readJson_eq_ok.mp read⟩
  · rintro ⟨value, json⟩
    rw [Rendering.step, readJson_eq_ok.mpr json]
    simp only [bind, Except.bind]
    rw [Instance.update, matching]
    exact ⟨_, rfl⟩

theorem exists_frames_iff (matching : rendering.IsMatching) (paths : List String) :
    (∃ frames, rendering.frames files paths = .ok frames) ↔
      ∀ path ∈ paths, ∃ value, IsJson files path value := by
  induction paths generalizing rendering with
  | nil => exact iff_of_true ⟨[], rfl⟩ (by simp)
  | cons path rest ih =>
      rw [List.forall_mem_cons, ← exists_step_iff matching]
      constructor
      · rintro ⟨frames, shown⟩
        obtain ⟨later, stepped, others, shown, _⟩ := frames_cons_eq_ok.mp shown
        exact ⟨⟨later, stepped⟩, (ih (exists_assigned matching stepped).1).mp ⟨others, shown⟩⟩
      · rintro ⟨⟨later, stepped⟩, json⟩
        obtain ⟨others, shown⟩ := (ih (exists_assigned matching stepped).1).mpr json
        exact ⟨_, frames_cons_eq_ok.mpr ⟨later, stepped, others, shown, rfl⟩⟩

end Rendering

section
variable {files : Files} {options : RenderOptions} {config : Config} {rendering : Rendering}

theorem exists_state_iff (state? : Option String) : (∃ state, readState files state? = .ok state) ↔
    ∀ path ∈ state?, ∃ value, IsJson files path value := by
  cases state? with
  | none => exact iff_of_true ⟨.null, rfl⟩ (by simp)
  | some path =>
      simp only [Option.mem_def, Option.some.injEq, forall_eq', ← readJson_eq_ok]
      rfl

/-- With a type other than markup, there is no instance exactly of a template without parts. -/
theorem instantiate_typed_eq_none {markup : String} {trees : List (Tree Content)} {template : NodeId}
    {document : Document} (read : Markup.read? markup.toList = some trees)
    (found : config.template? markup = some (template, document))
    (typed : options.typeIn? config trees ≠ some CommandWorld.markupType) (state : Json) :
    (Engine.instantiate CommandWorld.noScripts ⟨config, 0⟩ template state (CommandWorld.start
      (match options.type? with
        | none => document
        | some type => document.setAttribute template (.plain config.typeAttribute) type))).1 = none ↔
      config.listingAll (config.contentIn trees) = [] := by
  obtain ⟨_, _, sameFound, wellFormed, below, _⟩ := Config.template?_eq read config
  cases found.symm.trans sameFound
  rw [← options.typeOf?_eq read] at typed
  obtain ⟨source, same, sourceWellFormed, forest, untyped⟩ :=
    RenderOptions.exists_source wellFormed found typed
  have matching : ((CommandWorld.start source).registry 0).resolve
      (source.attribute? template (.plain config.typeAttribute)) = ⟨.keyMatching, none⟩ := by
    rw [CommandWorld.resolve_start, if_neg untyped]
  refine (iff_of_eq (congrArg (fun source => (Engine.instantiate CommandWorld.noScripts ⟨config, 0⟩ template
    state (CommandWorld.start source)).1 = none) same)).trans ?_
  rw [← below, ← forest]
  exact Engine.instantiate_eq_none CommandWorld.noScripts ⟨config, 0⟩ template state sourceWellFormed
    matching

theorem exists_started_iff (typed : options.AvoidsMarkup files) :
    (∃ rendering, startRendering files options = .ok rendering) ↔
      HasParts files options.template options.config? ∧
        ∀ path ∈ options.state?, ∃ value, IsJson files path value := by
  rw [← exists_state_iff]
  constructor
  · rintro ⟨rendering, started⟩
    obtain ⟨config, configured, template, document, read, state, stateRead, made⟩ :=
      startRendering_eq_ok.mp started
    obtain ⟨markup, trees, text, parsed, found⟩ := exists_trees read
    have isMarkup : IsMarkup files options.template trees := ⟨markup, text, parsed⟩
    have configured := readConfig_eq_ok.mp configured
    refine ⟨⟨config, trees, configured, isMarkup, fun empty => ?_⟩, state, stateRead⟩
    have nothing := (instantiate_typed_eq_none parsed found (typed config trees configured isMarkup)
      state).mpr empty
    cases (congrArg Prod.fst made).symm.trans nothing
  · rintro ⟨⟨config, trees, configured, ⟨markup, text, parsed⟩, parts⟩, state, stateRead⟩
    obtain ⟨template, document, found, _⟩ := Config.template?_eq parsed config
    have listing := instantiate_typed_eq_none parsed found
      (typed config trees configured ⟨markup, text, parsed⟩) state
    obtain ⟨inst, made⟩ := Option.ne_none_iff_exists'.mp (mt listing.mp parts)
    exact ⟨⟨inst, _⟩, startRendering_eq_ok.mpr ⟨config, readConfig_eq_ok.mpr configured, template,
      document, readTemplate_eq_ok.mpr ⟨markup, text, found⟩, state, stateRead, Prod.ext made rfl⟩⟩

theorem isMatching_of_started (typed : options.AvoidsMarkup files)
    (started : startRendering files options = .ok rendering) : rendering.IsMatching := by
  obtain ⟨config, configured, template, document, read, _⟩ := startRendering_eq_ok.mp started
  obtain ⟨markup, trees, text, parsed, found⟩ := exists_trees read
  have other := typed config trees (readConfig_eq_ok.mp configured) ⟨markup, text, parsed⟩
  rw [← options.typeOf?_eq parsed] at other
  exact (exists_started configured (readText_eq_ok.mpr text) other started).1

theorem exists_listParts_iff (files : Files) (options : ListingOptions) :
    (∃ lines, listParts files options = .ok lines) ↔ HasParts files options.template options.config? := by
  rw [listParts_eq]
  simp only [Except.bind_eq_ok]
  constructor
  · rintro ⟨lines, config, configured, ⟨template, document⟩, read, listed⟩
    obtain ⟨markup, trees, text, parsed, found⟩ := exists_trees read
    obtain ⟨_, _, sameFound, _, below, _⟩ := Config.template?_eq parsed config
    cases found.symm.trans sameFound
    refine ⟨config, trees, readConfig_eq_ok.mp configured, ⟨markup, text, parsed⟩, fun empty => ?_⟩
    dsimp only at listed
    rw [below, empty] at listed
    cases listed
  · rintro ⟨config, trees, configured, ⟨markup, text, parsed⟩, parts⟩
    obtain ⟨template, document, found, _, below, _⟩ := Config.template?_eq parsed config
    obtain ⟨part, rest, listing⟩ := List.exists_cons_of_ne_nil parts
    refine ⟨(part :: rest).mapIdx listedLine, config, readConfig_eq_ok.mpr configured,
      ⟨template, document⟩, readTemplate_eq_ok.mpr ⟨markup, text, found⟩, ?_⟩
    dsimp only
    rw [below, listing]

end

/-- Renderings with another type than markup succeed exactly if the configuration is valid, the template
is markup, all states are JSON, and the template that is chosen has parts, which it does exactly if
listing its parts succeeds. With any type, there is a frame for the first state and one for every update,
and later updates do not change the frames before them. -/
theorem render_succeeds (files : Files) (options : RenderOptions) :
    (options.AvoidsMarkup files →
      ((∃ frames, render files options = .ok frames) ↔
        HasParts files options.template options.config? ∧
        (∀ path ∈ options.state?, ∃ value, IsJson files path value) ∧
        ∀ path ∈ options.updates, ∃ value, IsJson files path value)) ∧
    ((∃ lines, listParts files ⟨options.template, options.config?⟩ = .ok lines) ↔
      HasParts files options.template options.config?) ∧
    ∀ frames, render files options = .ok frames → frames.length = options.updates.length + 1 ∧
      ∀ count, render files { options with updates := options.updates.take count } =
        .ok (frames.take (count + 1)) := by
  refine ⟨fun typed => ?_, exists_listParts_iff files _, fun frames rendered => ?_⟩
  · rw [← and_assoc, ← exists_started_iff typed]
    constructor
    · rintro ⟨frames, rendered⟩
      obtain ⟨rendering, started, others, shown, _⟩ := render_eq_ok.mp rendered
      exact ⟨⟨rendering, started⟩,
        (Rendering.exists_frames_iff (isMatching_of_started typed started) _).mp ⟨others, shown⟩⟩
    · rintro ⟨⟨rendering, started⟩, json⟩
      obtain ⟨others, shown⟩ :=
        (Rendering.exists_frames_iff (isMatching_of_started typed started) _).mpr json
      exact ⟨_, render_eq_ok.mpr ⟨rendering, started, others, shown, rfl⟩⟩
  · obtain ⟨rendering, started, others, shown, rfl⟩ := render_eq_ok.mp rendered
    obtain ⟨length, taken⟩ := Rendering.frames_take shown
    exact ⟨congrArg Nat.succ length, fun count => render_eq_ok.mpr ⟨rendering, started, _, taken count, rfl⟩⟩

def taggedFiles : Files
  | "page" => some ("<p>a</p><X-T type=\"markup\">\x7b\x7bx\x7d\x7d" ++
      "<x-t expression=\"y\">b</x-t></X-T>\x7b\x7bz\x7d\x7d")
  | "tags" => some "\x7b\"template_tag\": \"x-t\"\x7d"
  | "first" => some "\x7b\"x\": \"<i>\"\x7d"
  | "second" => some "\x7b\"y\": 2\x7d"
  | "third" => some "[]"
  | _ => none

theorem render_succeeds_tagged :
    let options : RenderOptions := ⟨"page", some "first", ["second", "third"], some "tags", some "other"⟩
    options.AvoidsMarkup taggedFiles ∧
    listParts taggedFiles ⟨"page", some "tags"⟩ = .ok ["0\tnode\tx", "1\tinner\ty"] ∧
    HasParts taggedFiles options.template options.config? ∧
    render taggedFiles options = .ok ["&lt;i&gt;", "&lt;i&gt;2", "&lt;i&gt;2"] ∧
    render taggedFiles { options with updates := ["second"] } = .ok ["&lt;i&gt;", "&lt;i&gt;2"] ∧
    ¬ ∃ frames, render taggedFiles { options with updates := ["second", "fourth"] } = .ok frames := by
  intro options
  have typed : options.AvoidsMarkup taggedFiles := by
    intro config trees _ _
    change some "other" ≠ some "markup"
    decide
  have listed : listParts taggedFiles ⟨"page", some "tags"⟩ = .ok ["0\tnode\tx", "1\tinner\ty"] := by
    decide +kernel
  have rendered : render taggedFiles options = .ok ["&lt;i&gt;", "&lt;i&gt;2", "&lt;i&gt;2"] := by
    decide +kernel
  obtain ⟨_, parts, taken⟩ := render_succeeds taggedFiles options
  refine ⟨typed, listed, parts.mp ⟨_, listed⟩, rendered, (taken _ rendered).2 1, fun succeeded => ?_⟩
  have json := ((render_succeeds taggedFiles
    { options with updates := ["second", "fourth"] }).1 typed).mp succeeded
  obtain ⟨_, text, known, _⟩ := json.2.2 "fourth" (by simp)
  cases known

end LiveTemplate
