import LiveTemplate.Proofs.Neighbours

/-! Instances that engines made in one document, each with a record of what was done to it. -/

namespace LiveTemplate

namespace Document

variable {document start result : Document} {board id : NodeId}

def added (later document : Document) : List NodeId :=
  (List.range' document.size (later.size - document.size)).map NodeId.mk

theorem mem_added (later document : Document) (id : NodeId) :
    id ∈ later.added document ↔ ¬ document.Has id ∧ later.Has id := by
  rw [added, List.mem_map, Has, Has]
  constructor
  · rintro ⟨index, member, rfl⟩
    rw [List.mem_range'_1] at member
    dsimp only
    omega
  · rintro ⟨above, has⟩
    exact ⟨id.index, List.mem_range'_1.mpr (by omega), rfl⟩

structure Intact (document start : Document) (board : NodeId) : Prop where
  kinds : document.KeepsKinds start
  content : ∀ id, start.Has id → document.content id = start.content id
  parent? : ∀ id, start.Has id → document.parent? id = start.parent? id
  children : ∀ id, start.Has id → id ≠ board → document.children id = start.children id
  kept : (document.children board).filter (fun id => decide (id.index < start.size)) =
    start.children board

namespace Intact

theorem refl (wellFormed : document.WellFormed) (board : NodeId) : document.Intact document board where
  kinds := .refl _
  content := fun _ _ => rfl
  parent? := fun _ _ => rfl
  children := fun _ _ _ => rfl
  kept := List.filter_eq_self.mpr fun _ member => decide_eq_true (wellFormed.has_child member)

theorem of_tended (intact : document.Intact start board) (bound : start.Has board)
    {own later : NodeId → Prop} {host : NodeId} (tended : result.Tended document own later host)
    (fresh : ∀ id, own id → ¬ start.Has id) (known : host = board ∨ ¬ start.Has host) :
    result.Intact start board where
  kinds := tended.kinds.trans intact.kinds
  content := fun id has => (tended.content id (intact.kinds.has has) fun own => fresh id own has).trans
    (intact.content id has)
  parent? := fun id has => (tended.parent? id (intact.kinds.has has) fun own => fresh id own has).trans
    (intact.parent? id has)
  children := by
    intro id has differ
    rw [tended.children id (intact.kinds.has has) fun own => fresh id own has]
    · exact intact.children id has differ
    · rintro rfl
      exact known.elim differ (· has)
  kept := by
    rw [← intact.kept]
    rcases known with rfl | outside
    · refine tended.kept _ fun id made => decide_eq_false fun has => ?_
      exact fresh id (tended.own_of_owned (intact.kinds.has has) made) has
    · rw [tended.children board (intact.kinds.has bound) fun own => fresh board own bound]
      rintro rfl
      exact outside bound

theorem has_of_isAbove (intact : document.Intact start board) (wellFormed : start.WellFormed)
    {other : NodeId} (above : document.IsAbove other id) (has : start.Has id) : start.Has other := by
  induction above using Relation.ReflTransGen.head_induction_on with
  | refl => exact has
  | head linked _ ih =>
      have linked := (intact.parent? _ ih).symm.trans linked
      exact wellFormed.has_parent linked

theorem tree_eq (intact : document.Intact start board) (wellFormed : start.WellFormed)
    (documentWellFormed : document.WellFormed) (has : start.Has id)
    (outside : ¬ start.IsAbove id board) : document.tree id = start.tree id := by
  refine wellFormed.tree_congr documentWellFormed fun other below => ?_
  have otherHas : start.Has other := by
    rcases Relation.ReflTransGen.cases_tail below with rfl | ⟨_, _, linked⟩
    · exact has
    · exact has_of_parent? linked
  refine ⟨intact.content other otherHas, intact.children other otherHas ?_⟩
  rintro rfl
  exact outside below

/-- A template of the earlier document gives the instance that it gave there. -/
theorem exists_hosted (intact : document.Intact start board) (wellFormed : start.WellFormed)
    (documentWellFormed : document.WellFormed) (has : start.Has id) (outside : ¬ start.IsAbove id board)
    (config : Config) :
    let blank := Scene.instantiate start config id
    let shared := Scene.instantiate document config id
    ∃ image rows, Scene.Hosted blank shared blank rows start.size image (image blank.graph.fragment) ∧
      shared.document.Tended document (fun _ => False) (blank.document.Covers start.size image)
        (image blank.graph.fragment) ∧
      ¬ document.Has (image blank.graph.fragment) ∧
      shared.document.kind (image blank.graph.fragment) = .fragment := by
  have size : document.size = start.size + (document.size - start.size) := by
    have grown : start.size ≤ document.size :=
      Nat.not_lt.mp fun less => Nat.lt_irrefl _ (@intact.kinds.has ⟨document.size⟩ less)
    omega
  obtain ⟨rows, hosted⟩ := Scene.exists_hosted wellFormed documentWellFormed size config id
    (congrArg Tree.children (intact.tree_eq wellFormed documentWellFormed has outside))
  exact ⟨_, rows, hosted⟩

end Intact

end Document

structure Showing where
  engine : Engine
  template : NodeId
  first : Json
  later : List Json
  inst : Instance
  made : List NodeId
  mounted : Bool

namespace Showing

def host (showing : Showing) (board : NodeId) : NodeId :=
  if showing.mounted then board else showing.inst.graph.fragment

def rendered (showing : Showing) (document : Document) (board : NodeId) : List NodeId :=
  (document.children (showing.host board)).filter fun id => decide (id ∈ showing.made)

def updated (showing : Showing) (state : Json) (inst : Instance) (added : List NodeId) : Showing :=
  { showing with
    later := showing.later ++ [state]
    inst
    made := showing.made ++ added }

end Showing

namespace Showing

def blank (showing : Showing) (document : Document) : Scene :=
  Scene.instantiate document showing.engine.config showing.template

def alone (showing : Showing) (document : Document) : Scene :=
  (showing.first :: showing.later).foldl Scene.assignAll (showing.blank document)

def type? (showing : Showing) (document : Document) : Option String :=
  document.attribute? showing.template (.plain showing.engine.config.typeAttribute)

section
variable {Script State : Type} {interpret : Interpreter Script State}
  {start world : World Script State} {showing : Showing} {document result : Document}
  {board id : NodeId} {image : NodeId → NodeId} {rows : List Row}

theorem alone_updated (showing : Showing) (state : Json) (inst : Instance) (added : List NodeId)
    (document : Document) : (showing.updated state inst added).alone document =
      (showing.alone document).assignAll state := by
  rw [alone, alone, updated, blank, blank, ← List.cons_append, List.foldl_append, List.foldl_cons,
    List.foldl_nil]

theorem made_of_rendered (member : id ∈ showing.rendered document board) : id ∈ showing.made :=
  of_decide_eq_true (List.mem_filter.mp member).2

structure Placed (showing : Showing) (start : World Script State) (document : Document) (board : NodeId)
    (image : NodeId → NodeId) (rows : List Row) : Prop where
  hosted : Scene.Hosted (showing.alone start.document) ⟨document, showing.inst.graph⟩
    (showing.blank start.document) rows start.document.size image (showing.host board)
  made : ∀ id, id ∈ showing.made ↔
    (showing.alone start.document).document.Covers start.document.size image id
  fresh : ∀ id ∈ showing.made, ¬ start.document.Has id
  kind : document.kind showing.inst.graph.fragment = .fragment
  parted : (showing.blank start.document).graph.parts.isEmpty = false
  matching : (start.registry showing.engine.registry).resolve (showing.type? start.document) =
    ⟨.keyMatching, none⟩
  type? : showing.inst.type? = showing.type? start.document
  registry : showing.inst.registry = showing.engine.registry

namespace Placed

theorem has_of_made (placed : showing.Placed start document board image rows)
    (member : id ∈ showing.made) : document.Has id :=
  placed.hosted.embedded.has_of_covers ((placed.made id).mp member)

theorem fragment_made (placed : showing.Placed start document board image rows) :
    showing.inst.graph.fragment ∈ showing.made := by
  refine (placed.made _).mpr ?_
  rw [placed.hosted.fragment_eq]
  exact placed.hosted.embedded.covers placed.hosted.embedded.root

theorem host_cases (placed : showing.Placed start document board image rows) :
    showing.host board = board ∧ showing.mounted = true ∨ showing.host board ∈ showing.made := by
  by_cases mounted : showing.mounted = true
  · exact Or.inl ⟨if_pos mounted, mounted⟩
  · have here : showing.host board = showing.inst.graph.fragment := if_neg mounted
    exact Or.inr (here ▸ placed.fragment_made)

theorem rendered_eq (placed : showing.Placed start document board image rows) :
    showing.rendered document board = ((showing.alone start.document).document.children
      (showing.blank start.document).graph.fragment).map image :=
  placed.hosted.embedded.filter_children placed.hosted.live.wellFormed placed.hosted.sound.wellFormed _
    fun id => decide_eq_true_iff.trans (placed.made id)

theorem of_tended (placed : showing.Placed start document board image rows)
    (bound : start.document.Has board) (wellFormed : result.WellFormed) {own later : NodeId → Prop}
    {place : NodeId} (tended : result.Tended document own later place)
    (fresh : ∀ id, own id → ¬ start.document.Has id) (apart : ∀ id ∈ showing.made, ¬ own id)
    (outside : place ∉ showing.made) (shown : showing.host board = place →
      showing.rendered document board <:+: result.children (showing.host board)) :
    showing.Placed start result board image rows := by
  have foreign : ¬ own (showing.host board) := by
    rcases placed.host_cases with ⟨same, _⟩ | made
    · exact fun known => fresh board (same ▸ known) bound
    · exact apart _ made
  refine { placed with
    hosted := placed.hosted.of_tended wellFormed tended
      (fun id covered => apart id ((placed.made id).mpr covered))
      (mt (placed.made _).mpr outside) foreign fun same => placed.rendered_eq ▸ shown same
    kind := ?_ }
  rw [tended.kinds.kind_eq (placed.has_of_made placed.fragment_made), placed.kind]

theorem update (placed : showing.Placed start world.document board image rows)
    (registries : world.registries = start.registries)
    (kinds : world.document.KeepsKinds start.document) (interpret : Interpreter Script State)
    (state : Json) {outcome : Except Failure Unit} {inst : Instance} {changed : World Script State}
    (updated : showing.inst.update interpret state world = (outcome, inst, changed)) :
    let next := showing.updated state inst (changed.document.added world.document)
    changed.registries = world.registries ∧ next.host board = showing.host board ∧
      (∃ later, next.Placed start changed.document board later rows) ∧
      changed.document.Tended world.document (· ∈ showing.made) (· ∈ next.made) (showing.host board) ∧
      changed.document.Spaced world.document (· ∈ showing.made) (showing.host board) := by
  intro next
  have process : ((world.registry showing.inst.registry).resolve showing.inst.type?).process =
      .keyMatching := by
    rw [World.registry, registries, placed.registry, placed.type?]
    exact congrArg TemplateType.process placed.matching
  rw [Instance.update, process] at updated
  cases updated
  obtain ⟨later, advanced⟩ := placed.hosted.assignAll state
  have alone : next.alone start.document = (showing.alone start.document).assignAll state :=
    alone_updated ..
  have own : (showing.alone start.document).document.Covers start.document.size image =
      (· ∈ showing.made) := funext fun id => propext (placed.made id).symm
  have tended := own ▸ advanced.tended
  -- The nodes that the update made are just those that the run alone made further on.
  have made (id : NodeId) : id ∈ next.made ↔
      (next.alone start.document).document.Covers start.document.size later id := by
    rw [alone, tended.owned]
    exact List.mem_append.trans (or_congr_right (Document.mem_added _ _ id))
  have fragment : next.inst.graph.fragment = showing.inst.graph.fragment :=
    advanced.hosted.fragment_eq.trans (advanced.root.trans placed.hosted.fragment_eq.symm)
  have sameHost : next.host board = showing.host board := by
    rw [Showing.host, Showing.host, fragment]
    rfl
  refine ⟨rfl, sameHost, ⟨later, ?_, made, ?_, ?_, placed.parted, placed.matching, placed.type?,
    placed.registry⟩, ?_, own ▸ advanced.spaced⟩
  · rw [alone, sameHost]
    exact advanced.hosted
  · intro id member
    rcases List.mem_append.mp member with old | new
    · exact placed.fresh id old
    · exact mt kinds.has ((Document.mem_added _ _ id).mp new).1
  · rw [fragment, tended.kinds.kind_eq (placed.has_of_made placed.fragment_made)]
    exact placed.kind
  · have covers : (next.alone start.document).document.Covers start.document.size later =
        (· ∈ next.made) := funext fun id => propext (made id).symm
    rw [← covers, alone]
    exact tended

theorem made_of_shown (placed : showing.Placed start document board image rows)
    (free : showing.mounted = false) (member : id ∈ document.children showing.inst.graph.fragment) :
    id ∈ showing.made := by
  have here : showing.host board = showing.inst.graph.fragment := if_neg (by simp [free])
  rcases placed.hosted.embedded.placed with ⟨_, all⟩ | ⟨uncovered, _⟩
  · exact (placed.made id).mpr (all id (here ▸ member))
  · exact (uncovered ((placed.made _).mp (here ▸ placed.fragment_made))).elim

theorem shown (placed : showing.Placed start document board image rows) :
    showing.rendered document board <:+: document.children (showing.host board) :=
  placed.rendered_eq ▸ placed.hosted.embedded.shown

theorem mount (placed : showing.Placed start document board image rows)
    (free : showing.mounted = false) (bound : start.document.Has board)
    (kinds : document.KeepsKinds start.document)
    (beside : ∀ id ∈ document.children board, id ∉ showing.made) (wellFormed : result.WellFormed)
    {lead trail : List NodeId}
    (mounted : document.Mounted result showing.inst.graph.fragment board lead trail) :
    { showing with mounted := true }.Placed start result board image rows ∧
      result.Tended document (· ∈ showing.made) (· ∈ showing.made) board := by
  have here : showing.host board = image (showing.blank start.document).graph.fragment :=
    (if_neg (by simp [free])).trans placed.hosted.fragment_eq
  have hosted := placed.hosted
  rw [here] at hosted
  refine ⟨{ placed with
    hosted := hosted.mounted wellFormed (placed.hosted.fragment_eq ▸ mounted) (kinds.has bound)
      (fun covered => placed.fresh board ((placed.made board).mpr covered) bound)
      fun id member covered => beside id member ((placed.made id).mpr covered)
    kind := (congrArg Content.kind (mounted.content _)).trans placed.kind }, ?_⟩
  exact mounted.tended placed.hosted.sound.wellFormed wellFormed placed.fragment_made
    fun id member => placed.made_of_shown free member

theorem tree_eq (placed : showing.Placed start document board image rows)
    (member : id ∈ (showing.alone start.document).document.children
      (showing.blank start.document).graph.fragment) :
    document.tree (image id) = (showing.alone start.document).document.tree id := by
  have embedded := placed.hosted.embedded
  have kind : (showing.alone start.document).document.kind
      (showing.blank start.document).graph.fragment = .fragment := by
    rw [← placed.kind, placed.hosted.fragment_eq, Document.kind, Document.kind,
      ← embedded.content _ embedded.root]
  refine embedded.tree_eq placed.hosted.live.wellFormed placed.hosted.sound.wellFormed ?_ member
  exact Option.eq_none_iff_forall_not_mem.mpr fun parent linked =>
    placed.hosted.live.wellFormed.kind_of_parent? linked kind

theorem run_eq (placed : showing.Placed start document board image rows)
    (interpret : Interpreter Script State) :
    ∃ inst made last settled,
      showing.engine.instantiate interpret showing.template showing.first start = (some inst, made) ∧
      Instance.updateAll interpret showing.later inst made = (.ok (), last, settled) ∧
      last.type? = showing.inst.type? ∧ last.registry = showing.inst.registry ∧
      last.graph = (showing.alone start.document).graph ∧
      settled.document = (showing.alone start.document).document := by
  have instantiated := showing.engine.instantiate_eq interpret showing.template placed.matching
    showing.first
  have parted := placed.parted
  have type := placed.type?
  have process := congrArg TemplateType.process placed.matching
  rw [alone, List.foldl_cons]
  rw [Showing.type?] at type process
  rw [blank] at parted ⊢
  dsimp only at instantiated
  rw [parted, if_neg Bool.false_ne_true] at instantiated
  generalize start.document.attribute? showing.template _ = type? at *
  generalize (Scene.instantiate start.document showing.engine.config showing.template).assignAll
    showing.first = scene at *
  have updated := @Instance.updateAll_eq _ _ interpret { start with document := scene.document }
    ⟨type?, showing.engine.registry, scene.graph⟩ showing.later process
  generalize showing.later.foldl Scene.assignAll scene = last at *
  exact ⟨_, _, _, _, instantiated, updated, type.symm, placed.registry.symm, rfl, rfl⟩

end Placed

section
variable (wellFormed : start.document.WellFormed) (worldWellFormed : world.document.WellFormed)
  (registries : world.registries = start.registries)
  (intact : world.document.Intact start.document board) (interpret : Interpreter Script State)
  (engine : Engine) {template : NodeId} (has : start.document.Has template)
  (outside : ¬ start.document.IsAbove template board)
  (matching : (world.registry engine.registry).resolve
    (world.document.attribute? template (.plain engine.config.typeAttribute)) = ⟨.keyMatching, none⟩)
  (state : Json)

include intact registries has matching

theorem matching_start : (start.registry engine.registry).resolve
    (start.document.attribute? template (.plain engine.config.typeAttribute)) =
      ⟨.keyMatching, none⟩ := by
  rwa [Document.attribute?, intact.content template has, World.registry, registries] at matching

include wellFormed worldWellFormed outside

theorem isSome_instantiate : (engine.instantiate interpret template state world).1.isSome =
    (engine.instantiate interpret template state start).1.isSome := by
  obtain ⟨_, _, hosted, _⟩ := intact.exists_hosted wellFormed worldWellFormed has outside engine.config
  have parts : (Scene.instantiate world.document engine.config template).graph.parts.isEmpty =
      (Scene.instantiate start.document engine.config template).graph.parts.isEmpty := by
    simp only [hosted.graph, PartGraph.rename, Array.isEmpty, Array.size_map]
  have created := engine.instantiate_eq interpret template matching state
  have before := engine.instantiate_eq interpret template
    (matching_start registries intact engine has matching) state
  dsimp only at created before
  rw [created, before, parts]
  split <;> rfl

theorem exists_placed {made? : Option Instance} {changed : World Script State}
    (instantiated : engine.instantiate interpret template state world = (made?, changed)) :
    changed.registries = world.registries ∧ changed.document.WellFormed ∧
      (∃ later place, changed.document.Tended world.document (fun _ => False) later place ∧
        ¬ world.document.Has place) ∧
      ∀ inst, made? = some inst → ∃ image rows, Placed ⟨engine, template, state, [], inst,
        changed.document.added world.document, false⟩ start changed.document board image rows := by
  obtain ⟨image, rows, hosted, tended, missing, kind⟩ :=
    intact.exists_hosted wellFormed worldWellFormed has outside engine.config
  have same := engine.instantiate_eq interpret template matching state
  dsimp only at same
  rw [instantiated] at same
  split at same
  · cases same
    exact ⟨rfl, hosted.sound.wellFormed, ⟨_, _, tended, missing⟩, by rintro _ ⟨⟩⟩
  · rename_i parted
    cases same
    obtain ⟨later, advanced⟩ := hosted.assignAll state
    have total := advanced.tended.trans tended
    have fragment := advanced.hosted.fragment_eq.trans advanced.root
    have known : world.document.attribute? template (.plain engine.config.typeAttribute) =
        start.document.attribute? template (.plain engine.config.typeAttribute) := by
      rw [Document.attribute?, Document.attribute?, intact.content template has]
    have parts : (Scene.instantiate start.document engine.config template).graph.parts.isEmpty =
        false := by
      rw [hosted.graph] at parted
      simpa [PartGraph.rename] using parted
    have kindNow := (advanced.tended.kinds.kind_eq hosted.embedded.bound).trans kind
    generalize (Scene.instantiate world.document engine.config template).assignAll state = scene at *
    refine ⟨rfl, advanced.hosted.sound.wellFormed, ⟨_, _, total, missing⟩, ?_⟩
    rintro _ ⟨⟩
    have hosted := advanced.hosted
    rw [← fragment] at hosted kindNow
    refine ⟨later, rows, hosted, fun id => ?_, fun id member => ?_, kindNow, parts,
      matching_start registries intact engine has matching, known, rfl⟩
    · rw [Document.mem_added]
      exact ((total.owned id).trans (by rw [false_or])).symm
    · exact mt intact.kinds.has ((Document.mem_added _ _ id).mp member).1

end

end

end Showing

end LiveTemplate
