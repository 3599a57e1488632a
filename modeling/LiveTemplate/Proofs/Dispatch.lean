import LiveTemplate.Engine.Instance
import Mathlib.Data.List.Induction

/-! Which callbacks run: along any calls on an engine, also those that callbacks make themselves, every
call gets the callbacks that were registered last before it began. -/

namespace LiveTemplate

inductive Event (Script : Type) where
  | register (name : String) (type : TemplateType Script)
  | create (type? : Option String) (hasParts : Bool)
  | update (type? : Option String)
  | run (script : Script)
  | finish (succeeded : Bool)

namespace Event

variable {Script : Type}

def Latest (log : List (Event Script)) (name : String) (type : TemplateType Script) : Prop :=
  ∃ before after, log = before ++ .register name type :: after ∧ ∀ other, .register name other ∉ after

inductive StandsFor (log : List (Event Script)) : Option String → TemplateType Script → Prop
  | absent : StandsFor log none ⟨.keyMatching, none⟩
  | empty : StandsFor log (some "") ⟨.keyMatching, none⟩
  | unknown {name} : (∀ type, .register name type ∉ log) →
      StandsFor log (some name) ⟨.keyMatching, none⟩
  | registered {name type} : name ≠ "" → Latest log name type → StandsFor log (some name) type

mutual

/-- A log that goes on with calls, from the first list to the second. The callbacks of a call are those
of the type that its name stands for when it begins. -/
inductive Calls : List (Event Script) → List (Event Script) → Prop
  | done {log} : Calls log log
  | register {log last} (name type) : Calls (log ++ [.register name type]) last → Calls log last
  | update {log later last type? type succeeded} : StandsFor log type? type →
      Ran (log ++ [.update type?]) type.process succeeded later →
      Calls (later ++ [.finish succeeded]) last → Calls log last
  | create {log later last type? type hasParts succeeded} : StandsFor log type? type →
      Made (log ++ [.create type? hasParts]) type hasParts succeeded later →
      Calls (later ++ [.finish succeeded]) last → Calls log last

inductive Made : List (Event Script) → TemplateType Script → (hasParts : Bool) → (succeeded : Bool) →
    List (Event Script) → Prop
  | fruitless {log type} : Made log type false false log
  | plain {log later type succeeded} : type.create? = none → Ran log type.process succeeded later →
      Made log type true succeeded later
  | refused {log later type callback} : type.create? = some callback → Ran log callback false later →
      Made log type true false later
  | created {log middle later type callback succeeded} : type.create? = some callback →
      Ran log callback true middle → Ran middle type.process succeeded later →
      Made log type true succeeded later

inductive Ran : List (Event Script) → Callback Script → (succeeded : Bool) → List (Event Script) → Prop
  | keyMatching {log} : Ran log .keyMatching true log
  | markup {log} (succeeded) : Ran log .markup succeeded log
  | script {log later} (script succeeded) : Calls (log ++ [.run script]) later →
      Ran log (.script script) succeeded (later ++ [.finish succeeded])

end

end Event

abbrev LoggedWorld (Script State : Type) :=
  World Script (List (Event Script) × State)

namespace World

variable {Script State : Type}

def log (world : LoggedWorld Script State) : List (Event Script) :=
  world.state.1

def note (world : LoggedWorld Script State) (event : Event Script) : LoggedWorld Script State :=
  { world with state := (world.state.1 ++ [event], world.state.2) }

end World

/-- A world becomes another one by calls on an engine, with a note before and after each. In between,
anything may happen that leaves the registry of the engine alone. -/
inductive Works {Script State : Type} (interpret : Interpreter Script (List (Event Script) × State))
    (engine : Engine) : LoggedWorld Script State → LoggedWorld Script State → Prop
  | done {world} : Works interpret engine world world
  | other {world later last} : later.log = world.log →
      later.registry engine.registry = world.registry engine.registry →
      world.registries.size ≤ later.registries.size →
      Works interpret engine later last → Works interpret engine world last
  | register {world last} (name type) :
      Works interpret engine ((world.note (.register name type)).register engine.registry name type) last →
      Works interpret engine world last
  | update {world later last : LoggedWorld Script State} {inst changed : Instance} {state result} :
      inst.registry = engine.registry →
      inst.update interpret state (world.note (.update inst.type?)) = (result, changed, later) →
      Works interpret engine (later.note (.finish result.isOk)) last → Works interpret engine world last
  | create {world later last : LoggedWorld Script State} {template state type? hasParts made?} :
      world.document.attribute? template (.plain engine.config.typeAttribute) = type? →
      (!(Scene.instantiate world.document engine.config template).graph.parts.isEmpty) = hasParts →
      engine.instantiate interpret template state (world.note (.create type? hasParts)) = (made?, later) →
      Works interpret engine (later.note (.finish made?.isSome)) last → Works interpret engine world last

/-- Every script notes when it starts and when it is done, and all it does to the registry in between is
to make calls. -/
def Observes {Script State : Type} (interpret : Interpreter Script (List (Event Script) × State))
    (engine : Engine) : Prop :=
  ∀ script state inst world, ∃ result changed, ∃ later : LoggedWorld Script State,
    interpret script state inst world = (result, changed, later.note (.finish result.isOk)) ∧
      Works interpret engine (world.note (.run script)) later

namespace Event

variable {Script : Type} {log : List (Event Script)} {name : String} {type : TemplateType Script}

theorem latest_append_iff {event : Event Script} : Latest (log ++ [event]) name type ↔
    event = .register name type ∨ (∀ other, event ≠ .register name other) ∧ Latest log name type := by
  constructor
  · rintro ⟨before, after, split, missing⟩
    rcases List.eq_nil_or_concat after with rfl | ⟨rest, last, rfl⟩
    · obtain ⟨_, same⟩ := List.append_inj' split rfl
      exact Or.inl (List.cons.inj same).1
    · rw [List.concat_eq_append] at split missing
      rw [← List.cons_append, ← List.append_assoc] at split
      obtain ⟨rfl, same⟩ := List.append_inj' split rfl
      obtain ⟨rfl, _⟩ := List.cons.inj same
      refine Or.inr ⟨?_, before, rest, rfl, fun other member => missing other (List.mem_append_left _ member)⟩
      rintro other rfl
      exact missing other (by simp)
  · rintro (rfl | ⟨other, before, after, rfl, missing⟩)
    · exact ⟨log, [], rfl, by simp⟩
    · refine ⟨before, after ++ [event], by simp, fun type member => ?_⟩
      rcases List.mem_append.mp member with member | same
      · exact missing type member
      · exact other type (List.mem_singleton.mp same).symm

theorem exists_latest_iff : (∃ type, Latest log name type) ↔ ∃ type, .register name type ∈ log := by
  induction log using List.reverseRecOn with
  | nil => simp [Latest]
  | append_singleton log event ih =>
      by_cases registers : ∃ type, event = .register name type
      · obtain ⟨type, same⟩ := registers
        exact iff_of_true ⟨type, latest_append_iff.mpr (Or.inl same)⟩ ⟨type, by simp [same]⟩
      · rw [not_exists] at registers
        have latest (type) : Latest (log ++ [event]) name type ↔ Latest log name type := by
          rw [latest_append_iff, or_iff_right (registers type), and_iff_right registers]
        have noted (type) : .register name type ∈ log ++ [event] ↔ .register name type ∈ log := by
          rw [List.mem_append, List.mem_singleton, or_iff_left fun same => registers type same.symm]
        simp only [latest, noted, ih]

end Event

structure Holds {Script State : Type} (engine : Engine) (world : LoggedWorld Script State) : Prop where
  bound : engine.registry < world.registries.size
  latest : ∀ name type, (world.registry engine.registry).entries.lookup name = some type ↔
    Event.Latest world.log name type

namespace Holds

variable {Script State : Type} {engine : Engine} {world later : LoggedWorld Script State}

theorem congr (holds : Holds engine world) (log : later.log = world.log)
    (registry : later.registry engine.registry = world.registry engine.registry)
    (size : world.registries.size ≤ later.registries.size) : Holds engine later where
  bound := Nat.lt_of_lt_of_le holds.bound size
  latest := by rw [log, registry]; exact holds.latest

theorem note (holds : Holds engine world) {event : Event Script}
    (other : ∀ name type, event ≠ .register name type) : Holds engine (world.note event) where
  bound := holds.bound
  latest name type := (holds.latest name type).trans (by
    change _ ↔ Event.Latest (world.log ++ [event]) name type
    rw [Event.latest_append_iff, or_iff_right (other name type), and_iff_right (other name)])

theorem register (holds : Holds engine world) (name : String) (type : TemplateType Script) :
    Holds engine ((world.note (.register name type)).register engine.registry name type) where
  bound := (Array.size_modify ..).symm ▸ holds.bound
  latest other otherType := by
    have found : ((world.note (.register name type)).register engine.registry name type).registry
        engine.registry = (world.registry engine.registry).register name type := by
      have known := Array.getElem?_eq_getElem holds.bound
      simp [World.registry, World.register, World.note, Array.getElem?_modify, known]
    change _ ↔ Event.Latest (world.log ++ [.register name type]) other otherType
    rw [found, Registry.register, List.lookup_cons, Event.latest_append_iff, ← holds.latest]
    by_cases same : other = name
    · subst same
      simp [eq_comm]
    · have differ : (other == name) = false := beq_eq_false_iff_ne.mpr same
      simp [differ, Ne.symm same]

theorem standsFor_iff (holds : Holds engine world) (name? : Option String) (type : TemplateType Script) :
    Event.StandsFor world.log name? type ↔
      (world.registry engine.registry).resolve name? = type := by
  cases name? with
  | none =>
      constructor
      · rintro ⟨⟩
        rfl
      · rintro rfl
        exact .absent
  | some name =>
      by_cases named : name = ""
      · subst named
        constructor
        · rintro (_ | _ | _ | ⟨nonempty, _⟩)
          · rfl
          · rfl
          · exact (nonempty rfl).elim
        · rintro rfl
          exact .empty
      · have resolved : (world.registry engine.registry).resolve (some name) =
            ((world.registry engine.registry).entries.lookup name).getD ⟨.keyMatching, none⟩ := by
          rw [Registry.resolve, Option.filter_some, if_pos (bne_iff_ne.mpr named), Option.bind_some]
        rw [resolved]
        cases found : (world.registry engine.registry).entries.lookup name with
        | none =>
            have missing : ∀ type, .register name type ∉ world.log := by
              rw [← not_exists, ← Event.exists_latest_iff, not_exists]
              intro type latest
              rw [← holds.latest, found] at latest
              cases latest
            constructor
            · rintro (_ | _ | _ | ⟨_, latest⟩)
              · exact (named rfl).elim
              · rfl
              · rw [← holds.latest, found] at latest
                cases latest
            · rintro rfl
              exact .unknown missing
        | some known =>
            have latest := (holds.latest name known).mp found
            constructor
            · rintro (_ | _ | missing | ⟨_, other⟩)
              · exact (named rfl).elim
              · obtain ⟨type, member⟩ := Event.exists_latest_iff.mp ⟨known, latest⟩
                exact (missing type member).elim
              · rw [← holds.latest, found] at other
                exact Option.some.inj other
            · rintro rfl
              exact .registered named latest

end Holds

section
variable {Script State : Type}

inductive Makes (interpret : Interpreter Script State) (state : Json) (type : TemplateType Script)
    (inst : Instance) (world : World Script State) : Option Instance → World Script State → Prop
  | plain {result made later} : type.create? = none →
      type.process.run interpret state inst world = (result, made, later) →
      Makes interpret state type inst world (if result.isOk then some made else none) later
  | refused {callback cause changed later} : type.create? = some callback →
      callback.run interpret state inst world = (.error cause, changed, later) →
      Makes interpret state type inst world none later
  | created {callback changed middle result made later} : type.create? = some callback →
      callback.run interpret state inst world = (.ok (), changed, middle) →
      type.process.run interpret state changed middle = (result, made, later) →
      Makes interpret state type inst world (if result.isOk then some made else none) later

variable {interpret : Interpreter Script State} {engine : Engine} {world : World Script State}
  {template : NodeId}

theorem Engine.instantiate_of_isEmpty
    (empty : (Scene.instantiate world.document engine.config template).graph.parts.isEmpty = true)
    (state : Json) : engine.instantiate interpret template state world =
      (none, { world with
        document := (Scene.instantiate world.document engine.config template).document }) := by
  rw [instantiate]
  exact if_pos empty

theorem Engine.makes_instantiate
    (parts : (Scene.instantiate world.document engine.config template).graph.parts.isEmpty = false)
    (state : Json) :
    let type? := world.document.attribute? template (.plain engine.config.typeAttribute)
    let scene := Scene.instantiate world.document engine.config template
    let made := engine.instantiate interpret template state world
    Makes interpret state ((world.registry engine.registry).resolve type?)
      ⟨type?, engine.registry, scene.graph⟩ { world with document := scene.document } made.1 made.2 := by
  intro type? scene made
  have same : made = _ := if_neg (Bool.eq_false_iff.mp parts)
  rw [same]
  clear same
  have kept : World.registry { world with document := scene.document } engine.registry =
      world.registry engine.registry := rfl
  rw [kept]
  generalize (world.registry engine.registry).resolve type? = type
  generalize Instance.mk type? engine.registry scene.graph = inst
  generalize { world with document := scene.document } = copied
  cases create : type.create? with
  | none =>
      rcases processed : type.process.run interpret state inst copied with ⟨result, made, later⟩
      have plain := Makes.plain create processed
      simp only [processed]
      cases result <;> exact plain
  | some callback =>
      rcases ran : callback.run interpret state inst copied with ⟨result | ⟨⟩, changed, middle⟩
      · simp only [ran]
        exact .refused create ran
      · rcases processed : type.process.run interpret state changed middle with ⟨result, made, later⟩
        have created := Makes.created create ran processed
        simp only [ran, processed]
        cases result <;> exact created

end

section
variable {Script State : Type} {interpret : Interpreter Script (List (Event Script) × State)}
  {engine : Engine} {start world later last : LoggedWorld Script State}

structure Advances (engine : Engine) (world later : LoggedWorld Script State) : Prop where
  grows : world.log.length ≤ later.log.length
  calls : Holds engine world → Event.Calls world.log later.log ∧ Holds engine later

def AdvancesBelow (interpret : Interpreter Script (List (Event Script) × State)) (engine : Engine)
    (bound : Nat) : Prop :=
  ∀ first second, Works interpret engine first second → second.log.length < bound →
    Advances engine first second

theorem AdvancesBelow.mono {bound lower : Nat} (below : AdvancesBelow interpret engine bound)
    (less : lower ≤ bound) : AdvancesBelow interpret engine lower :=
  fun first second works shorter => below first second works (Nat.lt_of_lt_of_le shorter less)

theorem length_log_note (world : LoggedWorld Script State) (event : Event Script) :
    (world.note event).log.length = world.log.length + 1 :=
  List.length_append

theorem isSome_made {result : Except Failure Unit} {made : Instance} :
    (if result.isOk then some made else none).isSome = result.isOk := by
  cases result <;> rfl

/-- What a script notes is shorter than what is noted when it is done. -/
theorem Callback.ran_of_run (observes : Observes interpret engine) {callback : Callback Script}
    {state : Json} {inst changed : Instance} {result : Except Failure Unit}
    (nested : AdvancesBelow interpret engine later.log.length)
    (run : callback.run interpret state inst world = (result, changed, later)) :
    world.log.length ≤ later.log.length ∧
      (Holds engine world → Event.Ran world.log callback result.isOk later.log ∧ Holds engine later) := by
  cases callback with
  | keyMatching =>
      cases run
      exact ⟨Nat.le_refl _, fun holds => ⟨.keyMatching, holds.congr rfl rfl (Nat.le_refl _)⟩⟩
  | markup =>
      cases run
      exact ⟨Nat.le_refl _, fun holds => ⟨.markup _, holds.congr rfl rfl (Nat.le_refl _)⟩⟩
  | script own =>
      obtain ⟨_, _, inner, interpreted, works⟩ := observes own state inst world
      cases interpreted.symm.trans run
      have length := length_log_note inner (.finish result.isOk)
      have advances := nested _ _ works (by omega)
      have grows := advances.grows
      rw [length_log_note] at grows
      refine ⟨by omega, fun holds => ?_⟩
      obtain ⟨calls, innerHolds⟩ := advances.calls (holds.note (by rintro _ _ ⟨⟩))
      exact ⟨.script own _ calls, innerHolds.note (by rintro _ _ ⟨⟩)⟩

theorem Makes.made (observes : Observes interpret engine) {state : Json} {type : TemplateType Script}
    {inst : Instance} {made? : Option Instance}
    (nested : AdvancesBelow interpret engine later.log.length)
    (makes : Makes interpret state type inst world made? later) :
    world.log.length ≤ later.log.length ∧ (Holds engine world →
      Event.Made world.log type true made?.isSome later.log ∧ Holds engine later) := by
  cases makes with
  | plain create processed =>
      obtain ⟨grows, ran⟩ := Callback.ran_of_run observes nested processed
      refine ⟨grows, fun holds => ?_⟩
      rw [isSome_made]
      exact (ran holds).imp_left (.plain create)
  | refused create refused =>
      obtain ⟨grows, ran⟩ := Callback.ran_of_run observes nested refused
      exact ⟨grows, fun holds => (ran holds).imp_left (.refused create)⟩
  | created create ran processed =>
      obtain ⟨later, processed⟩ := Callback.ran_of_run observes nested processed
      obtain ⟨grows, ran⟩ := Callback.ran_of_run observes (nested.mono later) ran
      refine ⟨Nat.le_trans grows later, fun holds => ?_⟩
      obtain ⟨ran, middleHolds⟩ := ran holds
      rw [isSome_made]
      exact (processed middleHolds).imp_left (.created create ran)

theorem Engine.made_of_instantiate (observes : Observes interpret engine) {template : NodeId}
    {state : Json} {made? : Option Instance}
    (nested : AdvancesBelow interpret engine later.log.length)
    (instantiated : engine.instantiate interpret template state world = (made?, later)) :
    let type? := world.document.attribute? template (.plain engine.config.typeAttribute)
    let hasParts := !(Scene.instantiate world.document engine.config template).graph.parts.isEmpty
    world.log.length ≤ later.log.length ∧ (Holds engine world →
      Event.Made world.log ((world.registry engine.registry).resolve type?) hasParts made?.isSome later.log ∧
        Holds engine later) := by
  intro type? hasParts
  cases empty : (Scene.instantiate world.document engine.config template).graph.parts.isEmpty with
  | true =>
      cases (Engine.instantiate_of_isEmpty empty state).symm.trans instantiated
      have nothing : hasParts = false := congrArg not empty
      rw [nothing]
      exact ⟨Nat.le_refl _, fun holds => ⟨.fruitless, holds.congr rfl rfl (Nat.le_refl _)⟩⟩
  | false =>
      have something : hasParts = true := congrArg not empty
      have makes := @Engine.makes_instantiate _ _ interpret engine world template empty state
      dsimp only at makes
      rw [instantiated] at makes
      obtain ⟨grows, made⟩ := makes.made observes nested
      rw [something]
      exact ⟨grows, fun holds => made (holds.congr rfl rfl (Nat.le_refl _))⟩

/-- Whatever is called, the notes show calls with the right callbacks. The induction is on the length of
the log, because the calls of a script are no part of the run that starts it. -/
theorem Works.advances (observes : Observes interpret engine) (works : Works interpret engine world last) :
    Advances engine world last := by
  generalize length : last.log.length = total
  induction total using Nat.strongRecOn generalizing world last with
  | ind total shorter =>
      have nested : AdvancesBelow interpret engine total :=
        fun _ _ works less => shorter _ less works rfl
      clear shorter
      -- Inside, calls follow one another; those that a script makes are left to the outer induction.
      induction works with
      | done => exact ⟨Nat.le_refl _, fun holds => ⟨.done, holds⟩⟩
      | other log registry size _ ih =>
          obtain ⟨grows, calls⟩ := ih length
          rw [log] at grows calls
          exact ⟨grows, fun holds => calls (holds.congr log registry size)⟩
      | @register world _ name type _ ih =>
          obtain ⟨grows, calls⟩ := ih length
          refine ⟨Nat.le_trans (Nat.le_of_lt ?_) grows, fun holds => ?_⟩
          · exact Nat.lt_of_lt_of_eq (Nat.lt_succ_self _) (length_log_note world _).symm
          · obtain ⟨more, lastHolds⟩ := calls (holds.register name type)
            exact ⟨.register name type more, lastHolds⟩
      | @update world later _ inst changed state result same updated _ ih =>
          obtain ⟨grows, calls⟩ := ih length
          rw [length_log_note] at grows
          obtain ⟨began, ran⟩ := Callback.ran_of_run observes (nested.mono (by omega)) updated
          rw [length_log_note] at began
          refine ⟨by omega, fun holds => ?_⟩
          have stands := (holds.standsFor_iff inst.type? _).mpr rfl
          rw [← same] at stands
          obtain ⟨ran, laterHolds⟩ := ran (holds.note (by rintro _ _ ⟨⟩))
          obtain ⟨more, lastHolds⟩ := calls (laterHolds.note (by rintro _ _ ⟨⟩))
          exact ⟨.update stands ran more, lastHolds⟩
      | @create world later _ template state type? hasParts made? named found made _ ih =>
          obtain ⟨grows, calls⟩ := ih length
          rw [length_log_note] at grows
          obtain ⟨began, ran⟩ := Engine.made_of_instantiate observes (nested.mono (by omega)) made
          rw [length_log_note] at began
          refine ⟨by omega, fun holds => ?_⟩
          have stands := (holds.standsFor_iff type? _).mpr rfl
          obtain ⟨ran, laterHolds⟩ := ran (holds.note (by rintro _ _ ⟨⟩))
          obtain ⟨more, lastHolds⟩ := calls (laterHolds.note (by rintro _ _ ⟨⟩))
          subst named found
          exact ⟨.create stands ran more, lastHolds⟩

inductive Moment (interpret : Interpreter Script (List (Event Script) × State)) (engine : Engine)
    (start : LoggedWorld Script State) : LoggedWorld Script State → Prop
  | start : Moment interpret engine start start
  | works {now next} : Moment interpret engine start now → Works interpret engine now next →
      Moment interpret engine start next
  | note {now event} : Moment interpret engine start now → (∀ name type, event ≠ .register name type) →
      Moment interpret engine start (now.note event)

structure Dispatches (interpret : Interpreter Script (List (Event Script) × State)) (engine : Engine)
    (world : LoggedWorld Script State) : Prop where
  stands : ∀ type?, ∃! type, Event.StandsFor world.log type? type
  update : ∀ {inst : Instance} {type} state, inst.registry = engine.registry →
    Event.StandsFor world.log inst.type? type →
    inst.update interpret state world = type.process.run interpret state inst world
  fruitless : ∀ {template} state, let scene := Scene.instantiate world.document engine.config template
    scene.graph.parts.isEmpty = true →
    engine.instantiate interpret template state world = (none, { world with document := scene.document })
  makes : ∀ {template type} state,
    let type? := world.document.attribute? template (.plain engine.config.typeAttribute)
    let scene := Scene.instantiate world.document engine.config template
    let made := engine.instantiate interpret template state world
    scene.graph.parts.isEmpty = false → Event.StandsFor world.log type? type →
    Makes interpret state type ⟨type?, engine.registry, scene.graph⟩
      { world with document := scene.document } made.1 made.2

theorem Holds.dispatches (holds : Holds engine world)
    (interpret : Interpreter Script (List (Event Script) × State)) : Dispatches interpret engine world where
  stands type? := ⟨_, (holds.standsFor_iff type? _).mpr rfl,
    fun other stands => ((holds.standsFor_iff type? other).mp stands).symm⟩
  update := by
    intro inst type state same stands
    rw [Instance.update, same, (holds.standsFor_iff inst.type? type).mp stands]
  fruitless state empty := Engine.instantiate_of_isEmpty empty state
  makes := by
    intro template type state type? scene made parts stands
    rw [← (holds.standsFor_iff type? type).mp stands]
    exact Engine.makes_instantiate parts state

theorem Moment.holds (observes : Observes interpret engine) (begins : Holds engine start)
    (moment : Moment interpret engine start world) : Holds engine world := by
  induction moment with
  | start => exact begins
  | works _ works ih => exact ((works.advances observes).calls ih).2
  | note _ other ih => exact ih.note other

/-- From a new engine on, and whatever calls are made, by callbacks too, every call runs the callbacks of
the latest registration before it began. What is registered while callbacks run counts for later calls
only, whenever their instances were made. -/
theorem dispatches_of_observes (observes : Observes interpret engine) (fresh : start.log = [])
    (bound : engine.registry < start.registries.size)
    (empty : start.registry engine.registry = .empty) :
    (∀ last, Works interpret engine start last → Event.Calls [] last.log) ∧
      ∀ world, Moment interpret engine start world → Dispatches interpret engine world := by
  have begins : Holds engine start := by
    refine ⟨bound, fun name type => ?_⟩
    rw [empty, fresh]
    exact iff_of_false (by rintro ⟨⟩) (by simp [Event.Latest])
  exact ⟨fun last works => fresh ▸ ((works.advances observes).calls begins).1,
    fun world moment => (moment.holds observes begins).dispatches interpret⟩

end

inductive Greeting where
  | prepare
  | greet
  | refuse
  deriving DecidableEq

namespace Greeting

deriving instance DecidableEq for Callback, TemplateType, Event

def engine : Engine :=
  ⟨.standard, 0⟩

def fill (state : Json) (inst : Instance) (world : LoggedWorld Greeting Unit) :
    Outcome Greeting (List (Event Greeting) × Unit) :=
  Callback.keyMatching.run (fun _ _ inst world => (.ok (), inst, world)) state ⟨none, 0, inst.graph⟩ world

def interpret : Interpreter Greeting (List (Event Greeting) × Unit)
  | prepare, state, inst, world =>
    let running := (world.note (.run prepare)).note (.register "greeting" ⟨.script refuse, none⟩)
    let running := running.register 0 "greeting" ⟨.script refuse, none⟩
    let (_, filled, running) := fill state inst (running.note (.update none))
    (.ok (), { inst with graph := filled.graph }, (running.note (.finish true)).note (.finish true))
  | greet, _, inst, world => (.ok (), inst, (world.note (.run greet)).note (.finish true))
  | refuse, _, inst, world =>
    (.error (.stated "no"), inst, (world.note (.run refuse)).note (.finish false))

theorem observes_interpret : Observes interpret engine := by
  rintro (_ | _ | _) state inst world
  · exact ⟨.ok (), _, _, rfl, .register "greeting" ⟨.script refuse, none⟩
      (@Works.update _ _ _ engine _ _ _ ⟨none, 0, inst.graph⟩ _ state (.ok ()) rfl rfl .done)⟩
  · exact ⟨.ok (), inst, _, rfl, .done⟩
  · exact ⟨.error (.stated "no"), inst, _, rfl, .done⟩

def start : LoggedWorld Greeting Unit :=
  let read? := Document.new.read? "<template type=\"greeting\">\x7b\x7bx\x7d\x7d</template>"
  ⟨(read?.map Prod.snd).getD .new, #[.empty], ([], ())⟩

def registered : LoggedWorld Greeting Unit :=
  let type : TemplateType Greeting := ⟨.script greet, some (.script prepare)⟩
  (start.note (.register "greeting" type)).register 0 "greeting" type

def made : Option Instance × LoggedWorld Greeting Unit :=
  engine.instantiate interpret ⟨2⟩ .null (registered.note (.create (some "greeting") true))

def inst : Instance :=
  made.1.getD ⟨none, 0, .empty ⟨0⟩⟩

def updated : Outcome Greeting (List (Event Greeting) × Unit) :=
  inst.update interpret .null ((made.2.note (.finish made.1.isSome)).note (.update inst.type?))

def last : LoggedWorld Greeting Unit :=
  updated.2.2.note (.finish updated.1.isOk)

theorem dispatches_greeting :
    Observes interpret engine ∧ Works interpret engine start last ∧ Event.Calls [] last.log ∧
      last.log =
        [.register "greeting" ⟨.script greet, some (.script prepare)⟩, .create (some "greeting") true,
          .run prepare, .register "greeting" ⟨.script refuse, none⟩, .update none, .finish true,
          .finish true, .run greet, .finish true, .finish true,
          .update (some "greeting"), .run refuse, .finish false, .finish false] ∧
      Dispatches interpret engine start := by
  have laws := @dispatches_of_observes _ _ _ _ start observes_interpret rfl (by decide) rfl
  have named : registered.document.attribute? ⟨2⟩ (.plain engine.config.typeAttribute) =
      some "greeting" := by decide +kernel
  have parts : (!(Scene.instantiate registered.document engine.config ⟨2⟩).graph.parts.isEmpty) = true := by
    decide +kernel
  have same : inst.registry = engine.registry := by decide +kernel
  have outcome : updated = (updated.1, updated.2.1, updated.2.2) := by
    rw [Prod.eta updated.2, Prod.eta updated]
  have updating : Works interpret engine (made.2.note (.finish made.1.isSome)) last :=
    .update same outcome .done
  have creating : Works interpret engine registered last :=
    .create named parts (Prod.eta made).symm updating
  have works : Works interpret engine start last := .register "greeting" _ creating
  exact ⟨observes_interpret, works, laws.1 last works, by decide +kernel, laws.2 start .start⟩

end Greeting

end LiveTemplate
