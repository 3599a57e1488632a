import LiveTemplate.Proofs.Navigation
import LiveTemplate.Proofs.Registers

/-! The wiring of an instance. Its parts, bindings and regions refer to each other by numbers, which
parts get before their binding or region is there. Every step of making parts leaves these references
in order, and nothing that is written to the instance or happens to its document changes them. -/

namespace LiveTemplate

inductive Holder where
  | binding (number : Nat)
  | region (number : Nat)
  deriving DecidableEq

namespace Holder

inductive Before : Holder → Holder → Prop
  | bindings {first second : Nat} : first < second → Before (.binding first) (.binding second)
  | regions {first second : Nat} : first < second → Before (.region first) (.region second)

theorem Before.ne {first second : Holder} (before : first.Before second) : first ≠ second := by
  rintro rfl
  cases before with
  | bindings less => exact Nat.lt_irrefl _ less
  | regions less => exact Nat.lt_irrefl _ less

end Holder

def Target.holder : Target → Holder
  | .attribute binding _ => .binding binding
  | .nodes region _ _ => .region region

structure Part.Wiring where
  expression : String
  kind : PartKind
  holder : Holder
  nested? : Option Nested
  deriving DecidableEq

def Part.wiring (part : Part) : Part.Wiring :=
  ⟨part.expression, part.kind, part.target.holder, part.nested?⟩

theorem Part.wiring_nodes (expression : String) (region : Nat) (old new : List NodeId)
    (nested? : Option Nested) :
    Part.wiring ⟨expression, .nodes region new nested?⟩ =
      Part.wiring ⟨expression, .nodes region old nested?⟩ := by
  cases nested? <;> rfl

namespace Region

def wiring (region : Region) : Region :=
  { region with previous? := none, next? := none, rendered := [], detached := false }

def Kept (region : Region) : Prop :=
  region.owning = true → region.parent?.isSome = true ∧ region.detached = false

variable {region : Region}

theorem wiring_settle (region : Region) (span : Span) (nodes : List NodeId) :
    (region.settle span nodes).wiring = region.wiring := by
  rw [settle]
  split <;> rfl

theorem Kept.settle (kept : region.Kept) (span : Span) (nodes : List NodeId) :
    (region.settle span nodes).Kept := by
  rw [Region.settle]
  split
  · exact fun owning => ⟨(kept owning).1, rfl⟩
  · exact fun owning => ⟨(kept owning).1, rfl⟩

theorem Kept.lost {document : Document} (kept : region.Kept) (nowhere : region.place? document = none) :
    Kept { region with detached := true } := by
  intro owning
  rw [place?, if_pos owning, Option.map_eq_none_iff] at nowhere
  have recorded := (kept owning).1
  rw [nowhere] at recorded
  cases recorded

end Region

namespace PartGraph

def partsOf? (graph : PartGraph) : Holder → Option (List Nat)
  | .binding number =>
    graph.bindings[number]?.map fun binding => binding.pieces.filterMap Piece.part?
  | .region number =>
    graph.regions[number]?.map fun region => region.group.filterMap Piece.part?

/-- The references between parts, bindings and regions are in order. A part is one piece of what it
writes to, and what has it as a piece is what it writes to. Parts are numbered in the order of the
pieces, the parts of an earlier binding or region before those of a later one. A region that owns its
parent can always be shown. -/
structure Wired (graph : PartGraph) : Prop where
  held : ∀ {index : Nat} {part : Part}, graph.parts[index]? = some part →
    ∃ own, graph.partsOf? part.target.holder = some own ∧ own.count index = 1
  known : ∀ {holder : Holder} {own : List Nat} {index : Nat}, graph.partsOf? holder = some own →
    index ∈ own → ∃ part, graph.parts[index]? = some part ∧ part.target.holder = holder
  consecutive : ∀ {holder : Holder} {own : List Nat}, graph.partsOf? holder = some own →
    ∃ first count, own = List.range' first count
  ascending : ∀ {first second : Holder} {earlier later : List Nat}, first.Before second →
    graph.partsOf? first = some earlier → graph.partsOf? second = some later →
      ∀ left ∈ earlier, ∀ right ∈ later, left < right
  kept : ∀ {number : Nat} {region : Region}, graph.regions[number]? = some region → region.Kept

structure SameWiring (result graph : PartGraph) : Prop where
  fragment : result.fragment = graph.fragment
  parts : result.parts.map Part.wiring = graph.parts.map Part.wiring
  bindings : result.bindings = graph.bindings
  regions : result.regions.map Region.wiring = graph.regions.map Region.wiring

inductive Updates : PartGraph → PartGraph → Prop
  | target (graph : PartGraph) {index : Nat} {part : Part} (new : Target) :
      graph.parts[index]? = some part → { part with target := new }.wiring = part.wiring →
      Updates graph (graph.setTarget index new)
  | region (graph : PartGraph) {number : Nat} {old : Region} (new : Region) :
      graph.regions[number]? = some old → new.wiring = old.wiring → (old.Kept → new.Kept) →
      Updates graph (graph.setRegion number new)

variable {graph later result : PartGraph} {holder : Holder} {index : Nat}

theorem partsOf?_pushBinding (graph : PartGraph) (binding : Binding) (holder : Holder) :
    partsOf? { graph with bindings := graph.bindings.push binding } holder =
      if holder = .binding graph.bindings.size then some (binding.pieces.filterMap Piece.part?)
      else graph.partsOf? holder := by
  cases holder with
  | binding number =>
      simp only [partsOf?, Array.getElem?_push, Holder.binding.injEq]
      split <;> rfl
  | region number => rfl

theorem partsOf?_pushRegion (graph : PartGraph) (region : Region) (holder : Holder) :
    partsOf? { graph with regions := graph.regions.push region } holder =
      if holder = .region graph.regions.size then some (region.group.filterMap Piece.part?)
      else graph.partsOf? holder := by
  cases holder with
  | binding number => rfl
  | region number =>
      simp only [partsOf?, Array.getElem?_push, Holder.region.injEq]
      split <;> rfl

theorem Parted.partsOf?_eq {α : Type} {target : Target} {pieces : List (Piece α)}
    (parted : later.Parted graph target pieces) (holder : Holder) :
    later.partsOf? holder = graph.partsOf? holder := by
  cases holder with
  | binding number => rw [partsOf?, partsOf?, parted.bindings_eq]
  | region number => rw [partsOf?, partsOf?, parted.regions_eq]

namespace Wired

theorem empty (fragment : NodeId) : (PartGraph.empty fragment).Wired := by
  have nothing (holder : Holder) : (PartGraph.empty fragment).partsOf? holder = none := by
    cases holder <;> rfl
  refine ⟨fun found => ?_, fun found => ?_, fun found => ?_, fun _ found => ?_, fun found => ?_⟩
  · simp [PartGraph.empty] at found
  · simp [nothing] at found
  · simp [nothing] at found
  · simp [nothing] at found
  · simp [PartGraph.empty] at found

/-- Parts can be added together with the binding or region that has them as pieces. It is the last of
its kind, so that its parts may have the numbers that come next. -/
theorem extend {α : Type} {target : Target} {pieces : List (Piece α)} (wired : graph.Wired)
    (parted : later.Parted graph target pieces) (parts : result.parts = later.parts)
    (holders : ∀ holder, result.partsOf? holder =
      if holder = target.holder then some (pieces.filterMap Piece.part?) else graph.partsOf? holder)
    (last : ∀ holder, holder = target.holder ∨ target.holder.Before holder →
      graph.partsOf? holder = none)
    (kept : ∀ {number : Nat} {region : Region}, result.regions[number]? = some region → region.Kept) :
    result.Wired := by
  obtain ⟨count, numbered⟩ := parted.numbered
  have split {holder : Holder} {own : List Nat} (found : result.partsOf? holder = some own) :
      graph.partsOf? holder = some own ∨
        holder = target.holder ∧ own = pieces.filterMap Piece.part? := by
    rw [holders] at found
    split at found
    · rename_i same
      exact Or.inr ⟨same, (Option.some.inj found).symm⟩
    · exact Or.inl found
  refine ⟨?_, ?_, ?_, ?_, kept⟩
  · intro index part found
    rw [parts] at found
    rcases parted.added found with older | ⟨same, member⟩
    · obtain ⟨own, ownFound, once⟩ := wired.held older
      refine ⟨own, ?_, once⟩
      -- What an older part is a piece of was there before, so it is not what was added.
      rw [holders, if_neg, ownFound]
      intro same
      rw [last _ (Or.inl same)] at ownFound
      cases ownFound
    · refine ⟨_, by rw [holders, same, if_pos rfl], ?_⟩
      refine List.count_eq_one_of_mem ?_ (Piece.mem_filterMap_part?.mpr member)
      rw [numbered]
      exact List.nodup_range'
  · intro holder own index found inside
    rcases split found with older | ⟨rfl, rfl⟩
    · obtain ⟨part, partFound, same⟩ := wired.known older inside
      exact ⟨part, by rw [parts, parted.old partFound], same⟩
    · obtain ⟨_, part, partFound, same⟩ := parted.piece (Piece.mem_filterMap_part?.mp inside)
      exact ⟨part, by rw [parts, partFound], by rw [same]⟩
  · intro holder own found
    rcases split found with older | ⟨_, rfl⟩
    · exact wired.consecutive older
    · exact ⟨_, count, numbered⟩
  · intro first second earlier later before firstFound secondFound left leftMember right rightMember
    rcases split firstFound with older | ⟨rfl, _⟩
    · rcases split secondFound with otherOlder | ⟨_, rfl⟩
      · exact wired.ascending before older otherOlder left leftMember right rightMember
      · -- The new numbers begin where those of older parts end.
        obtain ⟨part, partFound, _⟩ := wired.known older leftMember
        have bound := (Array.getElem?_eq_some_iff.mp partFound).1
        rw [numbered, List.mem_range'_1] at rightMember
        exact Nat.lt_of_lt_of_le bound rightMember.1
    · rw [holders, if_neg before.ne.symm, last _ (Or.inr before)] at secondFound
      cases secondFound

theorem pushBinding {value? : Option String} {binding : Binding} (wired : graph.Wired)
    (parted : later.Parted graph (.attribute graph.bindings.size value?) binding.pieces) :
    Wired { later with bindings := later.bindings.push binding } := by
  refine wired.extend parted rfl (fun holder => ?_) ?_ fun found => ?_
  · rw [partsOf?_pushBinding, parted.bindings_eq, parted.partsOf?_eq]
    rfl
  · rintro holder (rfl | before)
    · simp [partsOf?, Target.holder]
    · cases before with
      | bindings less => simp [partsOf?, Nat.le_of_lt less]
  · exact wired.kept (parted.regions_eq ▸ found)

theorem pushRegion {nested? : Option Nested} {region : Region} (wired : graph.Wired)
    (parted : later.Parted graph (.nodes graph.regions.size [] nested?) region.group)
    (kept : region.Kept) : Wired { later with regions := later.regions.push region } := by
  refine wired.extend parted rfl (fun holder => ?_) ?_ fun found => ?_
  · rw [partsOf?_pushRegion, parted.regions_eq, parted.partsOf?_eq]
    rfl
  · rintro holder (rfl | before)
    · simp [partsOf?, Target.holder]
    · cases before with
      | regions less => simp [partsOf?, Nat.le_of_lt less]
  · rcases getElem?_push_cases found with older | ⟨_, rfl⟩
    · exact wired.kept (parted.regions_eq ▸ older)
    · exact kept

theorem holder_eq {part : Part} {own : List Nat} (wired : graph.Wired)
    (found : graph.parts[index]? = some part) (ownFound : graph.partsOf? holder = some own)
    (inside : index ∈ own) : holder = part.target.holder := by
  obtain ⟨known, knownFound, same⟩ := wired.known ownFound inside
  cases found.symm.trans knownFound
  exact same.symm

end Wired

namespace SameWiring

theorem refl (graph : PartGraph) : graph.SameWiring graph :=
  ⟨rfl, rfl, rfl, rfl⟩

theorem trans (second : result.SameWiring later) (first : later.SameWiring graph) :
    result.SameWiring graph where
  fragment := second.fragment.trans first.fragment
  parts := second.parts.trans first.parts
  bindings := second.bindings.trans first.bindings
  regions := second.regions.trans first.regions

variable (same : result.SameWiring graph)

include same

theorem part_eq (index : Nat) :
    result.parts[index]?.map Part.wiring = graph.parts[index]?.map Part.wiring := by
  rw [← Array.getElem?_map, ← Array.getElem?_map, same.parts]

theorem partsOf?_eq (holder : Holder) : result.partsOf? holder = graph.partsOf? holder := by
  cases holder with
  | binding number => rw [partsOf?, partsOf?, same.bindings]
  | region number =>
      have groups (graph : PartGraph) : graph.partsOf? (.region number) =
          (graph.regions.map Region.wiring)[number]?.map fun region =>
            region.group.filterMap Piece.part? := by
        rw [Array.getElem?_map, Option.map_map]
        rfl
      rw [groups, groups, same.regions]

theorem wired (wired : graph.Wired)
    (kept : ∀ {number : Nat} {region : Region}, result.regions[number]? = some region → region.Kept) :
    result.Wired := by
  have holders := same.partsOf?_eq
  have holder_eq {left right : Part} (wiring : left.wiring = right.wiring) :
      left.target.holder = right.target.holder :=
    congrArg Part.Wiring.holder wiring
  refine ⟨?_, ?_, ?_, ?_, kept⟩
  · intro index part found
    have part_eq := same.part_eq index
    rw [found, Option.map_some] at part_eq
    obtain ⟨old, oldFound, wiring⟩ := Option.map_eq_some_iff.mp part_eq.symm
    rw [holders, ← holder_eq wiring]
    exact wired.held oldFound
  · intro holder own index found inside
    rw [holders] at found
    obtain ⟨old, oldFound, rfl⟩ := wired.known found inside
    have part_eq := same.part_eq index
    rw [oldFound, Option.map_some] at part_eq
    obtain ⟨part, partFound, wiring⟩ := Option.map_eq_some_iff.mp part_eq
    exact ⟨part, partFound, holder_eq wiring⟩
  · intro holder own found
    rw [holders] at found
    exact wired.consecutive found
  · intro first second earlier later before firstFound secondFound
    rw [holders] at firstFound secondFound
    exact wired.ascending before firstFound secondFound

end SameWiring

namespace Updates

theorem sameWiring (updates : graph.Updates result) : result.SameWiring graph := by
  cases updates with
  | @target index part new found wiring =>
      refine ⟨rfl, Array.ext_getElem? fun other => ?_, rfl, rfl⟩
      rw [Array.getElem?_map, Array.getElem?_map, parts_setTarget]
      split
      · rename_i same
        subst same
        rw [found, Option.map_some, Option.map_some, Option.map_some, wiring]
      · rfl
  | @region number old new found wiring _ =>
      refine ⟨rfl, rfl, rfl, Array.ext_getElem? fun other => ?_⟩
      rw [Array.getElem?_map, Array.getElem?_map, regions_setRegion]
      split
      · rename_i same
        subst same
        rw [found, Option.map_some, Option.map_some, Option.map_some, wiring]
      · rfl

theorem wired (updates : graph.Updates result) (wired : graph.Wired) : result.Wired := by
  refine updates.sameWiring.wired wired fun {number region} found => ?_
  cases updates with
  | target new _ _ => exact wired.kept found
  | @region changed old new oldFound wiring kept =>
      rw [regions_setRegion] at found
      split at found
      · rename_i same
        subst same
        rw [oldFound] at found
        cases found
        exact kept (wired.kept oldFound)
      · exact wired.kept found

end Updates

end PartGraph

namespace Scene

variable {scene result start : Scene} {area : NodeId → Prop}

/-! Making parts. -/

theorem wired_addRegion (wired : scene.graph.Wired) {level : Level}
    (inner : level.owning = true → level.parent?.isSome = true) (previous? next? : Option NodeId)
    (id : NodeId) (source : Source) :
    (scene.addRegion level previous? next? id source).2.graph.Wired := by
  obtain ⟨nested?, pieced⟩ := pieced_addPieces scene id source
  exact wired.pushRegion pieced.parted fun owning => ⟨inner owning, rfl⟩

theorem wired_addBinding (wired : scene.graph.Wired) (id : NodeId) (entry : Attribute) :
    (scene.addBinding id entry).graph.Wired := by
  cases templated : Token.templated? entry.value with
  | none =>
      simp only [addBinding, templated]
      exact wired
  | some tokens =>
      obtain ⟨pieces, later, parted, _, made⟩ := scene.exists_addBinding id templated
      rw [made]
      exact wired.pushBinding parted

theorem wired_addBindings (wired : scene.graph.Wired) (id : NodeId) :
    (scene.addBindings id).graph.Wired := by
  rw [addBindings]
  generalize (scene.document.content id).attributes = entries
  induction entries generalizing scene with
  | nil => exact wired
  | cons entry rest ih => exact ih (wired_addBinding wired id entry)

theorem Makes.wired (makes : Makes area scene result) (wired : scene.graph.Wired) :
    result.graph.Wired := by
  cases makes with
  | anchor needed =>
      cases needed with
      | false => exact wired
      | true => exact wired
  | region previous? next? id source inner => exact wired_addRegion wired inner previous? next? id source
  | bindings _ => exact wired_addBindings wired _
  | arrange parent ids => exact wired

/-- References are in order after every step of making parts, for any template. -/
theorem wired_of_making (making : Relation.ReflTransGen (Makes area) scene result)
    (wired : scene.graph.Wired) : result.graph.Wired := by
  induction making with
  | refl => exact wired
  | tail _ step ih => exact step.wired ih

theorem wired_instantiate (document : Document) (config : Config) (template : NodeId) :
    (instantiate document config template).graph.Wired :=
  wired_of_making (@making_instantiate (fun _ => True) document config template fun _ _ => trivial)
    (.empty _)

structure Worded (scene : Scene) : Prop where
  binding : ∀ {number : Nat} {binding : Binding} {text : String},
    scene.graph.bindings[number]? = some binding → .literal text ∈ binding.pieces → text ≠ ""
  region : ∀ {number : Nat} {region : Region} {id : NodeId},
    scene.graph.regions[number]? = some region → .literal id ∈ region.group →
      ∃ text, text ≠ "" ∧ scene.IsText id text

theorem worded_instantiate {document : Document} (wellFormed : document.WellFormed) (config : Config)
    (template : NodeId) : (instantiate document config template).Worded := by
  obtain ⟨slots, rows, made⟩ := exists_instantiated wellFormed config template
  constructor
  · intro number binding text found member
    rcases (fastens_instantiate wellFormed config template).origin
      (fun _ _ _ _ => made.unwritten.bound.keyed) number binding found with
      older | ⟨_, entry, tokens, _, _, _, spelled⟩
    · simp [PartGraph.empty] at older
    · obtain ⟨read, shown, rfl⟩ := spelled.exists_reads member
      exact shown
  · intro number region id found member
    obtain ⟨row, rowMember, before, source, after, split, _⟩ := made.planned.exists_row found
    obtain ⟨known, knownFound, spelled⟩ := made.shows row rowMember (.region number source)
      (by simp [split])
    cases found.symm.trans knownFound
    exact spelled.exists_reads member

/-! Writing to parts, and changes of the document. -/

theorem graph_reconcileBinding (scene : Scene) (number : Nat) :
    (scene.reconcileBinding number).graph = scene.graph := by
  rw [reconcileBinding]
  split <;> rfl

section
variable (document : Document) (graph : PartGraph) (index : Nat)

theorem updates_reconcileRegion : Relation.ReflTransGen PartGraph.Updates graph
    (reconcileRegion ⟨document, graph⟩ index).graph := by
  cases found : graph.regions[index]? with
  | none => simp only [reconcileRegion, found, Relation.ReflTransGen.refl]
  | some region =>
      rw [reconcileRegion_eq _ found]
      cases placed : region.place? document with
      | none => exact .single (.region _ _ found rfl fun kept => kept.lost placed)
      | some span =>
          exact .single (.region _ _ found (region.wiring_settle span _) fun kept => kept.settle span _)

theorem updates_setContent (content : List NodeId) : Relation.ReflTransGen PartGraph.Updates graph
    (setContent ⟨document, graph⟩ index content).graph := by
  rw [setContent]
  split
  · rename_i target
    obtain ⟨⟨expression, _⟩, found, rfl⟩ := Option.map_eq_some_iff.mp target
    exact .head (.target _ _ found (Part.wiring_nodes _ _ _ content _)) (updates_reconcileRegion _ _ _)
  · exact .refl

theorem updates_setAttributeValue (value? : Option String) :
    Relation.ReflTransGen PartGraph.Updates graph
      (setAttributeValue ⟨document, graph⟩ index value?).graph := by
  rw [setAttributeValue]
  split
  · rename_i target
    rw [graph_reconcileBinding]
    obtain ⟨⟨expression, _⟩, found, rfl⟩ := Option.map_eq_some_iff.mp target
    exact .single (.target _ (.attribute _ value?) found rfl)
  · exact .refl

theorem updates_setText (data : String) : Relation.ReflTransGen PartGraph.Updates graph
    (setText ⟨document, graph⟩ index data).graph := by
  simp only [setText]
  split
  · split
    · split
      · exact updates_reconcileRegion _ _ _
      · exact updates_setContent _ _ _ _
    · exact updates_setContent _ _ _ _
  · exact .refl

end

theorem updates_write (scene : Scene) (index : Nat) (write : Write) :
    Relation.ReflTransGen PartGraph.Updates scene.graph (scene.write index write).2.graph := by
  cases write with
  | value value? =>
      simp only [Scene.write, setValue]
      split
      · exact updates_setAttributeValue _ _ _ _
      · exact updates_setText _ _ _ _
      · exact .refl
  | boolean present =>
      simp only [Scene.write, setBoolean]
      split
      · exact updates_setAttributeValue _ _ _ _
      · exact .refl
  | items items =>
      simp only [Scene.write, replace]
      split
      · exact .refl
      · rw [← graph_realizeAll scene items]
        exact updates_setContent _ _ _ _
  | markup text =>
      simp only [Scene.write, replaceMarkup]
      split
      · exact .refl
      · exact updates_setContent _ _ _ _

inductive Step : Scene → Scene → Prop
  | write (scene : Scene) (index : Nat) (write : Write) : Step scene (scene.write index write).2
  | outside (scene : Scene) (document : Document) : Step scene { scene with document }

theorem Step.updates (step : scene.Step result) :
    Relation.ReflTransGen PartGraph.Updates scene.graph result.graph := by
  cases step with
  | write index write => exact updates_write scene index write
  | outside document => exact .refl

theorem wired_of_run (run : Relation.ReflTransGen Step start scene) (wired : start.graph.Wired) :
    scene.graph.Wired ∧ scene.graph.SameWiring start.graph := by
  have updates : Relation.ReflTransGen PartGraph.Updates start.graph scene.graph := by
    induction run with
    | refl => exact .refl
    | tail _ step ih => exact ih.trans step.updates
  generalize scene.graph = graph at updates
  induction updates with
  | refl => exact ⟨wired, .refl _⟩
  | tail _ step ih => exact ⟨step.wired ih.1, step.sameWiring.trans ih.2⟩

structure Positioned (scene : Scene) (index : Nat) (region : Region)
    (before after : List (Piece NodeId)) : Prop where
  split : region.group = before ++ .part index :: after
  earlier : .part index ∉ before
  later : .part index ∉ after
  previous : scene.previousOf? index =
    (before.flatMap scene.graph.pieceNodes).getLast?.or region.previous?
  next : scene.nextOf? index = (after.flatMap scene.graph.pieceNodes).head?.or region.next?

theorem exists_positioned (wired : scene.graph.Wired) {index number : Nat} {content : List NodeId}
    {nested? : Option Nested}
    (target : scene.graph.parts[index]?.map Part.target = some (.nodes number content nested?)) :
    ∃ region before after, scene.graph.regions[number]? = some region ∧
      scene.Positioned index region before after := by
  obtain ⟨part, partFound, same⟩ := Option.map_eq_some_iff.mp target
  obtain ⟨own, ownFound, once⟩ := wired.held partFound
  rw [same] at ownFound
  obtain ⟨region, found, rfl⟩ := Option.map_eq_some_iff.mp ownFound
  have member : .part index ∈ region.group :=
    Piece.mem_filterMap_part?.mp (List.count_pos_iff.mp (by omega))
  obtain ⟨before, after, split⟩ := List.append_of_mem member
  have fresh : .part index ∉ before ∧ .part index ∉ after := by
    rw [split, List.filterMap_append, List.count_append] at once
    change _ + List.count index (index :: after.filterMap Piece.part?) = 1 at once
    rw [List.count_cons_self] at once
    rw [← Piece.mem_filterMap_part?, ← Piece.mem_filterMap_part?, ← List.count_eq_zero,
      ← List.count_eq_zero]
    omega
  refine ⟨region, before, after, found, split, fresh.1, fresh.2, ?_, ?_⟩
  · rw [previousOf?_eq target found, PartGraph.earlier_of_split split fresh.1]
  · rw [nextOf?_eq target found, PartGraph.later_of_split split fresh.1]

def refillRegion (scene : Scene) (number : Nat) (region : Region) (parent : NodeId) : Scene where
  document := scene.document.refill parent (scene.graph.nodesOf region)
  graph := scene.graph.setRegion number
    { region with rendered := scene.graph.nodesOf region, detached := false }

theorem reconcileRegion_of_owning (wired : scene.graph.Wired) {number : Nat} {region : Region}
    (found : scene.graph.regions[number]? = some region) (owning : region.owning = true) :
    ∃ parent, region.parent? = some parent ∧
      scene.reconcileRegion number = scene.refillRegion number region parent := by
  obtain ⟨parent, recorded⟩ := Option.isSome_iff_exists.mp (wired.kept found owning).1
  refine ⟨parent, recorded, ?_⟩
  simp only [reconcileRegion, refillRegion, found, owning, recorded, if_true]

structure Consistent (start scene : Scene) : Prop where
  wired : scene.graph.Wired
  apart : ∀ {index : Nat} {part : Part} {holder : Holder} {own : List Nat},
    scene.graph.parts[index]? = some part → scene.graph.partsOf? holder = some own → index ∈ own →
      holder = part.target.holder
  keyed : scene.graph.Keyed
  same : scene.graph.SameWiring start.graph
  position : ∀ {index number : Nat} {content : List NodeId} {nested? : Option Nested},
    scene.graph.parts[index]?.map Part.target = some (.nodes number content nested?) →
      ∃ region before after, scene.graph.regions[number]? = some region ∧
        scene.Positioned index region before after
  attached : ∀ {number : Nat} {region : Region}, scene.graph.regions[number]? = some region →
    region.owning = true → region.detached = false ∧ ∃ parent, region.parent? = some parent ∧
      scene.reconcileRegion number = scene.refillRegion number region parent

theorem Consistent.of_run (run : Relation.ReflTransGen Step start scene) (wired : start.graph.Wired)
    (keyed : start.graph.Keyed) : Consistent start scene := by
  obtain ⟨wiredNow, same⟩ := wired_of_run run wired
  refine ⟨wiredNow, wiredNow.holder_eq, ?_, same, exists_positioned wiredNow, fun found owning => ?_⟩
  · rw [PartGraph.Keyed, same.bindings]
    exact keyed
  · exact ⟨(wiredNow.kept found owning).2, reconcileRegion_of_owning wiredNow found owning⟩

/-- The parts, bindings and regions of an instance refer to each other in the order in which they were
made, whatever is written to its parts and whatever happens to its document. No fixed piece of a new
instance is without text. -/
theorem consistent_of_run {document : Document} (wellFormed : document.WellFormed) (config : Config)
    (template : NodeId) : (instantiate document config template).Worded ∧
      ∀ scene, Relation.ReflTransGen Step (instantiate document config template) scene →
        Consistent (instantiate document config template) scene := by
  obtain ⟨slots, rows, made⟩ := exists_instantiated wellFormed config template
  refine ⟨worded_instantiate wellFormed config template, fun scene run => ?_⟩
  exact .of_run run (wired_instantiate document config template)
    fun _ _ _ _ => made.unwritten.bound.keyed

def wovenSource : Document :=
  (Document.new.graft (.node .fragment
    [.node (.element "p" [⟨.plain "class", "a\x7b\x7bk\x7d\x7d"⟩])
      [.node (.element "b" []) [.node (.text "\x7b\x7bx\x7d\x7d") []],
        .node (.text "\x7b\x7by\x7d\x7dc\x7b\x7bz\x7d\x7d") []]])).2

@[irreducible]
def wovenInstance : Scene :=
  instantiate wovenSource .standard ⟨1⟩

def wovenFrayed : Document :=
  ((wovenInstance.write 1 (.value (some "X"))).2.document.edit (.remove ⟨8⟩)).edit (.remove ⟨11⟩)

def wovenTorn : Scene :=
  (write ⟨wovenFrayed, (wovenInstance.write 1 (.value (some "X"))).2.graph⟩ 3 (.value (some "Z"))).2

theorem run_wovenTorn : Relation.ReflTransGen Step wovenInstance wovenTorn :=
  ((Relation.ReflTransGen.single (.write _ 1 (.value (some "X")))).tail (.outside _ wovenFrayed)).tail
    (.write _ 3 (.value (some "Z")))

theorem consistent_of_torn : wovenInstance.Worded ∧ Consistent wovenInstance wovenTorn ∧
    wovenTorn.graph.parts[3]?.map Part.wiring = some ⟨"z", .node, .region 1, none⟩ ∧
    wovenTorn.graph.partsOf? (.binding 0) = some [0] ∧
    wovenTorn.graph.partsOf? (.region 0) = some [1] ∧
    wovenTorn.graph.partsOf? (.region 1) = some [2, 3] ∧
    wovenTorn.graph.regions[1]?.map Region.detached = some true ∧
    wovenTorn.previousOf? 3 = some ⟨11⟩ := by
  have wellFormed : wovenSource.WellFormed :=
    Document.wellFormed_graft Document.wellFormed_new
      ⟨by simp [Tree.preorder, Tree.preorderForest, Content.attributes],
        by simp [Tree.children, Tree.preorder, Tree.preorderForest, Content.kind]⟩
  have run := run_wovenTorn
  have known := consistent_of_run wellFormed .standard ⟨1⟩
  rw [wovenInstance] at run ⊢
  exact ⟨known.1, known.2 _ run, by decide +kernel, by decide +kernel, by decide +kernel,
    by decide +kernel, by decide +kernel, by decide +kernel⟩

end Scene

end LiveTemplate
