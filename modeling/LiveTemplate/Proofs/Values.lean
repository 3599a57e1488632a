import LiveTemplate.Proofs.AttributeWrites
import LiveTemplate.Proofs.InPlace
import LiveTemplate.Proofs.Substitution

/-! Instances whose parts are only given values: every slot still shows what it did at the start, and
every part shows the value that it was given last. -/

namespace LiveTemplate.Scene

structure Valued (scene start : Scene) (rows : List Row) (given : Nat → Option (Option String)) :
    Prop extends scene.Live start rows where
  bound : scene.graph.Bound
  shows : ∀ row ∈ rows, ∀ slot ∈ row.slots, scene.Shows slot
  kinds : scene.document.KeepsKinds start.document
  expressions : ∀ part : Nat, scene.graph.parts[part]?.map Part.expression =
    start.graph.parts[part]?.map Part.expression
  stored : ∀ {index number : Nat} {value? : Option String},
    scene.graph.parts[index]?.map Part.target = some (.attribute number value?) →
      value?.getD "" = (given index).join.getD "" ∧
        (∀ binding, scene.graph.bindings[number]? = some binding → binding.isWhole = true →
          value? = (given index).getD (some ""))
  displayed : ∀ {index number : Nat} {content : List NodeId} {nested? : Option Nested},
    scene.graph.parts[index]?.map Part.target = some (.nodes number content nested?) →
      content = [] ∧ given index = none ∨
        ∃ id, content = [id] ∧ scene.IsText id ((given index).join.getD "") ∧ ¬ start.document.Has id

variable {scene start result : Scene} {rows : List Row} {given : Nat → Option (Option String)}
  {index number : Nat} {content shown : List NodeId} {nested? : Option Nested}
  {value? old? : Option String} {document : Document}

theorem isWhole_of_target {binding : Binding}
    (target : scene.graph.parts[index]?.map Part.target = some (.attribute number old?))
    (found : scene.graph.bindings[number]? = some binding) :
    scene.isWhole index = binding.isWhole := by
  simp only [isWhole, target, found, Option.map_some, Option.getD_some]

theorem setValue_of_none (target : scene.graph.parts[index]?.map Part.target = none)
    (value? : Option String) : scene.setValue index value? = scene := by
  simp only [setValue, target]

theorem setValue_of_attribute {binding : Binding}
    (target : scene.graph.parts[index]?.map Part.target = some (.attribute number old?))
    (found : scene.graph.bindings[number]? = some binding) (value? : Option String) :
    let new? := if binding.isWhole then value? else some (value?.getD "")
    let graph := scene.graph.setTarget index (.attribute number new?)
    scene.setValue index value? =
      ⟨scene.document.putAttribute binding.element binding.name (graph.valueOf binding), graph⟩ := by
  intro new? graph
  have whole := isWhole_of_target target found
  have foundNow : (⟨scene.document, graph⟩ : Scene).graph.bindings[number]? = some binding := found
  simp only [setValue, target, setAttributeValue, whole]
  exact reconcileBinding_eq _ foundNow

theorem Valued.of_attribute (valued : scene.Valued start rows given)
    (target : scene.graph.parts[index]?.map Part.target = some (.attribute number old?))
    (value? : Option String) :
    (scene.setValue index value?).Valued start rows (Function.update given index (some value?)) := by
  obtain ⟨binding, found, _⟩ := valued.bound.part target
  have live : (scene.setValue index value?).Live start rows :=
    valued.toLive.of_quiet (scene.quiet_write (by simp [target]) (.value value?))
  rw [setValue_of_attribute target found] at live ⊢
  generalize newEq : (if binding.isWhole then value? else some (value?.getD "")) = new? at live ⊢
  have expressions := scene.graph.expression_setTarget index (.attribute number new?)
  refine ⟨live, valued.bound.setTarget target (by simp), ?_, ?_, ?_, ?_, ?_⟩
  · intro row member slot slotMember
    have shows := valued.shows row member slot slotMember
    cases slot with
    | node id content => exact Displays.put shows valued.bound target found new?
    | region other source =>
        obtain ⟨region, regionFound, spelled⟩ := shows
        refine ⟨region, regionFound, spelled.congr ?_ ?_⟩
        · intro id text _ reads
          exact ⟨Document.content_putAttribute_text reads.1,
            (Document.children_setContent _ _ _ _).trans reads.2⟩
        · intro part expression _ known
          rw [expressions, known]
  · exact Document.keepsKinds_putAttribute.trans valued.kinds
  · exact fun part => (expressions part).trans (valued.expressions part)
  · intro other otherNumber otherValue? otherTarget
    rcases PartGraph.target_of_setTarget otherTarget with ⟨rfl, same⟩ | ⟨differ, older⟩
    · cases same
      rw [Function.update_self, ← newEq]
      constructor
      · cases binding.isWhole <;> cases value? <;> simp
      · intro known knownFound isWhole
        cases found.symm.trans knownFound
        rw [if_pos isWhole]
        rfl
    · rw [Function.update_of_ne (Ne.symm differ)]
      exact valued.stored older
  · intro other otherNumber content nested? otherTarget
    rcases PartGraph.target_of_setTarget otherTarget with ⟨_, same⟩ | ⟨differ, older⟩
    · cases same
    · rw [Function.update_of_ne (Ne.symm differ)]
      refine (valued.displayed older).imp_right ?_
      rintro ⟨id, only, text, new⟩
      exact ⟨id, only, ⟨Document.content_putAttribute_text text.1,
        (Document.children_setContent _ _ _ _).trans text.2⟩, new⟩

theorem Valued.exists_text (valued : scene.Valued start rows given)
    (target : scene.graph.parts[index]?.map Part.target = some (.nodes number content nested?))
    (prepared : scene.Prepares number content (.value value?) document shown) :
    ∃ id, shown = [id] ∧ document.content id = .text (value?.getD "") ∧ document.children id = [] ∧
      ¬ start.document.Has id := by
  obtain ⟨id, only, held, ⟨single, children⟩ | ⟨fresh, children⟩⟩ := prepared.exists_text
  · rcases valued.displayed target with ⟨nothing, _⟩ | ⟨other, one, text, new⟩
    · rw [nothing] at single
      cases single
    · cases single.symm.trans one
      exact ⟨id, only, held, children.trans text.2, new⟩
  · exact ⟨id, only, held, children, fun old => fresh (valued.has id old)⟩

section
variable {row : Row} {before after : List Slot} {region : Region}
  (exchange : Exchange start scene result rows document
    (scene.graph.setTarget index (.nodes number shown nested?)) number region row before after)
  (prepared : scene.Prepares number content (.value value?) document shown)

include exchange prepared

theorem Exchange.content_eq {id : NodeId} (has : scene.document.Has id) (outside : id ∉ content) :
    result.document.content id = scene.document.content id := by
  rw [exchange.regrouped.content, prepared.content_eq has outside]

theorem Exchange.isText {id : NodeId} {text : String} (tall : scene.document.kind row.home ≠ .text)
    (known : scene.IsText id text) (outside : id ∉ content) : result.IsText id text := by
  have has := Document.has_of_text known.1
  refine ⟨(exchange.content_eq prepared has outside).trans known.1, ?_⟩
  rw [exchange.regrouped.children, if_neg, prepared.links.children_eq id has, known.2]
  · rfl
  · rintro rfl
    exact tall (by rw [Document.kind, known.1]; rfl)

theorem Exchange.shows (tall : scene.document.kind row.home ≠ .text)
    (valued : scene.Valued start rows given)
    (target : scene.graph.parts[index]?.map Part.target = some (.nodes number content nested?)) :
    ∀ other ∈ rows, ∀ slot ∈ other.slots, result.Shows slot := by
  have live := valued.toLive
  have expressions := scene.graph.expression_setTarget index (.nodes number shown nested?)
  have parts : result.graph.parts =
      (scene.graph.setTarget index (.nodes number shown nested?)).parts := by rw [exchange.graph]; rfl
  have bindings : result.graph.bindings = scene.graph.bindings := by rw [exchange.graph]; rfl
  intro other otherMember slot slotMember
  have shows := valued.shows other otherMember slot slotMember
  cases slot with
  | node id fixed =>
      have has : scene.document.Has id :=
        Document.has_of_parent? (live.planned.parent?_of_slot live.wellFormed otherMember slotMember
          (by simp [PartGraph.slotNodes]))
      refine Displays.congr shows bindings (fun part => by rw [parts, expressions]) ?_
        (exchange.content_eq prepared has
          (live.planned.not_shown_of_slot live.toSound target otherMember slotMember))
      intro otherNumber binding found _
      apply PartGraph.valueOf_congr
      intro part member
      rw [parts]
      apply PartGraph.value?_setTarget_of_ne
      rintro rfl
      obtain ⟨_, otherTarget⟩ := valued.bound.piece found member
      cases target.symm.trans otherTarget
  | region otherNumber source =>
      obtain ⟨otherRegion, found, spelled⟩ := shows
      have spelledNow : result.graph.Spelled result.IsText source.tokens otherRegion.group := by
        refine spelled.congr ?_ fun part expression _ known => by rw [parts, expressions, known]
        intro id text literal reads
        exact exchange.isText prepared tall reads
          (live.planned.not_shown_of_literal live.toSound target found literal)
      rw [Shows, exchange.regions_eq]
      split
      · rename_i same
        subst same
        cases exchange.found.symm.trans found
        exact ⟨_, rfl, spelledNow⟩
      · exact ⟨otherRegion, found, spelledNow⟩

end

/-- Giving a value to a part of a region. A region never stands below a text, so that texts stay
without children. -/
theorem Valued.of_nodes (valued : scene.Valued start rows given)
    (tall : ∀ row ∈ rows, row.regions ≠ [] → start.document.kind row.home ≠ .text)
    (target : scene.graph.parts[index]?.map Part.target = some (.nodes number content nested?))
    (value? : Option String) :
    (scene.setValue index value?).Valued start rows (Function.update given index (some value?)) := by
  have live := valued.toLive
  obtain ⟨document, shown, prepared, set⟩ := scene.exists_prepared target value?
  have unique : (Write.value value?).nodes.Nodup := List.nodup_nil
  have brought : ∀ id ∈ (Write.value value?).nodes, scene.document.Has id ∧
      ¬ start.document.Has id ∧ scene.document.parent? id = none := by rintro _ ⟨⟩
  obtain ⟨region, row, before, after, exchange⟩ := live.exists_exchange target prepared unique brought
  have resultLive := live.of_prepares target prepared unique brought
  obtain ⟨new, shownEq, newText, newChildren, newMissing⟩ := valued.exists_text target prepared
  rw [set]
  generalize reconcileRegion ⟨document, scene.graph.setTarget index (.nodes number shown nested?)⟩
    number = result at exchange resultLive ⊢
  have parts : result.graph.parts =
      (scene.graph.setTarget index (.nodes number shown nested?)).parts := by rw [exchange.graph]; rfl
  have bindings : result.graph.bindings = scene.graph.bindings := by rw [exchange.graph]; rfl
  have homeOld := live.homes row exchange.member
  -- The parent of the region is no text, so that no text that a part shows gets children.
  have homeKind : scene.document.kind row.home ≠ .text := by
    obtain ⟨source, split⟩ := exchange.split
    rw [valued.kinds.kind_eq homeOld]
    refine tall row exchange.member ?_
    rw [Row.regions, split, List.flatMap_append, List.flatMap_cons]
    simp [Slot.regions]
  refine ⟨resultLive, (valued.bound.setTarget target (by simp)).congr parts bindings,
    exchange.shows prepared homeKind valued target,
    exchange.regrouped.keepsKinds.trans (prepared.kinds.trans valued.kinds), ?_, ?_, ?_⟩
  · exact fun part => by rw [parts, PartGraph.expression_setTarget, valued.expressions]
  · intro other otherNumber otherValue? otherTarget
    rw [parts] at otherTarget
    rcases PartGraph.target_of_setTarget otherTarget with ⟨_, same⟩ | ⟨differ, older⟩
    · cases same
    · rw [Function.update_of_ne (Ne.symm differ), bindings]
      exact valued.stored older
  · intro other otherNumber otherContent otherNested? otherTarget
    rw [parts] at otherTarget
    rcases PartGraph.target_of_setTarget otherTarget with ⟨rfl, same⟩ | ⟨differ, older⟩
    · cases same
      rw [Function.update_self]
      refine Or.inr ⟨new, shownEq, ⟨?_, ?_⟩, newMissing⟩
      · rw [exchange.regrouped.content, newText]
        rfl
      · rw [exchange.regrouped.children, if_neg, newChildren]
        · rfl
        · rintro rfl
          exact newMissing homeOld
    · rw [Function.update_of_ne (Ne.symm differ)]
      refine (valued.displayed older).imp_right ?_
      rintro ⟨id, rfl, text, missing⟩
      exact ⟨id, rfl, exchange.isText prepared homeKind text (live.planned.not_shown_of_part live.toSound
        target older (Ne.symm differ) (List.mem_singleton_self id)), missing⟩

theorem Valued.congr {others : Nat → Option (Option String)} (valued : scene.Valued start rows given)
    (same : ∀ index : Nat, (scene.graph.parts[index]?).isSome = true → others index = given index) :
    scene.Valued start rows others := by
  have known {index : Nat} {target : Target}
      (found : scene.graph.parts[index]?.map Part.target = some target) : others index = given index := by
    obtain ⟨part, partFound, _⟩ := Option.map_eq_some_iff.mp found
    exact same index (by rw [partFound]; rfl)
  refine ⟨valued.toLive, valued.bound, valued.shows, valued.kinds, valued.expressions, ?_, ?_⟩
  · intro index number value? target
    rw [known target]
    exact valued.stored target
  · intro index number content nested? target
    rw [known target]
    exact valued.displayed target

theorem Valued.of_value (valued : scene.Valued start rows given)
    (tall : ∀ row ∈ rows, row.regions ≠ [] → start.document.kind row.home ≠ .text) (index : Nat)
    (value? : Option String) :
    (scene.setValue index value?).Valued start rows (Function.update given index (some value?)) := by
  cases target : scene.graph.parts[index]?.map Part.target with
  | none =>
      rw [setValue_of_none target]
      refine valued.congr fun other known => Function.update_of_ne ?_ _ _
      rintro rfl
      rw [Option.map_eq_none_iff.mp target] at known
      cases known
  | some found =>
      rcases found with ⟨number, old?⟩ | ⟨number, content, nested?⟩
      · exact valued.of_attribute target value?
      · exact valued.of_nodes tall target value?

def gives (start : Scene) (values : String → Option (Option String)) (index : Nat) :
    Option (Option String) :=
  (start.graph.parts[index]?.map Part.expression).bind values

theorem shown_assigned? (scene : Scene) (state : Json) (index : Nat) :
    (scene.assigned? state index).map Json.shown = scene.gives state.given? index := by
  rw [gives, assigned?]
  cases members : state.members? with
  | none => cases scene.graph.parts[index]? <;> simp [Json.given?, members]
  | some known => cases scene.graph.parts[index]? <;> simp [Json.given?, members]

theorem assigned?_congr {state : Json}
    (same : result.graph.parts[index]?.map Part.expression =
      scene.graph.parts[index]?.map Part.expression) :
    result.assigned? state index = scene.assigned? state index := by
  rw [assigned?, assigned?]
  cases state.members? with
  | none => rfl
  | some members =>
      cases found : scene.graph.parts[index]? <;> cases other : result.graph.parts[index]? <;>
        simp_all

theorem Valued.assigned? (valued : scene.Valued start rows given) (state : Json) (index : Nat) :
    (scene.assigned? state index).map Json.shown = start.gives state.given? index := by
  rw [shown_assigned?, gives, gives, valued.expressions]

theorem Valued.assign (valued : scene.Valued start rows given)
    (tall : ∀ row ∈ rows, row.regions ≠ [] → start.document.kind row.home ≠ .text) (state : Json)
    (index : Nat) : (Scene.assign state scene index).Valued start rows
      (Function.update given index ((start.gives state.given? index).or (given index))) := by
  rw [← valued.assigned?, Scene.assign]
  cases scene.assigned? state index with
  | none =>
      rw [Option.map_none, Option.none_or, Function.update_eq_self]
      exact valued
  | some value => exact valued.of_value tall index value.shown

theorem Valued.foldl_assign (valued : scene.Valued start rows given)
    (tall : ∀ row ∈ rows, row.regions ≠ [] → start.document.kind row.home ≠ .text) (state : Json)
    (indices : List Nat) : (indices.foldl (Scene.assign state) scene).Valued start rows fun index =>
      if index ∈ indices then (start.gives state.given? index).or (given index) else given index := by
  induction indices generalizing scene given with
  | nil => simpa using valued
  | cons first rest ih =>
      refine (ih (valued.assign tall state first)).congr fun index _ => ?_
      by_cases same : index = first
      · subst same
        simp only [List.mem_cons_self, if_true, Function.update_self]
        split
        · cases start.gives state.given? index <;> rfl
        · rfl
      · simp [same]

theorem Valued.assignAll (valued : scene.Valued start rows given)
    (tall : ∀ row ∈ rows, row.regions ≠ [] → start.document.kind row.home ≠ .text) (state : Json) :
    (scene.assignAll state).Valued start rows fun index =>
      (start.gives state.given? index).or (given index) := by
  have folded := valued.foldl_assign tall state (List.range scene.graph.parts.size)
  refine folded.congr fun index known => ?_
  have same := (folded.expressions index).trans (valued.expressions index).symm
  have present : (scene.graph.parts[index]?).isSome = true := by
    have mapped := congrArg Option.isSome same
    rwa [Option.isSome_map, Option.isSome_map, known, eq_comm] at mapped
  obtain ⟨part, found⟩ := Option.isSome_iff_exists.mp present
  rw [if_pos (List.mem_range.mpr (Array.getElem?_eq_some_iff.mp found).1)]

theorem Valued.later {states : List Json} (valued : scene.Valued start rows (start.gives (Json.last? states)))
    (tall : ∀ row ∈ rows, row.regions ≠ [] → start.document.kind row.home ≠ .text) (state : Json) :
    (scene.assignAll state).Valued start rows (start.gives (Json.last? (states ++ [state]))) := by
  refine (valued.assignAll tall state).congr fun index _ => ?_
  rw [gives, gives, gives]
  cases start.graph.parts[index]?.map Part.expression with
  | none => rfl
  | some expression => exact Json.last?_append states state expression

theorem Instantiated.valued {config : Config} {template : NodeId} {slots : List Slot}
    (made : Instantiated document config template start slots rows) :
    start.Valued start (⟨start.graph.fragment, none, slots⟩ :: rows) (start.gives (Json.last? [])) := by
  have nothing (index : Nat) : start.gives (Json.last? []) index = none := by
    rw [gives]
    cases start.graph.parts[index]?.map Part.expression <;> rfl
  refine ⟨made.live, made.unwritten.bound, made.shows, .refl _, fun _ => rfl, ?_, ?_⟩
  · intro index number value? target
    rw [made.unwritten.initial target, nothing]
    exact ⟨rfl, fun _ _ _ => rfl⟩
  · intro index number content nested? target
    have empty := made.unwritten.empty index
    rw [PartGraph.contentOf_of_target target] at empty
    exact Or.inl ⟨empty, nothing index⟩

theorem Instantiated.tall {config : Config} {template : NodeId} {slots : List Slot}
    (made : Instantiated document config template start slots rows)
    (nests : Tree.NestsAll (fun content => content.kind ≠ .text) (document.forest template)) :
    ∀ row ∈ (⟨start.graph.fragment, none, slots⟩ :: rows : List Row), row.regions ≠ [] →
      start.document.kind row.home ≠ .text := by
  intro row member regions
  obtain ⟨index, inside⟩ := List.exists_mem_of_ne_nil _ regions
  rcases made.planned.recorded row member with below | ⟨_, atFragment⟩
  · obtain ⟨slot, slotMember, inSlot⟩ := List.mem_flatMap.mp inside
    rcases slot with ⟨id, content⟩ | ⟨number, source⟩
    · cases inSlot
    · obtain ⟨before, after, split⟩ := List.append_of_mem slotMember
      have framed := made.planned.framed row member
      rw [split] at framed
      obtain ⟨region, found, fits⟩ := framed.fits
      exact made.within (· ≠ .text) nests region (Array.mem_of_getElem? found) row.home
        (fits.parent.trans below)
  · rw [atFragment, made.fragment]
    decide

end LiveTemplate.Scene
