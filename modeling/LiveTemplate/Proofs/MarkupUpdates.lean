import LiveTemplate.Proofs.Copies
import LiveTemplate.Proofs.Parallel
import LiveTemplate.Proofs.Refusals
import LiveTemplate.Proofs.Renaming
import LiveTemplate.Proofs.Steadiness

/-! Updates with markup: they end at the first part whose value cannot be read. The parts before it have
their new content by then, and all others have what they had. -/

namespace LiveTemplate

namespace Document

variable {document : Document}

theorem WellFormed.tree_of_extends {result : Document} (wellFormed : document.WellFormed)
    (resultWellFormed : result.WellFormed) (extended : result.Extends document) {id : NodeId}
    (bound : document.Has id) : result.tree id = document.tree id := by
  refine wellFormed.tree_congr resultWellFormed fun other below => ?_
  have old := Document.has_of_isAbove below bound
  exact ⟨extended.content_eq old, extended.children_eq old⟩

theorem read?_eq_some {text : String} {fragment : NodeId} {parsed : Document}
    (wellFormed : document.WellFormed) (read : document.read? text = some (fragment, parsed)) :
    ¬ document.Has fragment ∧ parsed.parent? fragment = none ∧ parsed.WellFormed ∧
      parsed.Extends document ∧ ∃ trees, Markup.read? text.toList = some trees ∧
        (parsed.children fragment).map parsed.tree = trees := by
  obtain ⟨trees, treesRead, rfl, rfl⟩ := Scene.Prepares.exists_graft read
  have plantable := Markup.plantable_read treesRead
  have formed := wellFormed_graft wellFormed plantable
  refine ⟨Nat.lt_irrefl _, parent?_graft .., formed, extends_graft .., trees, treesRead, ?_⟩
  rw [← formed.forest_eq]
  exact congrArg Tree.children (tree_graft wellFormed plantable)

end Document

namespace Scene

variable {scene start result middle : Scene} {rows : List Row} {index number limit : Nat}
  {content : List NodeId} {nested? : Option Nested} {values later : Nat → Option (Option String)}
  {state : Json} {expression : String} {old? : Option String} {parsed : Document}
  {fragment root : NodeId} {text : String}

theorem Live.tree_of_read (live : scene.Live start rows)
    (target : scene.graph.parts[index]?.map Part.target = some (.nodes number content nested?))
    (read : scene.document.read? text = some (fragment, parsed))
    (foreign : ¬ start.document.Has root) (inner : root ≠ fragment) :
    let shown : Target := .nodes number (parsed.children fragment) nested?
    (reconcileRegion ⟨parsed, scene.graph.setTarget index shown⟩ number).document.tree root =
      parsed.tree root := by
  intro shown
  have prepared : scene.Prepares number content (.markup text) parsed (parsed.children fragment) :=
    .markup read
  have brought : ∀ id ∈ (Write.markup text).nodes, scene.document.Has id ∧
      ¬ start.document.Has id ∧ scene.document.parent? id = none := by
    rintro _ ⟨⟩
  obtain ⟨region, row, before, after, exchange⟩ :=
    live.exists_exchange target prepared List.nodup_nil brought
  have resultLive := live.of_prepares target prepared List.nodup_nil brought
  obtain ⟨source, split⟩ := exchange.split
  obtain ⟨_, topmost, wellFormed, _⟩ := Document.read?_eq_some live.wellFormed read
  have apart {id : NodeId} (below : parsed.IsAbove root id) : id ≠ row.home := by
    rintro rfl
    have home := live.planned.has row exchange.member
    rw [exchange.links.isAbove_iff live.wellFormed home] at below
    exact foreign (live.has_of_isAbove below (live.homes row exchange.member))
  have outside : ¬ parsed.IsAbove root fragment := by
    intro below
    rcases Relation.ReflTransGen.cases_tail below with same | ⟨upper, _, linked⟩
    · exact inner same.symm
    · cases topmost.symm.trans linked
  refine wellFormed.tree_congr resultLive.wellFormed fun id below => ⟨exchange.regrouped.content id,
    exchange.regrouped.children_eq wellFormed (apart below) fun child listed linked => ?_⟩
  rcases live.mem_of_listed target exchange.member split exchange.found listed with inside | inside
  · have home := (live.wellFormed.linked row.home child).mp inside
    rw [exchange.links.parent?_eq child (Document.has_of_parent? home), home] at linked
    exact apart below (Option.some.inj linked).symm
  · rw [(wellFormed.linked fragment child).mp inside] at linked
    exact outside (Option.some.inj linked ▸ below)

theorem Steady.tree_of_attribute (steady : scene.Steady start rows)
    (target : scene.graph.parts[index]?.map Part.target = some (.attribute number old?))
    (value? : Option String) (foreign : ¬ start.document.Has root) :
    (scene.setValue index value?).document.tree root = scene.document.tree root := by
  have wellFormed := (steady.of_value index value?).wellFormed
  obtain ⟨given, shows⟩ := steady.shows
  obtain ⟨binding, found, _⟩ := shows.bound.part target
  have element := (shows.shown number binding (shows.bindings ▸ found)).1
  have old : start.document.Has binding.element := Document.has_of_kind (by rw [element]; decide)
  rw [setValue_of_attribute target found] at wellFormed ⊢
  refine steady.wellFormed.tree_congr wellFormed fun id below => ⟨?_, Document.children_setContent ..⟩
  rw [Document.content_putAttribute, if_neg]
  rintro rfl
  exact foreign (steady.has_of_isAbove below old)

/-- What giving some of the parts values makes of a scene, where the values of nodes are read as markup:
these parts have new content, and all others have what they had. -/
structure Renewed (scene : Scene) (values : Nat → Option (Option String)) (result : Scene) : Prop where
  size : result.graph.parts.size = scene.graph.parts.size
  bindings : result.graph.bindings = scene.graph.bindings
  stored : ∀ {index number : Nat} {expression : String} {old? value? : Option String},
    values index = some value? →
      scene.graph.parts[index]? = some ⟨expression, .attribute number old?⟩ →
        result.graph.parts[index]? = some ⟨expression, .attribute number
          (if scene.isWhole index then value? else some (value?.getD ""))⟩
  shown : ∀ {index number : Nat} {expression : String} {content : List NodeId}
    {nested? : Option Nested} {value? : Option String}, values index = some value? →
      scene.graph.parts[index]? = some ⟨expression, .nodes number content nested?⟩ →
        ∃ shown trees, Markup.read? (value?.getD "").toList = some trees ∧
          result.graph.parts[index]? = some ⟨expression, .nodes number shown nested?⟩ ∧
            shown.map result.document.tree = trees
  kept : ∀ {index : Nat}, values index = none →
    result.graph.parts[index]? = scene.graph.parts[index]? ∧
      ∀ id ∈ scene.graph.contentOf index, result.document.tree id = scene.document.tree id

namespace Renewed

theorem refl (scene : Scene) : scene.Renewed (fun _ => none) scene :=
  ⟨rfl, rfl, by rintro _ _ _ _ _ ⟨⟩, by rintro _ _ _ _ _ _ ⟨⟩, fun _ => ⟨rfl, fun _ _ => rfl⟩⟩

theorem exists_attribute (renewed : scene.Renewed values result)
    (found : scene.graph.parts[index]? = some ⟨expression, .attribute number old?⟩) :
    ∃ new?, result.graph.parts[index]? = some ⟨expression, .attribute number new?⟩ := by
  cases given : values index with
  | some value? => exact ⟨_, renewed.stored given found⟩
  | none => exact ⟨old?, (renewed.kept given).1.trans found⟩

theorem exists_nodes (renewed : scene.Renewed values result)
    (found : scene.graph.parts[index]? = some ⟨expression, .nodes number content nested?⟩) :
    ∃ shown, result.graph.parts[index]? = some ⟨expression, .nodes number shown nested?⟩ := by
  cases given : values index with
  | some value? =>
      obtain ⟨shown, _, _, now, _⟩ := renewed.shown given found
      exact ⟨shown, now⟩
  | none => exact ⟨content, (renewed.kept given).1.trans found⟩

theorem exists_part (renewed : scene.Renewed values result) {part : Part}
    (found : scene.graph.parts[index]? = some part) :
    ∃ now, result.graph.parts[index]? = some now ∧ now.expression = part.expression ∧
      now.kind = part.kind := by
  obtain ⟨expression, ⟨number, old?⟩ | ⟨number, content, nested?⟩⟩ := part
  · obtain ⟨new?, now⟩ := renewed.exists_attribute found
    exact ⟨_, now, rfl, rfl⟩
  · obtain ⟨shown, now⟩ := renewed.exists_nodes found
    exact ⟨_, now, rfl, by cases nested? <;> rfl⟩

theorem exists_part_before (renewed : scene.Renewed values result) {now : Part}
    (found : result.graph.parts[index]? = some now) :
    ∃ part, scene.graph.parts[index]? = some part ∧ now.expression = part.expression ∧
      now.kind = part.kind := by
  have bound := (Array.getElem?_eq_some_iff.mp found).1
  rw [renewed.size] at bound
  have before := Array.getElem?_eq_getElem bound
  obtain ⟨other, otherFound, expression, kind⟩ := renewed.exists_part before
  cases otherFound.symm.trans found
  exact ⟨_, before, expression, kind⟩

theorem isWhole_eq (renewed : scene.Renewed values result)
    (found : scene.graph.parts[index]? = some ⟨expression, .attribute number old?⟩) :
    result.isWhole index = scene.isWhole index := by
  obtain ⟨new?, now⟩ := renewed.exists_attribute found
  simp only [isWhole, found, now, renewed.bindings, Option.map_some]

theorem gives_eq (renewed : scene.Renewed values result) (known : String → Option (Option String))
    (index : Nat) : result.gives known index = scene.gives known index := by
  rw [gives, gives]
  cases found : scene.graph.parts[index]? with
  | some part =>
      obtain ⟨now, nowFound, expression, _⟩ := renewed.exists_part found
      rw [nowFound, Option.map_some, Option.map_some, expression]
  | none =>
      rw [Array.getElem?_eq_none_iff, ← renewed.size, ← Array.getElem?_eq_none_iff] at found
      rw [found]

theorem contentOf_eq (renewed : scene.Renewed values result) (given : values index = none) :
    result.graph.contentOf index = scene.graph.contentOf index := by
  rw [PartGraph.contentOf, (renewed.kept given).1, PartGraph.contentOf]

/-- Values that are given later count, where there are any. -/
theorem trans (renewed : scene.Renewed values middle) (again : middle.Renewed later result) :
    scene.Renewed (fun index => (later index).or (values index)) result where
  size := again.size.trans renewed.size
  bindings := again.bindings.trans renewed.bindings
  stored := by
    intro index number expression old? value? given found
    obtain ⟨new?, now⟩ := renewed.exists_attribute found
    cases last : later index with
    | some other? =>
        rw [last, Option.some_or, Option.some.injEq] at given
        rw [again.stored last now, renewed.isWhole_eq found, given]
    | none =>
        rw [last, Option.none_or] at given
        rw [(again.kept last).1, renewed.stored given found]
  shown := by
    intro index number expression content nested? value? given found
    obtain ⟨shown, now⟩ := renewed.exists_nodes found
    cases last : later index with
    | some other? =>
        rw [last, Option.some_or, Option.some.injEq] at given
        rw [← given]
        exact again.shown last now
    | none =>
        rw [last, Option.none_or] at given
        obtain ⟨shown, trees, read, now, same⟩ := renewed.shown given found
        obtain ⟨part, kept⟩ := again.kept last
        have contentEq : middle.graph.contentOf index = shown := by
          rw [PartGraph.contentOf, now]
          rfl
        refine ⟨shown, trees, read, part.trans now, ?_⟩
        rw [← same]
        exact List.map_congr_left fun id member => kept id (contentEq ▸ member)
  kept := by
    intro index given
    obtain ⟨last, first⟩ := Option.or_eq_none_iff.mp given
    obtain ⟨part, same⟩ := renewed.kept first
    obtain ⟨partLater, sameLater⟩ := again.kept last
    exact ⟨partLater.trans part, fun id member =>
      (sameLater id (renewed.contentOf_eq first ▸ member)).trans (same id member)⟩

end Renewed

section
variable {value? : Option String}

theorem Renewed.single (size : result.graph.parts.size = scene.graph.parts.size)
    (bindings : result.graph.bindings = scene.graph.bindings)
    (stored : ∀ {number : Nat} {expression : String} {old? : Option String},
      scene.graph.parts[index]? = some ⟨expression, .attribute number old?⟩ →
        result.graph.parts[index]? = some ⟨expression, .attribute number
          (if scene.isWhole index then value? else some (value?.getD ""))⟩)
    (shown : ∀ {number : Nat} {expression : String} {content : List NodeId} {nested? : Option Nested},
      scene.graph.parts[index]? = some ⟨expression, .nodes number content nested?⟩ →
        ∃ shown trees, Markup.read? (value?.getD "").toList = some trees ∧
          result.graph.parts[index]? = some ⟨expression, .nodes number shown nested?⟩ ∧
            shown.map result.document.tree = trees)
    (kept : ∀ {other : Nat}, index ≠ other →
      result.graph.parts[other]? = scene.graph.parts[other]? ∧
        ∀ id ∈ scene.graph.contentOf other, result.document.tree id = scene.document.tree id) :
    scene.Renewed (Function.update (fun _ => none) index (some value?)) result := by
  have only {other : Nat} {other? : Option String}
      (given : Function.update (fun _ => none) index (some value?) other = some other?) :
      other = index ∧ value? = other? := by
    rw [Function.update_apply] at given
    split at given
    · exact ⟨by assumption, Option.some.inj given⟩
    · cases given
  refine ⟨size, bindings, ?_, ?_, ?_⟩
  · intro other number expression old? other? given found
    obtain ⟨rfl, rfl⟩ := only given
    exact stored found
  · intro other number expression content nested? other? given found
    obtain ⟨rfl, rfl⟩ := only given
    exact shown found
  · intro other given
    apply kept
    rintro rfl
    rw [Function.update_self] at given
    cases given

theorem Steady.renewed_of_attribute (steady : scene.Steady start rows)
    (target : scene.graph.parts[index]?.map Part.target = some (.attribute number old?)) :
    scene.Renewed (Function.update (fun _ => none) index (some value?)) (scene.setValue index value?) := by
  obtain ⟨given, shows⟩ := steady.shows
  obtain ⟨binding, bound, _⟩ := shows.bound.part target
  have whole := isWhole_of_target target bound
  have trees {root : NodeId} (foreign : ¬ start.document.Has root) :=
    steady.tree_of_attribute target value? foreign
  rw [setValue_of_attribute target bound value?] at trees ⊢
  refine .single (Array.size_modify ..) rfl ?_ ?_ ?_
  · intro otherNumber expression otherOld? found
    rw [found, Option.map_some, Option.some.injEq] at target
    cases target
    rw [PartGraph.parts_setTarget, if_pos rfl, found, whole]
    rfl
  · intro otherNumber expression content nested? found
    rw [found] at target
    cases target
  · intro other differ
    refine ⟨?_, fun id member => trees (steady.fresh member)⟩
    rw [PartGraph.parts_setTarget, if_neg differ]

theorem Steady.renewed_of_read (steady : scene.Steady start rows)
    (target : scene.graph.parts[index]?.map Part.target = some (.nodes number content nested?))
    (read : scene.document.read? (value?.getD "") = some (fragment, parsed)) :
    scene.Renewed (Function.update (fun _ => none) index (some value?)) (reconcileRegion
      ⟨parsed, scene.graph.setTarget index (.nodes number (parsed.children fragment) nested?)⟩
      number) := by
  have wellFormed := steady.wellFormed
  obtain ⟨fresh, _, parsedWellFormed, extended, trees, treesRead, below⟩ :=
    Document.read?_eq_some wellFormed read
  have kept {root : NodeId} (foreign : ¬ start.document.Has root) (inner : root ≠ fragment) :=
    steady.tree_of_read target read foreign inner
  refine .single ?_ (bindings_reconcileRegion ..) ?_ ?_ ?_
  · rw [parts_reconcileRegion]
    exact Array.size_modify ..
  · intro otherNumber expression old? found
    rw [found] at target
    cases target
  · intro otherNumber expression otherContent otherNested? found
    rw [found, Option.map_some, Option.some.injEq] at target
    cases target
    refine ⟨parsed.children fragment, trees, treesRead, ?_, ?_⟩
    · rw [parts_reconcileRegion, PartGraph.parts_setTarget, if_pos rfl, found]
      rfl
    · rw [← below]
      refine List.map_congr_left fun id member => kept (fun old => ?_) ?_
      · exact Prepares.new_of_markup wellFormed read id member (steady.has id old)
      · rintro rfl
        exact parsedWellFormed.not_isAbove_of_child member Relation.ReflTransGen.refl
  · intro other differ
    refine ⟨?_, fun id member => ?_⟩
    · rw [parts_reconcileRegion, PartGraph.parts_setTarget, if_neg differ]
    · have bound := steady.has_of_contentOf member
      have inner : id ≠ fragment := by
        rintro rfl
        exact fresh bound
      rw [kept (steady.fresh member) inner]
      exact wellFormed.tree_of_extends parsedWellFormed extended bound

end

def Refuses (scene : Scene) (state : Json) (index : Nat) : Prop :=
  ∃ part value?, scene.graph.parts[index]? = some part ∧ part.kind ≠ .attribute ∧
    state.given? part.expression = some value? ∧ Markup.read? (value?.getD "").toList = none

theorem Renewed.refuses_iff (renewed : scene.Renewed values result) (state : Json) (index : Nat) :
    result.Refuses state index ↔ scene.Refuses state index := by
  constructor
  · rintro ⟨now, value?, nowFound, nodes, given, unread⟩
    obtain ⟨part, found, expression, kind⟩ := renewed.exists_part_before nowFound
    exact ⟨part, value?, found, kind ▸ nodes, expression ▸ given, unread⟩
  · rintro ⟨part, value?, found, nodes, given, unread⟩
    obtain ⟨now, nowFound, expression, kind⟩ := renewed.exists_part found
    exact ⟨now, value?, nowFound, kind ▸ nodes, expression ▸ given, unread⟩

theorem assignMarkup_of_refuses (refuses : scene.Refuses state index) :
    ∃ part, scene.graph.parts[index]? = some part ∧ scene.assignMarkup state index =
      (.error (.within s!"part \x60{part.expression}\x60" (.part .markup)), scene) := by
  obtain ⟨part, value?, found, nodes, given, unread⟩ := refuses
  have shown := scene.shown_assigned? state index
  rw [gives, found, Option.map_some, Option.bind_some, given, Option.map_eq_some_iff] at shown
  obtain ⟨value, assigned, rfl⟩ := shown
  have rejected : scene.document.read? (value.shown.getD "") = none := by
    rw [Document.read?, unread]
    rfl
  refine ⟨part, found, ?_⟩
  rw [assignMarkup, assigned, found]
  simp only [if_neg nodes, replaceMarkup, rejected]

theorem Steady.exists_assignMarkup (steady : scene.Steady start rows)
    (accepts : ¬ scene.Refuses state index) : ∃ next,
      scene.assignMarkup state index = (.ok (), next) ∧ next.Steady start rows ∧
        scene.Renewed (Function.update (fun _ => none) index (scene.gives state.given? index)) next := by
  rw [← shown_assigned?]
  cases assigned : scene.assigned? state index with
  | none =>
      refine ⟨scene, by rw [assignMarkup, assigned], steady, ?_⟩
      rw [Option.map_none, Function.update_eq_self]
      exact .refl scene
  | some value =>
      obtain ⟨part, found⟩ := exists_part_of_assigned assigned
      have target : scene.graph.parts[index]?.map Part.target = some part.target := by
        rw [found]
        rfl
      rw [assignMarkup, assigned, found]
      dsimp only
      rcases targetEq : part.target with ⟨number, old?⟩ | ⟨number, content, nested?⟩
      · have kind : part.kind = .attribute := by rw [Part.kind, targetEq]
        rw [targetEq] at target
        rw [if_pos kind]
        exact ⟨_, rfl, steady.of_value index value.shown, steady.renewed_of_attribute target⟩
      · have kind : part.kind ≠ .attribute := by
          rw [Part.kind, targetEq]
          cases nested? <;> rintro ⟨⟩
        rw [targetEq] at target
        cases read : scene.document.read? (value.shown.getD "") with
        | none =>
            have shown := scene.shown_assigned? state index
            rw [assigned, gives, found, Option.map_some, Option.map_some, Option.bind_some] at shown
            exact (accepts ⟨part, value.shown, found, kind, shown.symm,
              Option.map_eq_none_iff.mp read⟩).elim
        | some made =>
            obtain ⟨fragment, parsed⟩ := made
            have grown : (⟨parsed, scene.graph⟩ : Scene).graph.parts[index]?.map Part.target =
                some (.nodes number content nested?) := target
            have kept : (scene.write index (.markup (value.shown.getD ""))).2.Steady start rows :=
              steady.of_write target rfl
            simp only [Scene.write, replaceMarkup, read] at kept
            rw [setContent_eq grown] at kept
            simp only [if_neg kind, replaceMarkup, read]
            rw [setContent_eq grown]
            exact ⟨_, rfl, kept, steady.renewed_of_read target read⟩

theorem assignMarkupTo_append (state : Json) (indices others : List Nat) (scene : Scene) :
    assignMarkupTo state (indices ++ others) scene =
      match assignMarkupTo state indices scene with
      | (.ok (), middle) => assignMarkupTo state others middle
      | (.error failure, middle) => (.error failure, middle) := by
  induction indices generalizing scene with
  | nil => rfl
  | cons index rest ih =>
      rw [List.cons_append, assignMarkupTo, assignMarkupTo]
      rcases scene.assignMarkup state index with ⟨failure | ⟨⟩, next⟩
      · rfl
      · exact ih next

def givesTo (scene : Scene) (state : Json) (limit index : Nat) : Option (Option String) :=
  if index < limit then scene.gives state.given? index else none

structure Reaches (scene start : Scene) (rows : List Row) (state : Json) (limit : Nat)
    (result : Scene) : Prop where
  accepted : ∀ index < limit, ¬ scene.Refuses state index
  steady : result.Steady start rows
  renewed : scene.Renewed (scene.givesTo state limit) result

theorem Reaches.exists_next (reaches : scene.Reaches start rows state limit middle)
    (accepts : ¬ scene.Refuses state limit) : ∃ next,
      middle.assignMarkup state limit = (.ok (), next) ∧
        scene.Reaches start rows state (limit + 1) next := by
  rw [← reaches.renewed.refuses_iff] at accepts
  obtain ⟨next, assigned, steady, renewed⟩ := reaches.steady.exists_assignMarkup accepts
  rw [reaches.renewed.gives_eq] at renewed
  have values : (fun index => (Function.update (fun _ => none) limit
      (scene.gives state.given? limit) index).or (scene.givesTo state limit index)) =
        scene.givesTo state (limit + 1) := by
    funext index
    rw [givesTo, givesTo, Function.update_apply]
    rcases Nat.lt_trichotomy index limit with less | rfl | more
    · rw [if_neg (by omega), if_pos less, if_pos (by omega), Option.none_or]
    · rw [if_pos rfl, if_neg (by omega), if_pos (by omega), Option.or_none]
    · rw [if_neg (by omega), if_neg (by omega), if_neg (by omega), Option.none_or]
  refine ⟨next, assigned, fun index below => ?_, steady, values ▸ reaches.renewed.trans renewed⟩
  rcases Nat.lt_succ_iff_lt_or_eq.mp below with earlier | rfl
  · exact reaches.accepted index earlier
  · rwa [reaches.renewed.refuses_iff] at accepts

/-- An update goes through all parts, or it gets to the first that refuses its value. -/
theorem Steady.reaches_assignMarkupTo (steady : scene.Steady start rows) (state : Json) (count : Nat) :
    (∃ result, assignMarkupTo state (List.range count) scene = (.ok (), result) ∧
      scene.Reaches start rows state count result) ∨
    ∃ limit part result, limit < count ∧ scene.graph.parts[limit]? = some part ∧
      scene.Refuses state limit ∧ assignMarkupTo state (List.range count) scene =
        (.error (.within s!"part \x60{part.expression}\x60" (.part .markup)), result) ∧
      scene.Reaches start rows state limit result := by
  induction count with
  | zero =>
      have nothing : scene.givesTo state 0 = fun _ => none := rfl
      exact Or.inl ⟨scene, rfl, fun _ below => by omega, steady, nothing ▸ .refl scene⟩
  | succ count ih =>
      rw [List.range_succ, assignMarkupTo_append]
      rcases ih with ⟨middle, run, reaches⟩ | ⟨limit, part, result, below, found, refuses, run, reaches⟩
      · rw [run]
        by_cases refuses : scene.Refuses state count
        · right
          obtain ⟨now, nowFound, failed⟩ :=
            assignMarkup_of_refuses ((reaches.renewed.refuses_iff state count).mpr refuses)
          obtain ⟨part, found, expression, _⟩ := reaches.renewed.exists_part_before nowFound
          refine ⟨count, part, middle, Nat.lt_succ_self count, found, refuses, ?_, reaches⟩
          simp only [assignMarkupTo, failed, expression]
        · left
          obtain ⟨next, accepted, reachesNext⟩ := reaches.exists_next refuses
          exact ⟨next, by simp only [assignMarkupTo, accepted], reachesNext⟩
      · right
        rw [run]
        exact ⟨limit, part, result, by omega, found, refuses, rfl, reaches⟩

structure CleanPrefix (scene : Scene) (state : Json) (outcome : Except Failure Unit)
    (result : Scene) : Prop where
  fails_iff : outcome ≠ .ok () ↔ ∃ index, scene.Refuses state index
  complete : outcome = .ok () → scene.Renewed (scene.gives state.given?) result
  halted : ∀ failure, outcome = .error failure → ∃ index part, scene.graph.parts[index]? = some part ∧
    scene.Refuses state index ∧ (∀ earlier < index, ¬ scene.Refuses state earlier) ∧
      failure = .within s!"part \x60{part.expression}\x60" (.part .markup) ∧
        scene.Renewed (scene.givesTo state index) result

theorem Steady.cleanPrefix (steady : scene.Steady start rows) (state : Json) :
    scene.CleanPrefix state (scene.assignAllMarkup state).1 (scene.assignAllMarkup state).2 ∧
      (scene.assignAllMarkup state).2.Steady start rows := by
  rw [assignAllMarkup]
  rcases steady.reaches_assignMarkupTo state scene.graph.parts.size with ⟨result, run, reaches⟩ |
    ⟨limit, part, result, below, found, refuses, run, reaches⟩
  · rw [run]
    have bound {index : Nat} {part : Part} (found : scene.graph.parts[index]? = some part) :
        index < scene.graph.parts.size := (Array.getElem?_eq_some_iff.mp found).1
    have all : scene.givesTo state scene.graph.parts.size = scene.gives state.given? := by
      funext index
      rw [givesTo]
      split
      · rfl
      · rename_i beyond
        rw [gives, Array.getElem?_eq_none (Nat.not_lt.mp beyond)]
        rfl
    refine ⟨⟨iff_of_false (by simp) ?_, fun _ => all ▸ reaches.renewed, ?_⟩, reaches.steady⟩
    · rintro ⟨index, refuses⟩
      obtain ⟨_, _, found, _⟩ := id refuses
      exact reaches.accepted index (bound found) refuses
    · rintro failure ⟨⟩
  · rw [run]
    refine ⟨⟨iff_of_true (by simp) ⟨limit, refuses⟩, by rintro ⟨⟩, ?_⟩, reaches.steady⟩
    rintro failure ⟨⟩
    exact ⟨limit, part, found, refuses, reaches.accepted, rfl, reaches.renewed⟩

section
variable {mounted : Bool}

theorem Course.assignMarkup (course : Course start mounted scene) (state : Json) (index : Nat) :
    Course start mounted (scene.assignMarkup state index).2 := by
  rw [Scene.assignMarkup]
  cases assigned : scene.assigned? state index with
  | none => exact course
  | some value =>
      obtain ⟨part, found⟩ := exists_part_of_assigned assigned
      rw [found]
      dsimp only
      split
      · exact course.value index value.shown
      · rename_i kind
        obtain ⟨expression, ⟨number, old?⟩ | ⟨number, content, nested?⟩⟩ := part
        · exact (kind rfl).elim
        · have target : scene.graph.parts[index]?.map Part.target =
              some (.nodes number content nested?) := by
            rw [found]
            rfl
          have textual : (Write.markup (value.shown.getD "")).Textual := rfl
          have written := course.write target textual
          simp only [Scene.write] at written
          generalize scene.replaceMarkup index (value.shown.getD "") = outcome at written
          rcases outcome with ⟨error | ⟨⟩, next⟩ <;> exact written

/-- Updates with markup, failed or not, are nothing but values and markup written to parts. -/
theorem Course.assignAllMarkup (course : Course start mounted scene) (state : Json) :
    Course start mounted (scene.assignAllMarkup state).2 := by
  rw [Scene.assignAllMarkup]
  generalize List.range scene.graph.parts.size = indices
  induction indices generalizing scene with
  | nil => exact course
  | cons index rest ih =>
      have first := course.assignMarkup state index
      rw [assignMarkupTo]
      generalize scene.assignMarkup state index = outcome at first
      rcases outcome with ⟨failure | ⟨⟩, next⟩
      · exact first
      · exact ih first

end

end Scene

end LiveTemplate
