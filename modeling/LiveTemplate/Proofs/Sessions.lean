import Mathlib.Data.List.Pairwise
import LiveTemplate.Proofs.Showings

/-! Sessions: engines make instances of the templates of one document and bring them to states in any
order, and some of them are mounted side by side. Each of them is what it would be on its own, and
nothing else changes. -/

namespace LiveTemplate

/-- Engines make instances with key matching, of templates that the board is not in, and bring them to
states in any order. A fragment is mounted at most once, at the end of the board, before what stood
there at first or before another instance. -/
inductive Session {Script State : Type} (interpret : Interpreter Script State) (board : NodeId)
    (start : World Script State) : List Showing → World Script State → Prop where
  | start : Session interpret board start [] start
  | create {showings : List Showing} {world changed : World Script State} (engine : Engine)
      {template : NodeId} (state : Json) {made? : Option Instance} :
      Session interpret board start showings world →
      start.document.Has template →
      ¬ start.document.IsAbove template board →
      (world.registry engine.registry).resolve
        (world.document.attribute? template (.plain engine.config.typeAttribute)) =
          ⟨.keyMatching, none⟩ →
      engine.instantiate interpret template state world = (made?, changed) →
      Session interpret board start
        (made?.toList.map (fun inst => ⟨engine, template, state, [], inst,
          changed.document.added world.document, false⟩) ++ showings) changed
  | update {before after : List Showing} {showing : Showing} {world changed : World Script State}
      (state : Json) {result : Except Failure Unit} {inst : Instance} :
      Session interpret board start (before ++ showing :: after) world →
      showing.inst.update interpret state world = (result, inst, changed) →
      Session interpret board start
        (before ++ showing.updated state inst (changed.document.added world.document) :: after) changed
  | mount {before after : List Showing} {showing : Showing} {world : World Script State}
      (reference? : Option NodeId) :
      Session interpret board start (before ++ showing :: after) world →
      showing.mounted = false →
      (∀ reference, reference? = some reference → reference ∈ world.document.children board ∧
        (start.document.Has reference ∨ ∃ other ∈ before ++ after, other.mounted = true ∧
          (other.rendered world.document board).head? = some reference)) →
      Session interpret board start (before ++ { showing with mounted := true } :: after)
        { world with
          document := world.document.insertBefore board showing.inst.graph.fragment reference? }

section
variable {Script State : Type} {interpret : Interpreter Script State} {board id : NodeId}
  {start world : World Script State} {showings others : List Showing} {showing : Showing}
  {document : Document}

def Showing.Apart (one other : Showing) : Prop :=
  ∀ id ∈ one.made, id ∉ other.made

instance : Std.Symm Showing.Apart :=
  ⟨fun _ _ apart id member inOther => apart id inOther member⟩

structure Separate (start world : World Script State) (board : NodeId) (showings : List Showing) :
    Prop where
  wellFormed : world.document.WellFormed
  registries : world.registries = start.registries
  intact : world.document.Intact start.document board
  placed : ∀ showing ∈ showings, ∃ image rows,
    showing.Placed start world.document board image rows
  disjoint : showings.Pairwise Showing.Apart
  below : ∀ id ∈ world.document.children board, start.document.Has id ∨
    ∃ showing ∈ showings, showing.mounted = true ∧ id ∈ showing.made

namespace Separate

theorem perm (separate : Separate start world board showings) (same : showings.Perm others) :
    Separate start world board others where
  wellFormed := separate.wellFormed
  registries := separate.registries
  intact := separate.intact
  placed := fun showing member => separate.placed showing (same.mem_iff.mpr member)
  disjoint := (same.pairwise_iff fun apart => Std.Symm.symm _ _ apart).mp separate.disjoint
  below := fun id member => (separate.below id member).imp_right fun known => by
    obtain ⟨showing, inside, rest⟩ := known
    exact ⟨showing, same.mem_iff.mp inside, rest⟩

theorem initial (wellFormed : start.document.WellFormed) (board : NodeId) :
    Separate start start board [] where
  wellFormed := wellFormed
  registries := rfl
  intact := .refl wellFormed board
  placed := by rintro _ ⟨⟩
  disjoint := .nil
  below := fun _ member => Or.inl (wellFormed.has_child member)

theorem eq_of_made (separate : Separate start world board showings) {other : Showing}
    (member : showing ∈ showings) (otherMember : other ∈ showings) (made : id ∈ showing.made)
    (otherMade : id ∈ other.made) : showing = other := by
  by_contra differ
  exact separate.disjoint.forall member otherMember differ id made otherMade

/-- A step that tends new nodes, or those of one instance, leaves another instance where it is. -/
theorem placed_of_tended (separate : Separate start world board showings)
    (bound : start.document.Has board) (wellFormed : document.WellFormed) {own later : NodeId → Prop}
    {place : NodeId} (tended : document.Tended world.document own later place)
    (fresh : ∀ id, own id → ¬ start.document.Has id) {other : Showing} (member : other ∈ showings)
    (apart : ∀ id ∈ other.made, ¬ own id ∧ id ≠ place)
    (shown : other.host board = place → other.rendered world.document board <:+:
      world.document.children place → other.rendered world.document board <:+: document.children place) :
    ∃ image rows, other.Placed start document board image rows := by
  obtain ⟨image, rows, placed⟩ := separate.placed other member
  refine ⟨image, rows, placed.of_tended bound wellFormed tended fresh (fun id made => (apart id made).1)
    (fun made => (apart _ made).2 rfl) fun same => ?_⟩
  have before := placed.shown
  rw [same] at before ⊢
  exact shown same before

theorem has_of_made (separate : Separate start world board showings) (member : showing ∈ showings)
    (made : id ∈ showing.made) : world.document.Has id := by
  obtain ⟨_, _, placed⟩ := separate.placed showing member
  exact placed.has_of_made made

theorem fresh (separate : Separate start world board showings) (member : showing ∈ showings)
    (made : id ∈ showing.made) : ¬ start.document.Has id := by
  obtain ⟨_, _, placed⟩ := separate.placed showing member
  exact placed.fresh id made

theorem create (separate : Separate start world board showings) (wellFormed : start.document.WellFormed)
    (bound : start.document.Has board) (interpret : Interpreter Script State) (engine : Engine)
    {template : NodeId} (has : start.document.Has template)
    (outside : ¬ start.document.IsAbove template board)
    (matching : (world.registry engine.registry).resolve
      (world.document.attribute? template (.plain engine.config.typeAttribute)) =
        ⟨.keyMatching, none⟩) (state : Json) {made? : Option Instance} {changed : World Script State}
    (instantiated : engine.instantiate interpret template state world = (made?, changed)) :
    Separate start changed board (made?.toList.map (fun inst => ⟨engine, template, state, [], inst,
      changed.document.added world.document, false⟩) ++ showings) := by
  obtain ⟨registries, changedWellFormed, ⟨later, place, tended, missing⟩, new⟩ :=
    Showing.exists_placed wellFormed separate.wellFormed separate.registries separate.intact interpret
      engine has outside matching state instantiated
  have boardHas := separate.intact.kinds.has bound
  have children : changed.document.children board = world.document.children board := by
    refine tended.children board boardHas not_false ?_
    rintro rfl
    exact missing boardHas
  -- The new instance has nodes that no other one has, and the board is not touched.
  have kept : ∀ other ∈ showings, ∃ image rows, other.Placed start changed.document board image rows := by
    intro other member
    refine separate.placed_of_tended bound changedWellFormed tended (fun _ none => none.elim) member ?_ ?_
    · rintro id made
      refine ⟨not_false, ?_⟩
      rintro rfl
      exact missing (separate.has_of_made member made)
    · rintro rfl
      obtain ⟨_, _, placed⟩ := separate.placed other member
      exact (missing placed.hosted.embedded.bound).elim
  refine ⟨changedWellFormed, registries.trans separate.registries,
    separate.intact.of_tended bound tended (fun _ none => none.elim)
      (Or.inr (mt separate.intact.kinds.has missing)), ?_, ?_, ?_⟩
  · intro showing member
    rcases List.mem_append.mp member with inside | old
    · obtain ⟨inst, given, rfl⟩ := List.mem_map.mp inside
      exact new inst (Option.mem_toList.mp given)
    · exact kept showing old
  · cases made? with
    | none => exact separate.disjoint
    | some inst =>
        refine List.pairwise_cons.mpr ⟨fun other member id made otherMade => ?_, separate.disjoint⟩
        exact ((Document.mem_added _ _ id).mp made).1 (separate.has_of_made member otherMade)
  · intro id member
    rw [children] at member
    refine (separate.below id member).imp_right ?_
    rintro ⟨showing, inside, rest⟩
    exact ⟨showing, List.mem_append_right _ inside, rest⟩

theorem below_of (separate : Separate start world board (showing :: others)) {next : Showing}
    (mounted : showing.mounted = true → next.mounted = true)
    (grown : ∀ id ∈ showing.made, id ∈ next.made) (member : id ∈ world.document.children board) :
    start.document.Has id ∨ ∃ known ∈ next :: others, known.mounted = true ∧ id ∈ known.made := by
  refine (separate.below id member).imp_right ?_
  rintro ⟨known, inside, isMounted, made⟩
  rcases List.mem_cons.mp inside with rfl | other
  · exact ⟨next, List.mem_cons_self .., mounted isMounted, grown id made⟩
  · exact ⟨known, List.mem_cons_of_mem _ other, isMounted, made⟩

theorem update (separate : Separate start world board (showing :: others))
    (bound : start.document.Has board) (interpret : Interpreter Script State) (state : Json)
    {outcome : Except Failure Unit} {inst : Instance} {changed : World Script State}
    (updated : showing.inst.update interpret state world = (outcome, inst, changed)) :
    Separate start changed board
      (showing.updated state inst (changed.document.added world.document) :: others) := by
  have head : showing ∈ showing :: others := List.mem_cons_self ..
  obtain ⟨image, rows, placed⟩ := separate.placed showing head
  obtain ⟨registries, host, ⟨later, next⟩, tended, spaced⟩ :=
    placed.update separate.registries separate.intact.kinds interpret state updated
  obtain ⟨apart, disjoint⟩ := List.pairwise_cons.mp separate.disjoint
  have wellFormed := next.hosted.sound.wellFormed
  have inHost := placed.host_cases
  have grown (id : NodeId) (made : id ∈ showing.made) := List.mem_append_left
    (changed.document.added world.document) made
  have mounted : (showing.updated state inst (changed.document.added world.document)).mounted =
      showing.mounted := rfl
  change ∀ id, id ∈ showing.made →
    id ∈ (showing.updated state inst (changed.document.added world.document)).made at grown
  generalize showing.updated state inst (changed.document.added world.document) = after at *
  refine ⟨wellFormed, registries.trans separate.registries, separate.intact.of_tended bound tended
    placed.fresh (inHost.imp And.left (placed.fresh _)), ?_, ?_, ?_⟩
  · refine List.forall_mem_cons.mpr ⟨⟨later, rows, next⟩, fun other member => ?_⟩
    have otherMember : other ∈ showing :: others := List.mem_cons_of_mem _ member
    refine separate.placed_of_tended bound wellFormed tended placed.fresh otherMember ?_ ?_
    · intro id made
      refine ⟨fun own => apart other member id own made, ?_⟩
      rintro rfl
      rcases inHost with ⟨same, _⟩ | own
      · exact separate.fresh otherMember made (by rwa [same])
      · exact apart other member _ own made
    · intro _ inside
      exact spaced _ inside fun id shown own => apart other member id own (Showing.made_of_rendered shown)
  · refine List.pairwise_cons.mpr ⟨fun other member id made otherMade => ?_, disjoint⟩
    have has := separate.has_of_made (List.mem_cons_of_mem _ member) otherMade
    exact apart other member id (tended.own_of_owned has made) otherMade
  -- The update puts nothing under the board unless the instance is mounted there.
  · intro id member
    by_cases same : showing.host board = board
    · rw [same] at tended
      by_cases made : id ∈ after.made
      · have isMounted : showing.mounted = true := by
          rcases inHost with ⟨_, yes⟩ | own
          · exact yes
          · exact (placed.fresh _ own (by rwa [same])).elim
        exact Or.inr ⟨after, List.mem_cons_self .., mounted.trans isMounted, made⟩
      · exact separate.below_of mounted.trans grown (tended.mem_children member made)
    · rw [tended.children board (separate.intact.kinds.has bound)
        (fun own => placed.fresh board own bound) (Ne.symm same)] at member
      exact separate.below_of mounted.trans grown member

theorem mount (separate : Separate start world board (showing :: others))
    (wellFormed : start.document.WellFormed) (bound : start.document.Has board)
    (free : showing.mounted = false) {reference? : Option NodeId}
    (beside : ∀ reference, reference? = some reference → reference ∈ world.document.children board ∧
      (start.document.Has reference ∨ ∃ other ∈ others, other.mounted = true ∧
        (other.rendered world.document board).head? = some reference)) :
    Separate start
      { world with
        document := world.document.insertBefore board showing.inst.graph.fragment reference? } board
      ({ showing with mounted := true } :: others) := by
  have head : showing ∈ showing :: others := List.mem_cons_self ..
  obtain ⟨image, rows, placed⟩ := separate.placed showing head
  obtain ⟨apart, disjoint⟩ := List.pairwise_cons.mp separate.disjoint
  have fragmentHas := placed.has_of_made placed.fragment_made
  have boardHas := separate.intact.kinds.has bound
  have outside : ¬ world.document.IsAbove showing.inst.graph.fragment board := fun above =>
    placed.fresh _ placed.fragment_made (separate.intact.has_of_isAbove wellFormed above bound)
  obtain ⟨lead, trail, split, reference, mounted⟩ := Document.exists_mounted separate.wellFormed
    placed.kind fragmentHas boardHas outside fun reference same => (beside reference same).1
  have changedWellFormed := Document.wellFormed_insertBefore separate.wellFormed boardHas fragmentHas
    reference?
  generalize world.document.insertBefore board showing.inst.graph.fragment reference? = document at *
  -- Below the board are old nodes and those of mounted instances, and this one was not mounted yet.
  have foreign : ∀ id ∈ world.document.children board, id ∉ showing.made := by
    intro id member made
    rcases separate.below id member with old | ⟨known, inside, isMounted, knownMade⟩
    · exact placed.fresh id made old
    · rw [separate.eq_of_made inside head knownMade made, free] at isMounted
      cases isMounted
  obtain ⟨next, tended⟩ := placed.mount free bound separate.intact.kinds foreign changedWellFormed mounted
  refine ⟨changedWellFormed, separate.registries, separate.intact.of_tended bound tended placed.fresh
    (Or.inl rfl), ?_, ?_, ?_⟩
  · refine List.forall_mem_cons.mpr ⟨⟨image, rows, next⟩, fun other member => ?_⟩
    have otherMember : other ∈ showing :: others := List.mem_cons_of_mem _ member
    refine separate.placed_of_tended bound changedWellFormed tended placed.fresh otherMember ?_ ?_
    · intro id made
      refine ⟨fun own => apart other member id own made, ?_⟩
      rintro rfl
      exact separate.fresh otherMember made bound
    · intro _ inside
      have unique := separate.wellFormed.unique board
      rw [split] at inside unique
      rw [mounted.shown]
      -- The node that the new block goes before is old, or else another block starts with it.
      have boundary : ∀ first, trail.head? = some first →
          first ∈ other.rendered world.document board →
          (other.rendered world.document board).head? = some first := by
        intro first isFirst member
        have made := Showing.made_of_rendered member
        rcases (beside first (reference ▸ isFirst)).2 with old | ⟨peer, peerMember, _, peerFirst⟩
        · exact (separate.fresh otherMember made old).elim
        · rwa [separate.eq_of_made otherMember (List.mem_cons_of_mem _ peerMember) made
            (Showing.made_of_rendered (List.mem_of_mem_head? peerFirst))]
      exact infix_of_beside (infix_of_boundary unique boundary inside)
  · exact List.pairwise_cons.mpr ⟨apart, disjoint⟩
  · intro id member
    dsimp only at member
    rw [mounted.shown, List.mem_append, List.mem_append] at member
    by_cases shown : id ∈ world.document.children showing.inst.graph.fragment
    · exact Or.inr ⟨_, List.mem_cons_self .., rfl, placed.made_of_shown free shown⟩
    · have old : id ∈ world.document.children board := by
        rw [split, List.mem_append]
        tauto
      exact separate.below_of (fun _ => rfl) (fun _ made => made) old

end Separate

theorem Session.separate (session : Session interpret board start showings world)
    (wellFormed : start.document.WellFormed) (bound : start.document.Has board) :
    Separate start world board showings := by
  induction session with
  | start => exact .initial wellFormed board
  | create engine state _ has outside matching instantiated ih =>
      exact ih.create wellFormed bound interpret engine has outside matching state instantiated
  | update state _ updated ih =>
      exact ((ih.perm List.perm_middle).update bound interpret state updated).perm List.perm_middle.symm
  | mount reference? _ free beside ih =>
      exact ((ih.perm List.perm_middle).mount wellFormed bound free beside).perm List.perm_middle.symm

/-- A session goes on with an instance of any template that there would be one of at its start. -/
theorem Session.exists_create (session : Session interpret board start showings world)
    (wellFormed : start.document.WellFormed) (bound : start.document.Has board) (engine : Engine)
    {template : NodeId} (has : start.document.Has template)
    (outside : ¬ start.document.IsAbove template board)
    (matching : (start.registry engine.registry).resolve
      (start.document.attribute? template (.plain engine.config.typeAttribute)) =
        ⟨.keyMatching, none⟩) (state : Json)
    (templated : (engine.instantiate interpret template state start).1.isSome = true) :
    ∃ inst changed, Session interpret board start (⟨engine, template, state, [], inst,
      changed.document.added world.document, false⟩ :: showings) changed := by
  have separate := session.separate wellFormed bound
  have now : (world.registry engine.registry).resolve (world.document.attribute? template
      (.plain engine.config.typeAttribute)) = ⟨.keyMatching, none⟩ := by
    rwa [Document.attribute?, separate.intact.content template has, World.registry,
      separate.registries]
  rw [← Showing.isSome_instantiate wellFormed separate.wellFormed separate.registries separate.intact
    interpret engine has outside now state] at templated
  generalize instantiated : engine.instantiate interpret template state world = result at templated
  obtain ⟨made?, changed⟩ := result
  obtain ⟨inst, rfl⟩ := Option.isSome_iff_exists.mp templated
  exact ⟨inst, changed, session.create engine state has outside now instantiated⟩

/-- Instances and templates are isolated. Whatever a session does, the nodes of the document that it
started with keep what they hold, their parents and their children, and so do the trees of all of them
that the board is not in. The board has new children between the old ones, each in the block of a
mounted instance, and all nodes of a block are neighbours. What an instance shows, as well as its
parts, is what the same engine gives for the same states when it is the only one at work, but for the
numbers of the nodes. -/
theorem Session.isolated (session : Session interpret board start showings world)
    (wellFormed : start.document.WellFormed) (bound : start.document.Has board) :
    world.document.Intact start.document board ∧
    (∀ id, start.document.Has id → ¬ start.document.IsAbove id board →
      world.document.tree id = start.document.tree id) ∧
    (∀ id ∈ world.document.children board, start.document.Has id ∨
      ∃ showing ∈ showings, showing.mounted = true ∧ id ∈ showing.rendered world.document board) ∧
    ∀ showing ∈ showings,
      showing.rendered world.document board <:+: world.document.children (showing.host board) ∧
      (showing.mounted = false → showing.rendered world.document board =
        world.document.children showing.inst.graph.fragment) ∧
      ∃ inst made last settled image,
        showing.engine.instantiate interpret showing.template showing.first start = (some inst, made) ∧
        Instance.updateAll interpret showing.later inst made = (.ok (), last, settled) ∧
        (∀ id other, settled.document.Made start.document.size id →
          settled.document.Made start.document.size other → image id = image other → id = other) ∧
        showing.inst = { last with graph := last.graph.rename image } ∧
        showing.rendered world.document board =
          (settled.document.children last.graph.fragment).map image ∧
        (showing.rendered world.document board).map world.document.tree =
          settled.document.forest last.graph.fragment := by
  have separate := session.separate wellFormed bound
  refine ⟨separate.intact, fun id has outside =>
    separate.intact.tree_eq wellFormed separate.wellFormed has outside, fun id member => ?_,
    fun showing member => ?_⟩
  · refine (separate.below id member).imp_right ?_
    rintro ⟨showing, inside, mounted, made⟩
    refine ⟨showing, inside, mounted, List.mem_filter.mpr ⟨?_, decide_eq_true made⟩⟩
    rwa [Showing.host, if_pos mounted]
  · obtain ⟨image, rows, placed⟩ := separate.placed showing member
    refine ⟨placed.shown, fun free => ?_, ?_⟩
    · have here : showing.host board = showing.inst.graph.fragment := if_neg (by simp [free])
      rw [Showing.rendered, here]
      exact List.filter_eq_self.mpr fun id inside => decide_eq_true (placed.made_of_shown free inside)
    · obtain ⟨inst, made, last, settled, instantiated, updated, type, registry, graph, document⟩ :=
        placed.run_eq interpret
      refine ⟨inst, made, last, settled, image, instantiated, updated, ?_, ?_, ?_, ?_⟩
      · rw [document]
        exact placed.hosted.embedded.injective
      · have renamed : showing.inst.graph = last.graph.rename image := by
          rw [graph]
          exact placed.hosted.graph
        rw [← renamed, type, registry]
      · rw [document, graph, placed.hosted.live.fragment]
        exact placed.rendered_eq
      · rw [placed.rendered_eq, document, graph, placed.hosted.live.fragment,
          placed.hosted.live.wellFormed.forest_eq, List.map_map]
        exact List.map_congr_left fun id inside => placed.tree_eq inside

end

@[irreducible]
def listedWorld : World Unit Unit :=
  ⟨titledSource.edit (.read "<ul><li></li></ul>"), #[], ()⟩

theorem Session.isolated_listed :
    ∃ showings world, Session idle ⟨6⟩ listedWorld showings world ∧
      showings.map Showing.mounted = [false, true] ∧
      showings.map Showing.later = [[.object [("y", .string "C")]], [.object [("x", .null)]]] ∧
      world.document.Intact listedWorld.document ⟨6⟩ ∧
      (∀ id ∈ world.document.children ⟨6⟩, listedWorld.document.Has id ∨
        ∃ showing ∈ showings, showing.mounted = true ∧ id ∈ showing.rendered world.document ⟨6⟩) ∧
      ∀ showing ∈ showings, ∃ inst made last settled image,
        showing.engine.instantiate idle showing.template showing.first listedWorld =
          (some inst, made) ∧
        Instance.updateAll idle showing.later inst made = (.ok (), last, settled) ∧
        showing.inst = { last with graph := last.graph.rename image } ∧
        (showing.rendered world.document ⟨6⟩).map world.document.tree =
          settled.document.forest last.graph.fragment := by
  have source : (titledSource.edit (.read "<ul><li></li></ul>")).WellFormed := by
    have titled : titledSource.WellFormed := Document.wellFormed_edit Document.wellFormed_new trivial
    exact Document.wellFormed_edit titled trivial
  have wellFormed : listedWorld.document.WellFormed := by
    rw [listedWorld]
    exact source
  have bound : 6 < listedWorld.document.size := by decide +kernel
  have has : 1 < listedWorld.document.size := by decide +kernel
  have outside : ¬ listedWorld.document.IsAbove ⟨1⟩ ⟨6⟩ := by
    have upper : listedWorld.document.parent? ⟨6⟩ = some ⟨5⟩ := by decide +kernel
    have topmost : listedWorld.document.parent? ⟨5⟩ = none := by decide +kernel
    intro above
    rcases Relation.ReflTransGen.cases_tail above with same | ⟨parent, higher, linked⟩
    · cases same
    · cases upper.symm.trans linked
      rcases Relation.ReflTransGen.cases_tail higher with same | ⟨_, _, linked⟩
      · cases same
      · cases topmost.symm.trans linked
  have matching (name? : Option String) :
      (listedWorld.registry 0).resolve name? = ⟨.keyMatching, none⟩ := by
    rw [listedWorld]
    exact Registry.resolve_empty name?
  have item : listedWorld.document.children ⟨6⟩ = [⟨7⟩] := by decide +kernel
  have old : 7 < listedWorld.document.size := by decide +kernel
  obtain ⟨one, world, session⟩ := (@Session.start _ _ idle ⟨6⟩ listedWorld).exists_create wellFormed bound
    ⟨.standard, 0⟩ has outside (matching _) (.object [("x", .string "A")]) (by decide +kernel)
  obtain ⟨two, world, session⟩ := session.exists_create wellFormed bound ⟨.standard, 0⟩ has outside
    (matching _) (.object [("x", .string "B")]) (by decide +kernel)
  have mounted := @Session.mount _ _ _ _ _ [_] [] _ _ (some ⟨7⟩) session rfl (by
    rintro _ ⟨⟩
    have kept := (session.separate wellFormed bound).intact.kept
    rw [item] at kept
    have inside : (⟨7⟩ : NodeId) ∈ [⟨7⟩] := List.mem_singleton_self _
    rw [← kept] at inside
    exact ⟨(List.mem_filter.mp inside).1, Or.inl old⟩)
  have first := @Session.update _ _ _ _ _ [] _ _ _ _ (.object [("y", .string "C")]) _ _ mounted rfl
  have second := @Session.update _ _ _ _ _ [_] [] _ _ _ (.object [("x", .null)]) _ _ first rfl
  obtain ⟨intact, _, below, shown⟩ := second.isolated wellFormed bound
  refine ⟨_, _, second, rfl, rfl, intact, below, fun showing member => ?_⟩
  obtain ⟨_, _, inst, made, last, settled, image, instantiated, updated, _, renamed, _, trees⟩ :=
    shown showing member
  exact ⟨inst, made, last, settled, image, instantiated, updated, renamed, trees⟩

end LiveTemplate
