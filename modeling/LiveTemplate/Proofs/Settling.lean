import LiveTemplate.Proofs.Tracing

/-! A region that was just written is left as it is by writing the same again, as long as it is still
found where it is. -/

namespace LiveTemplate

/-- Nodes that move behind a run of siblings may take its last one along. -/
theorem exists_front {before moved : List NodeId} {previous? : Option NodeId}
    (last : before.getLast? = previous?) :
    ∃ front inside, before.filter (fun id => id ∉ moved) ++ moved = front ++ inside ∧
      front.getLast? = previous? ∧
      front.filter (fun id => id ∉ moved) = before.filter (fun id => id ∉ moved) := by
  rcases List.eq_nil_or_concat before with rfl | ⟨start, final, rfl⟩
  · exact ⟨[], moved, rfl, last, rfl⟩
  · rw [List.concat_eq_append, List.getLast?_concat] at last
    rw [List.concat_eq_append, ← last]
    by_cases member : final ∈ moved
    · -- All that moves before the last one is then in front of it.
      obtain ⟨first, second, split⟩ := List.append_of_mem member
      refine ⟨start.filter (fun id => id ∉ moved) ++ first ++ [final], second, ?_, by simp, ?_⟩
      · simp [split]
      · have carried : (first ++ [final]).filter (fun id => id ∉ moved) = [] := by
          rw [List.filter_eq_nil_iff]
          intro id inside
          have listed : id ∈ moved := by
            rw [split]
            rcases List.mem_append.mp inside with early | same
            · simp [early]
            · simp [List.mem_singleton.mp same]
          simpa using listed
        simp only [List.append_assoc, List.filter_append, carried]
        simp [member]
    · exact ⟨(start ++ [final]).filter (fun id => id ∉ moved), moved, rfl, by simp [member],
        by simp [member]⟩

theorem head?_filter_of_fresh {after moved : List NodeId}
    (fresh : ∀ id, after.head? = some id → id ∉ moved) :
    (after.filter (fun id => id ∉ moved)).head? = after.head? := by
  cases after with
  | nil => rfl
  | cons first rest => simp [fresh first rfl]

namespace Document

variable {document result : Document} {parent : NodeId} {reference? : Option NodeId} {span : Span}
  {nodes before between after : List NodeId}

theorem Regrouped.eq_self (wellFormed : document.WellFormed)
    (regrouped : document.Regrouped parent (document.children parent) result) : result = document :=
  regrouped.unique (.refl wellFormed parent)

theorem place_self {id : NodeId} {children : List NodeId} (unique : children.Nodup)
    (member : id ∈ children) : place [id] (some id) children = children := by
  obtain ⟨start, rest, rfl⟩ := List.append_of_mem member
  have fresh := notMem_of_nodup_split unique
  have behind : id ∉ rest := (List.nodup_cons.mp (List.nodup_append'.mp unique).2.1).1
  have passed := bne_of_notMem fresh
  have kept {siblings : List NodeId} (absent : id ∉ siblings) :
      siblings.filter (fun other => !decide (other = id)) = siblings := by
    rw [List.filter_eq_self]
    intro other inside
    simp only [Bool.not_eq_true', decide_eq_false_iff_not]
    rintro rfl
    exact absent inside
  rw [place, List.takeWhile_append_of_pos passed, List.dropWhile_append_of_pos passed]
  simp [kept fresh, kept behind]

theorem insertBefore_self (wellFormed : document.WellFormed) {id : NodeId}
    (member : id ∈ document.children parent) :
    document.insertBefore parent id (some id) = document := by
  have linked := (wellFormed.linked parent id).mp member
  have regrouped := insertBefore_regrouped wellFormed (wellFormed.has_parent linked)
    (wellFormed.has_child member) (wellFormed.not_isAbove_of_child member) (some id)
  rw [carried, if_neg (wellFormed.kind_of_parent? linked),
    place_self (wellFormed.unique parent) member] at regrouped
  exact regrouped.eq_self wellFormed

def movers (document : Document) (parent : NodeId) (reference? : Option NodeId) (nodes : List NodeId) :
    List NodeId :=
  nodes.filter fun id => !document.isInclusiveAncestor id parent && reference? != some id

theorem moves_iff (wellFormed : document.WellFormed) (id : NodeId) :
    (!document.isInclusiveAncestor id parent && reference? != some id) = true ↔
      ¬ document.IsAbove id parent ∧ reference? ≠ some id := by
  rw [← wellFormed.isInclusiveAncestor_iff]
  simp

theorem mem_movers (wellFormed : document.WellFormed) {id : NodeId} :
    id ∈ document.movers parent reference? nodes ↔
      id ∈ nodes ∧ ¬ document.IsAbove id parent ∧ reference? ≠ some id := by
  rw [movers, List.mem_filter, moves_iff wellFormed]

theorem notMem_movers (wellFormed : document.WellFormed)
    (cuts : span.Cuts (document.children span.parent) before between after) (nodes : List NodeId)
    (id : NodeId) (head : after.head? = some id) :
    id ∉ document.movers span.parent span.next? nodes := by
  intro inside
  exact ((mem_movers wellFormed).mp inside).2.2 (cuts.next ▸ head)

theorem Regrouped.movers_eq {listed : List NodeId} (regrouped : document.Regrouped parent listed result)
    (wellFormed : document.WellFormed) (adoptable : document.Adoptable parent listed)
    (reference? : Option NodeId) (nodes : List NodeId) :
    result.movers parent reference? nodes = document.movers parent reference? nodes := by
  apply List.filter_congr
  intro id _
  rw [Bool.eq_iff_iff, moves_iff (regrouped.wellFormed wellFormed adoptable), moves_iff wellFormed,
    regrouped.isAbove_iff wellFormed adoptable]

/-- Nodes that stand above the parent, and the reference itself, are not moved. -/
theorem foldl_insertBefore_movers (wellFormed : document.WellFormed) (parentBound : document.Has parent)
    (reference : ∀ id, reference? = some id → id ∈ document.children parent)
    (kind : ∀ id ∈ nodes, document.kind id ≠ .fragment) :
    nodes.foldl (fun document node => document.insertBefore parent node reference?) document =
      (document.movers parent reference? nodes).foldl
        (fun document node => document.insertBefore parent node reference?) document := by
  induction nodes generalizing document with
  | nil => rfl
  | cons node rest ih =>
      have nodeKind := kind node (by simp)
      have restKind := fun id member => kind id (List.mem_cons_of_mem node member)
      rw [List.foldl_cons]
      by_cases moves : ¬ document.IsAbove node parent ∧ reference? ≠ some node
      · have regrouped := insertBefore_regrouped wellFormed parentBound (has_of_kind nodeKind) moves.1
          reference?
        have adoptable := adoptable_place wellFormed
          (adoptable_carried wellFormed (has_of_kind nodeKind) moves.1) reference?
        rw [movers, List.filter_cons, if_pos ((moves_iff wellFormed node).mpr moves), List.foldl_cons,
          ← movers, ← regrouped.movers_eq wellFormed adoptable]
        apply ih (regrouped.wellFormed wellFormed adoptable) ((regrouped.has_iff parent).mpr parentBound)
        · intro id same
          rw [regrouped.children, if_pos rfl, mem_place]
          exact Or.inr (reference id same)
        · intro id member
          rw [regrouped.kind_eq]
          exact restKind id member
      · have unmoved : document.insertBefore parent node reference? = document := by
          by_cases above : document.IsAbove node parent
          · exact insertBefore_of_isAbove wellFormed above reference?
          · obtain rfl : reference? = some node := by simpa [above] using moves
            exact insertBefore_self wellFormed (reference node rfl)
        rw [movers, List.filter_cons, if_neg (mt (moves_iff wellFormed node).mp moves), ← movers, unmoved]
        exact ih wellFormed parentBound reference restKind

section
variable (wellFormed : document.WellFormed) (parentBound : document.Has span.parent)
  (cuts : span.Cuts (document.children span.parent) before between after) (unique : nodes.Nodup)
  (kind : ∀ id ∈ nodes, document.kind id ≠ .fragment)

include wellFormed parentBound cuts unique kind

theorem regrouped_fill_movers :
    document.Regrouped span.parent
      (before.filter (fun id => id ∉ document.movers span.parent span.next? nodes) ++
        document.movers span.parent span.next? nodes ++
        after.filter (fun id => id ∉ document.movers span.parent span.next? nodes))
      (document.fill span nodes) := by
  obtain ⟨cleared, clearedAdoptable⟩ := clear_regrouped wellFormed cuts
  have adoptable : document.Adoptable span.parent (document.movers span.parent span.next? nodes) := by
    have subset (id : NodeId) (member : id ∈ document.movers span.parent span.next? nodes) :=
      (mem_movers wellFormed).mp member
    exact ⟨unique.filter _, fun id member => has_of_kind (kind id (subset id member).1),
      fun id member => kind id (subset id member).1, fun id member => (subset id member).2.1⟩
  have same : document.fill span nodes =
      document.fill span (document.movers span.parent span.next? nodes) := by
    rw [fill, fill, foldl_insertBefore_movers (cleared.wellFormed wellFormed clearedAdoptable)
      ((cleared.has_iff _).mpr parentBound) ?_ ?_, cleared.movers_eq wellFormed clearedAdoptable]
    · intro id next
      rw [← cuts.next] at next
      rw [cleared.children, if_pos rfl, List.mem_append]
      exact Or.inr (List.mem_of_head? next)
    · intro id member
      rw [cleared.kind_eq]
      exact kind id member
  rw [same]
  apply regrouped_fill wellFormed parentBound cuts adoptable
  intro id next member
  exact ((mem_movers wellFormed).mp member).2.2 next

theorem mem_children_fill {id : NodeId} (member : id ∈ nodes)
    (notAbove : ¬ document.IsAbove id span.parent) :
    id ∈ (document.fill span nodes).children span.parent := by
  have regrouped := regrouped_fill_movers wellFormed parentBound cuts unique kind
  have fresh := notMem_movers wellFormed cuts nodes
  rw [regrouped.children, if_pos rfl]
  by_cases next : span.next? = some id
  · have kept : id ∈ after.filter (fun id => id ∉ document.movers span.parent span.next? nodes) := by
      apply List.mem_of_head?
      rw [head?_filter_of_fresh fresh, cuts.next, next]
    exact List.mem_append_right _ kept
  · have moved := (mem_movers wellFormed).mpr ⟨member, notAbove, next⟩
    exact List.mem_append_left _ (List.mem_append_right _ moved)

/-- The anchors still frame a span that was filled, perhaps a shorter one, and filling it again with
the same nodes changes nothing. -/
theorem fill_fill :
    (∃ front inside back,
      span.Cuts ((document.fill span nodes).children span.parent) front inside back) ∧
      (document.fill span nodes).fill span nodes = document.fill span nodes := by
  obtain ⟨listed, known, adoptable, _⟩ := fill_regrouped wellFormed parentBound cuts kind
  have regrouped := regrouped_fill_movers wellFormed parentBound cuts unique kind
  have children := regrouped.children span.parent
  rw [known.children, if_pos rfl, if_pos rfl] at children
  have movedEq := known.movers_eq wellFormed adoptable span.next? nodes
  have fresh := notMem_movers wellFormed cuts nodes
  generalize document.movers span.parent span.next? nodes = moved at children movedEq fresh
  -- The anchor before the span may be one of the nodes, and what went in front of it is outside now.
  obtain ⟨front, inside, split, last, kept⟩ := @exists_front _ moved _ cuts.previous
  have resultWellFormed := known.wellFormed wellFormed adoptable
  have again : span.Cuts ((document.fill span nodes).children span.parent) front inside
      (after.filter fun id => id ∉ moved) := by
    refine ⟨?_, last, (head?_filter_of_fresh fresh).trans cuts.next⟩
    rw [known.children, if_pos rfl, children, split]
  refine ⟨⟨_, _, _, again⟩, ?_⟩
  have refilled := regrouped_fill_movers resultWellFormed ((known.has_iff _).mpr parentBound) again unique
    fun id member => known.kind_eq id ▸ kind id member
  rw [movedEq, kept, List.filter_filter] at refilled
  simp only [Bool.and_self] at refilled
  have shown : listed = (document.fill span nodes).children span.parent := by
    rw [known.children, if_pos rfl]
  rw [← children, shown] at refilled
  exact refilled.eq_self resultWellFormed

end

end Document

theorem PartGraph.setRegion_self {graph : PartGraph} {number : Nat} {region : Region}
    (found : graph.regions[number]? = some region) : graph.setRegion number region = graph := by
  obtain ⟨bound, same⟩ := Array.getElem?_eq_some_iff.mp found
  rw [setRegion, Array.setIfInBounds, dif_pos bound, ← same, Array.set_getElem_self]

namespace Region

variable {region : Region} {document : Document} {span : Span} {nodes : List NodeId}

theorem settle_of_shared (shared : region.owning = false) (span : Span) (nodes : List NodeId) :
    region.settle span nodes =
      { region with previous? := span.previous?, next? := span.next?, rendered := nodes, detached := false } := by
  rw [settle, shared]
  rfl

theorem span?_of_recorded {known : NodeId} (recorded : region.parent? = some known) :
    region.span? document = region.spanUnder? document known := by
  rw [span?, parents, recorded]
  cases found : region.spanUnder? document known <;> simp [found]

theorem span?_iff {parent : NodeId} (wellFormed : document.WellFormed)
    (recorded : ∀ known, region.parent? = some known → known = parent)
    (under : region.spanUnder? document parent =
      some ⟨parent, region.previous?, region.next?⟩) :
    region.span? document = some ⟨parent, region.previous?, region.next?⟩ ↔
      (region.parent? = none → region.PointsTo document parent) := by
  cases known : region.parent? with
  | none =>
      rw [span?_iff_pointsTo wellFormed known under]
      exact ⟨fun points _ => points, fun points => points rfl⟩
  | some id =>
      obtain rfl := recorded id known
      rw [span?_of_recorded known, under]
      exact iff_of_true rfl (by rintro ⟨⟩)

end Region

namespace Scene

variable {scene result : Scene} {index number : Nat} {content : List NodeId} {region : Region}
  {nested? : Option Nested} {write : Write} {latest : Nat → List NodeId} {parent : NodeId}

/-- A region that is found where it was last shown. Showing it again changes nothing, and what is
written to its parts next is shown there, unless it stands above the parent. -/
structure StaysLive (scene : Scene) (number : Nat) (region : Region) (parent : NodeId) : Prop where
  resolved : region.span? scene.document = some ⟨parent, region.previous?, region.next?⟩
  again : scene.reconcileRegion number = scene
  reached : ∀ {index : Nat} {content : List NodeId} {nested? : Option Nested} {write : Write}
    {next : Scene}, scene.graph.parts[index]?.map Part.target = some (.nodes number content nested?) →
      write.Textual → scene.write index write = (.ok (), next) →
        next.graph.regions[number]? = some { region with rendered := next.graph.nodesOf region } ∧
          ∀ id ∈ next.graph.nodesOf region, ¬ scene.document.IsAbove id parent →
            id ∈ next.document.children parent

theorem Tracked.staysLive (tracked : scene.Tracked latest)
    (found : scene.graph.regions[number]? = some region) (shared : region.owning = false)
    (attached : region.detached = false) (rendered : region.rendered = scene.graph.nodesOf region)
    (spanFound : region.span? scene.document = some ⟨parent, region.previous?, region.next?⟩)
    (filled : scene.document.fill ⟨parent, region.previous?, region.next?⟩ region.rendered =
      scene.document) : scene.StaysLive number region parent := by
  have placed : region.place? scene.document = some ⟨parent, region.previous?, region.next?⟩ := by
    rw [Region.place?, shared]
    exact spanFound
  have settled (nodes : List NodeId) :
      region.settle ⟨parent, region.previous?, region.next?⟩ nodes = { region with rendered := nodes } := by
    rw [Region.settle_of_shared shared, ← attached]
  refine ⟨spanFound, ?_, ?_⟩
  · rw [reconcileRegion_eq _ found, placed]
    dsimp only
    rw [← rendered, filled, settled, PartGraph.setRegion_self found]
  · intro index content nested? write next target textual written
    obtain ⟨nodes, gives⟩ := exists_gives written
    have later := tracked.of_write textual written gives
    rw [Gives, target] at gives
    obtain ⟨document, prepared⟩ := gives
    have fills := fills_of_place tracked.sound target prepared found written placed
    obtain ⟨before, between, after, cuts⟩ := fills.cuts
    have nextFound := fills.settled
    rw [settled] at nextFound
    refine ⟨nextFound, fun id member notAbove => ?_⟩
    rw [fills.document_eq]
    exact Document.mem_children_fill fills.wellFormed fills.has cuts (later.unique nextFound) fills.kind
      member (mt (fills.isAbove_iff id).mp notAbove)

theorem Tracked.staysLive_iff (tracked : scene.Tracked latest)
    (found : scene.graph.regions[number]? = some region) (shared : region.owning = false)
    (attached : region.detached = false) (rendered : region.rendered = scene.graph.nodesOf region)
    {before between after : List NodeId}
    (cuts : Span.Cuts ⟨parent, region.previous?, region.next?⟩ (scene.document.children parent) before
      between after)
    (filled : scene.document.fill ⟨parent, region.previous?, region.next?⟩ region.rendered =
      scene.document) (recorded : ∀ known, region.parent? = some known → known = parent) :
    scene.StaysLive number region parent ↔
      (region.parent? = none → region.PointsTo scene.document parent) := by
  have wellFormed := tracked.sound.wellFormed
  rw [← Region.span?_iff wellFormed recorded (spanUnder?_of_cuts wellFormed cuts)]
  exact ⟨StaysLive.resolved,
    fun spanFound => tracked.staysLive found shared attached rendered spanFound filled⟩

theorem exists_span_of_attached {document : Document} {nodes : List NodeId} (sound : scene.Sound)
    (target : scene.graph.parts[index]?.map Part.target = some (.nodes number content nested?))
    (prepared : scene.Prepares number content write document nodes)
    (found : scene.graph.regions[number]? = some region) (shared : region.owning = false)
    (written : scene.write index write = (.ok (), result))
    (attached : result.graph.regions[number]?.map Region.detached = some false) :
    ∃ span, region.span? scene.document = some span ∧ region.place? scene.document = some span := by
  have place : region.place? scene.document = region.span? scene.document := by
    rw [Region.place?, shared]
    rfl
  cases spanFound : region.span? scene.document with
  | some span => exact ⟨span, rfl, place.trans spanFound⟩
  | none =>
      have nowhere :=
        (detached_of_not_place sound target prepared found written (place.trans spanFound)).2
      rw [nowhere] at attached
      cases attached

/-- A write that leaves the region of its part attached leaves it live, exactly if the region records
its parent or what it recorded points there. Unless a node that is shown stands above the parent, that
is so whenever anything was recorded, an anchor or a node. -/
theorem staysLive_written_iff {document : Document} (wellFormed : document.WellFormed) (config : Config)
    (template : NodeId) (run : Run Write.Textual (instantiate document config template) latest scene)
    (target : scene.graph.parts[index]?.map Part.target = some (.nodes number content nested?))
    (found : scene.graph.regions[number]? = some region) (shared : region.owning = false)
    (textual : write.Textual) (written : scene.write index write = (.ok (), result))
    (attached : result.graph.regions[number]?.map Region.detached = some false) :
    ∃ span settled, region.span? scene.document = some span ∧
      settled = { region with
        previous? := span.previous?
        next? := span.next?
        rendered := result.graph.nodesOf region
        detached := false } ∧
      result.graph.regions[number]? = some settled ∧
      (result.StaysLive number settled span.parent ↔
        (region.parent? = none → settled.PointsTo result.document span.parent)) ∧
      ((∀ id ∈ settled.rendered, ¬ scene.document.IsAbove id span.parent) →
        (settled.PointsTo result.document span.parent ↔
          (∃ anchor, settled.Anchors anchor) ∨ settled.rendered ≠ [])) := by
  obtain ⟨slots, rows, made⟩ := exists_instantiated wellFormed config template
  have tracked := run.tracked made.unwritten.tracked
  obtain ⟨nodes, gives⟩ := exists_gives written
  have later := tracked.of_write textual written gives
  rw [Gives, target] at gives
  obtain ⟨next, prepared⟩ := gives
  obtain ⟨span, spanFound, placed⟩ :=
    exists_span_of_attached tracked.sound target prepared found shared written attached
  have fills := fills_of_place tracked.sound target prepared found written placed
  have settled := fills.settled
  rw [Region.settle_of_shared shared] at settled
  have unique := later.unique settled
  change (result.graph.nodesOf region).Nodup at unique
  obtain ⟨before, between, after, cuts⟩ := fills.cuts
  obtain ⟨⟨front, inside, back, framed⟩, refilled⟩ :=
    Document.fill_fill fills.wellFormed fills.has cuts unique fills.kind
  rw [← fills.document_eq] at framed refilled
  have recorded : ∀ known, region.parent? = some known → known = span.parent := by
    intro known same
    rw [Region.span?_of_recorded same] at spanFound
    exact (Region.parent_of_spanUnder? tracked.sound.wellFormed spanFound).symm
  refine ⟨span, _, spanFound, rfl, settled,
    later.staysLive_iff settled shared rfl rfl framed refilled recorded, fun notAbove => ?_⟩
  -- Nothing that is shown stands above the parent, so all of it is among its children now.
  apply Region.pointsTo_iff_of_shown
  intro id member
  rw [← later.sound.wellFormed.linked, fills.document_eq]
  exact Document.mem_children_fill fills.wellFormed fills.has cuts unique fills.kind member
    (mt (fills.isAbove_iff id).mp (notAbove id member))

def unclosedInstance : Scene :=
  ⟨letteredInstance.document.edit (.remove ⟨6⟩), letteredInstance.graph⟩

def rewrittenInstance : Scene :=
  unclosedInstance.setValue 0 (some "Y")

def unframedInstance : Scene :=
  ⟨rewrittenInstance.document.edit (.remove ⟨5⟩), rewrittenInstance.graph⟩

def emptiedInstance : Scene :=
  (unframedInstance.write 0 (.markup "")).2

theorem run_unframed : ∃ latest, Run Write.Textual looseInstance latest unframedInstance := by
  have shown : ∃ latest, Run Write.Textual looseInstance latest letteredInstance :=
    Run.exists_value (some "X") ⟨_, .start⟩ rfl
  have unclosed : ∃ latest, Run Write.Textual looseInstance latest unclosedInstance :=
    Run.exists_edit (.remove ⟨6⟩) shown trivial
  have rewritten : ∃ latest, Run Write.Textual looseInstance latest rewrittenInstance :=
    Run.exists_value (some "Y") unclosed rfl
  exact Run.exists_edit (.remove ⟨5⟩) rewritten trivial

theorem not_staysLive_of_emptied :
    ∃ latest settled, Run Write.Textual looseInstance latest unframedInstance ∧
      unframedInstance.write 0 (.markup "") = (.ok (), emptiedInstance) ∧
      emptiedInstance.graph.regions[0]? = some settled ∧ settled.detached = false ∧
      ¬ emptiedInstance.StaysLive 0 settled ⟨3⟩ ∧
      (emptiedInstance.setValue 0 (some "Z")).graph.regions[0]?.map Region.detached = some true := by
  have wellFormed : looseSource.WellFormed :=
    Document.wellFormed_edit Document.wellFormed_new trivial
  obtain ⟨latest, run⟩ := run_unframed
  have fromSource := run
  rw [looseInstance] at fromSource
  have textual : Write.Textual (.markup "") := rfl
  have target : unframedInstance.graph.parts[0]?.map Part.target = some (.nodes 0 [⟨7⟩] none) := by
    decide +kernel
  have found : unframedInstance.graph.regions[0]? =
      some ⟨none, some ⟨5⟩, none, false, [.part 0], [⟨7⟩], false⟩ := by
    decide +kernel
  have written : unframedInstance.write 0 (.markup "") = (.ok (), emptiedInstance) := by
    obtain ⟨next, accepted⟩ := @exists_next unframedInstance 0 (.markup "") (by decide +kernel)
    rw [emptiedInstance, accepted]
  have spanFound : Region.span? ⟨none, some ⟨5⟩, none, false, [.part 0], [⟨7⟩], false⟩
      unframedInstance.document = some ⟨⟨3⟩, none, none⟩ := by
    decide +kernel
  have nothing : emptiedInstance.graph.nodesOf ⟨none, some ⟨5⟩, none, false, [.part 0], [⟨7⟩], false⟩ =
      [] := by
    decide +kernel
  obtain ⟨span, settled, resolved, rfl, recorded, live, _⟩ := staysLive_written_iff wellFormed .standard ⟨1⟩
    fromSource target found rfl textual written (by decide +kernel)
  cases spanFound.symm.trans resolved
  refine ⟨latest, _, run, written, recorded, rfl, fun stays => ?_, by decide +kernel⟩
  have first := (live.mp stays rfl).unframed rfl rfl
  simp [nothing] at first

end Scene

end LiveTemplate
