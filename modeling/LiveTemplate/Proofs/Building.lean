import LiveTemplate.Proofs.Outlines
import LiveTemplate.Proofs.Parents

/-! Building an instance from a copy of its template: what stands below every node afterwards. The
induction is on the layout of the copy; what it carries from sibling to sibling is `Built`, and
`Ready` is what it needs to start. -/

namespace LiveTemplate

namespace Scene

section
variable {start scene result : Scene} {changed moved area : List NodeId}

theorem Displays.later {id : NodeId} {content : Content} (displays : scene.Displays id content)
    (bound : scene.graph.Bound) (grows : result.graph.Grows scene.graph)
    (same : result.document.content id = scene.document.content id)
    (bindings : ∀ {index : Nat} {binding : Binding}, result.graph.bindings[index]? = some binding →
      binding.element = id → scene.graph.bindings[index]? = some binding) :
    result.Displays id content := by
  refine ⟨displays.distinct, ?_, ?_, ?_, ?_⟩
  · exact fun kind _ _ found element => displays.keyed kind (bindings found element) element
  · rw [same]
    exact displays.same
  · exact fun entry member => (displays.entry entry member).later bound grows (by rw [same])
  · rw [same]
    exact displays.other

theorem Shows.later {slot : Slot} (shows : scene.Shows slot) (bound : scene.graph.Bound)
    (grown : result.Grown scene changed moved)
    (apart : ∀ id ∈ scene.graph.slotNodes slot, scene.document.Has id ∧ id ∉ changed) :
    result.Shows slot := by
  cases slot with
  | node id content =>
      obtain ⟨has, outside⟩ := apart id (List.mem_singleton_self id)
      refine Displays.later shows bound grown.grows (grown.spares.content_eq id has outside) ?_
      exact fun found element => (grown.binding found).resolve_right (element ▸ outside)
  | region index source =>
      obtain ⟨region, found, spelled⟩ := shows
      refine ⟨region, grown.grows.region found, spelled.congr ?_ fun _ _ _ => grown.grows.expression⟩
      intro id text member reads
      have inside : id ∈ scene.graph.slotNodes (.region index source) := by
        rw [PartGraph.slotNodes, found]
        exact PartGraph.mem_nodesOf.mpr (Or.inl member)
      obtain ⟨has, outside⟩ := apart id inside
      exact ⟨(grown.spares.content_eq id has outside).trans reads.1,
        (grown.spares.children_eq id has outside).trans reads.2⟩

theorem expand_later {slots : List Slot} (shows : ∀ slot ∈ slots, scene.Shows slot)
    (unwritten : scene.Unwritten) (grown : result.Grown scene changed moved) :
    result.graph.expand slots = scene.graph.expand slots := by
  apply List.flatMap_congr
  intro slot member
  cases slot with
  | node id content => rfl
  | region index source =>
      obtain ⟨region, found, _⟩ := shows _ member
      rw [PartGraph.slotNodes, PartGraph.slotNodes, found, grown.grows.region found]
      exact unwritten.nodesOf grown.unwritten region

theorem framed_later {graph later : PartGraph} {parent? : Option NodeId} {left? right? : Option Slot}
    {slots : List Slot} (framed : graph.Framed parent? right? left? slots)
    (grows : later.Grows graph) : later.Framed parent? right? left? slots :=
  framed.congr fun _ _ region found => ⟨region, grows.region found, fun _ _ fits => fits⟩

structure Housed (result start : Scene) (area : List NodeId) (rows : List Row) : Prop where
  laid : ∀ row ∈ rows, result.document.children row.home = result.graph.expand row.slots
  framed : ∀ row ∈ rows, result.graph.Framed row.parent? none none row.slots
  shows : ∀ row ∈ rows, ∀ slot ∈ row.slots, result.Shows slot
  homes : (rows.map Row.home).Nodup
  home : ∀ row ∈ rows, result.document.Has row.home ∧
    (row.home ∈ area ∨ ¬ start.document.Has row.home)
  inside : ∀ row ∈ rows, ∀ id ∈ result.graph.expand row.slots,
    result.document.Has id ∧ (id ∈ area ∨ ¬ start.document.Has id)

theorem Housed.nil (result start : Scene) (area : List NodeId) : result.Housed start area [] := by
  constructor <;> simp

theorem Housed.weaken {rows : List Row} {wider : List NodeId} (housed : result.Housed start area rows)
    (subset : ∀ id ∈ area, id ∈ wider) : result.Housed start wider rows :=
  ⟨housed.laid, housed.framed, housed.shows, housed.homes,
    fun row member => (housed.home row member).imp_right (Or.imp_left (subset _)),
    fun row member id inside => (housed.inside row member id inside).imp_right
      (Or.imp_left (subset _))⟩

theorem Housed.later {rows : List Row} (housed : scene.Housed start area rows)
    (unwritten : scene.Unwritten) (grown : result.Grown scene changed moved)
    (apart : ∀ id, scene.document.Has id → id ∈ area ∨ ¬ start.document.Has id → id ∉ changed) :
    result.Housed start area rows := by
  have expanded (row : Row) (member : row ∈ rows) :
      result.graph.expand row.slots = scene.graph.expand row.slots :=
    expand_later (housed.shows row member) unwritten grown
  refine ⟨?_, ?_, ?_, housed.homes, ?_, ?_⟩
  · intro row member
    obtain ⟨has, scope⟩ := housed.home row member
    rw [grown.spares.children_eq _ has (apart _ has scope), expanded row member]
    exact housed.laid row member
  · exact fun row member => framed_later (housed.framed row member) grown.grows
  · intro row member slot slotMember
    apply (housed.shows row member slot slotMember).later unwritten.bound grown
    intro id inside
    obtain ⟨has, scope⟩ := housed.inside row member id
      (PartGraph.mem_expand.mpr ⟨slot, slotMember, inside⟩)
    exact ⟨has, apart id has scope⟩
  · exact fun row member => (housed.home row member).imp_left grown.spares.kinds.has
  · intro row member id inside
    rw [expanded row member] at inside
    exact (housed.inside row member id inside).imp_left grown.spares.kinds.has

theorem Housed.earlier {rows : List Row} (housed : result.Housed scene area rows)
    (kept : scene.document.KeepsKinds start.document) : result.Housed start area rows :=
  ⟨housed.laid, housed.framed, housed.shows, housed.homes,
    fun row member => (housed.home row member).imp_right
      (Or.imp_right fun missing has => missing (kept.has has)),
    fun row member id inside => (housed.inside row member id inside).imp_right
      (Or.imp_right fun missing has => missing (kept.has has))⟩

theorem Housed.append {middle : Scene} {other : List NodeId} {rows more : List Row}
    (first : middle.Housed start area rows) (unwritten : middle.Unwritten)
    (kept : middle.document.KeepsKinds start.document)
    (second : result.Housed middle other more) (grown : result.Grown middle other moved)
    (apart : ∀ id ∈ area, id ∉ other) (bound : ∀ id ∈ other, start.document.Has id) :
    result.Housed start (area ++ other) (rows ++ more) := by
  have outside (id : NodeId) (scope : id ∈ area ∨ ¬ start.document.Has id) : id ∉ other := by
    rcases scope with inArea | missing
    · exact apart id inArea
    · exact fun member => missing (bound id member)
  have earlier := first.later unwritten grown fun id _ scope => outside id scope
  have scope (id : NodeId) (known : id ∈ other ∨ ¬ middle.document.Has id) :
      id ∈ area ++ other ∨ ¬ start.document.Has id :=
    known.imp (List.mem_append_right _) fun missing has => missing (kept.has has)
  have forward (property : Row → Prop) (left : ∀ row ∈ rows, property row)
      (right : ∀ row ∈ more, property row) : ∀ row ∈ rows ++ more, property row := by
    intro row member
    exact (List.mem_append.mp member).elim (left row) (right row)
  refine ⟨forward _ earlier.laid second.laid, forward _ earlier.framed second.framed,
    forward _ earlier.shows second.shows, ?_, ?_, ?_⟩
  · rw [List.map_append]
    refine List.nodup_append'.mpr ⟨first.homes, second.homes, ?_⟩
    intro id left right
    obtain ⟨row, member, rfl⟩ := List.mem_map.mp left
    obtain ⟨otherRow, otherMember, same⟩ := List.mem_map.mp right
    obtain ⟨has, rowScope⟩ := first.home row member
    rcases (second.home otherRow otherMember).2 with inOther | missing
    · exact outside _ rowScope (same ▸ inOther)
    · exact missing (same ▸ has)
  · refine forward _ ?_ ?_
    · exact fun row member => (earlier.home row member).imp_right
        (Or.imp_left (List.mem_append_left _))
    · exact fun row member => (second.home row member).imp_right (scope _)
  · refine forward _ ?_ ?_
    · exact fun row member id inside => (earlier.inside row member id inside).imp_right
        (Or.imp_left (List.mem_append_left _))
    · exact fun row member id inside => (second.inside row member id inside).imp_right (scope _)

end

end Scene

def Level.keep (level : Level) (former ids : List NodeId) : List NodeId :=
  if level.owning then ids.filter fun id => !former.contains id else ids

theorem Level.mem_keep {level : Level} {former ids : List NodeId} {id : NodeId}
    (member : id ∈ level.keep former ids) : id ∈ ids := by
  rw [keep] at member
  split at member
  · exact List.mem_of_mem_filter member
  · exact member

theorem Level.nodup_keep {level : Level} {former ids : List NodeId} (unique : ids.Nodup) :
    (level.keep former ids).Nodup := by
  rw [keep]
  split
  · exact unique.filter _
  · exact unique

theorem Level.keep_append (level : Level) (former first second : List NodeId) :
    level.keep former (first ++ second) = level.keep former first ++ level.keep former second := by
  rw [keep, keep, keep]
  split
  · exact List.filter_append ..
  · rfl

namespace Scene

section
variable (config : Config) (base : NodeId → Content)

def standsAt (tree : Tree NodeId) : Bool :=
  (config.source? (base tree.label)).isSome

structure Ready (level : Level) (left? : Option Slot) (previous? : Option NodeId) (framed : Bool)
    (start : Scene) (trees : List (Tree NodeId)) : Prop where
  unwritten : start.Unwritten
  outlined : start.document.OutlinedAll trees
  unique : (Tree.preorderForest trees).Nodup
  content : ∀ id ∈ Tree.preorderForest trees, start.document.content id = base id
  fresh : ∀ {index : Nat} {binding : Binding}, start.graph.bindings[index]? = some binding →
    binding.element ∉ Tree.preorderForest trees
  parent : ∀ id, level.parent? = some id → start.document.Has id
  previous : ∀ id, previous? = some id → start.document.Has id
  inner : level.owning = true → level.parent?.isSome
  leads : level.owning = false → ∀ tree ∈ trees.head?, standsAt config base tree = true →
    Slot.Holds left? previous? ∧
      (level.parent? = none → framed = true → ∃ id, left? = some (.node id (.text "")))
  alone : level.owning = true → (trees.filter (standsAt config base)).length ≤ 1 ∧
    (∀ tree ∈ trees, standsAt config base tree = true ∨ (base tree.label).isBlankText = true) ∧
      (left? = none ∨ ∀ tree ∈ trees, standsAt config base tree = false)

/-- What siblings have become: nodes, the slots that these fill, and the rows of the nodes below. -/
structure Built (level : Level) (left? right? : Option Slot) (start : Scene)
    (trees : List (Tree NodeId)) (result : Scene) (ids : List NodeId) (slots : List Slot)
    (rows : List Row) : Prop where
  grown : result.Grown start (Tree.preorderForest trees)
    (trees.flatMap fun tree => Tree.preorderForest tree.children)
  housed : result.Housed start (Tree.preorderForest trees) rows
  recorded : ∀ row ∈ rows, row.parent? = some row.home
  origin : ∀ id ∈ ids, id ∈ trees.map Tree.label ∨
    ∃ text, result.document.Sprouts start.document id text
  unique : ids.Nodup
  kept : ∀ former, (∀ tree ∈ trees, tree.label ∈ former) →
    (∀ id ∈ former, start.document.Has id) → level.keep former ids = result.graph.expand slots
  framed : result.graph.Framed level.parent? right? left? slots
  shows : ∀ slot ∈ slots, result.Shows slot
  counts : Counts (slots.flatMap Slot.regions ++ rows.flatMap Row.regions)
    start.graph.regions.size result.graph.regions.size
  mirrors : Mirrors config rows level.owning (trees.map (Tree.map base)) slots
  silent : level.owning = true → (∀ tree ∈ trees, standsAt config base tree = false) → slots = []
  heads : level.owning = false → (∀ tree ∈ trees.head?, standsAt config base tree = false) →
    Slot.Holds slots.head? (trees.head?.map Tree.label)
  hangs : Tree.NestsAll (fun id => (base id).kind ≠ .text) trees →
    ∀ row ∈ rows, row.regions ≠ [] → Hangs rows slots row.home

end

section
variable {config : Config} {base : NodeId → Content} {level : Level} {left? right? : Option Slot}
  {start result : Scene} {trees : List (Tree NodeId)} {ids : List NodeId} {slots : List Slot}
  {rows : List Row}

theorem label_mem_preorderForest {id : NodeId} (member : id ∈ trees.map Tree.label) :
    id ∈ Tree.preorderForest trees := by
  obtain ⟨tree, treeMember, rfl⟩ := List.mem_map.mp member
  exact Tree.preorder_subset_forest treeMember _ (Tree.label_mem_preorder tree)

section
variable {parent : NodeId}
  (built : Built config base level left? right? start trees result ids slots rows)
  (bound : start.document.Has parent)
  (children : start.document.children parent = trees.map Tree.label)
  (outside : parent ∉ Tree.preorderForest trees)

include built bound children outside

theorem Built.children_eq : result.document.children parent = trees.map Tree.label :=
  (built.grown.spares.children_eq parent bound outside).trans children

/-- What stays of siblings are children of their parent and new texts. -/
theorem Built.stays {id : NodeId} (member : id ∈ level.keep (trees.map Tree.label) ids) :
    id ∈ result.document.children parent ∨
      ∃ text, result.document.Sprouts start.document id text := by
  rw [built.children_eq bound children outside]
  exact built.origin id (Level.mem_keep member)

theorem Built.scope_of_stays {id : NodeId} (member : id ∈ level.keep (trees.map Tree.label) ids) :
    id ∈ Tree.preorderForest trees ∨ ¬ start.document.Has id := by
  rcases built.stays bound children outside member with child | ⟨text, sprouts⟩
  · rw [built.children_eq bound children outside] at child
    exact Or.inl (label_mem_preorderForest child)
  · exact Or.inr sprouts.missing

theorem Built.adoptable :
    result.document.Adoptable parent (level.keep (trees.map Tree.label) ids) := by
  have wellFormed := built.grown.unwritten.wellFormed
  refine ⟨Level.nodup_keep built.unique, ?_, ?_, ?_⟩
  · intro id member
    rcases built.stays bound children outside member with child | ⟨text, sprouts⟩
    · exact wellFormed.has_child child
    · exact sprouts.has
  · intro id member
    rcases built.stays bound children outside member with child | ⟨text, sprouts⟩
    · exact wellFormed.kind_of_parent? ((wellFormed.linked parent id).mp child)
    · exact sprouts.kind_ne
  · intro id member
    rcases built.stays bound children outside member with child | ⟨text, sprouts⟩
    · exact wellFormed.not_isAbove_of_child child
    · intro above
      rcases Relation.ReflTransGen.cases_head above with same | ⟨child, linked, _⟩
      · exact sprouts.missing (same ▸ bound)
      · have below := (wellFormed.linked id child).mpr linked
        rw [Document.children, sprouts.node] at below
        cases below

theorem Built.origin_keep : ∀ id ∈ level.keep (trees.map Tree.label) ids,
    id ∈ result.document.children parent ∨ result.document.parent? id = none := by
  intro id member
  refine (built.stays bound children outside member).imp_right ?_
  rintro ⟨_, sprouts⟩
  exact congrArg Node.parent? sprouts.node

theorem Built.regrouped :
    result.document.Regrouped parent (level.keep (trees.map Tree.label) ids)
      (result.document.arrange parent (level.keep (trees.map Tree.label) ids)) :=
  Document.arrange_regrouped built.grown.unwritten.wellFormed (built.grown.spares.kinds.has bound)
    (built.adoptable bound children outside).bound (built.origin_keep bound children outside)

theorem Built.grown_arranged :
    Grown { result with
      document := result.document.arrange parent (level.keep (trees.map Tree.label) ids) }
      result [parent] (level.keep (trees.map Tree.label) ids ++ trees.map Tree.label) := by
  have unwritten := built.grown.unwritten
  have regrouped := built.regrouped bound children outside
  have listed := built.children_eq bound children outside
  refine ⟨unwritten.of_document (regrouped.wellFormed unwritten.wellFormed
      (built.adoptable bound children outside)) regrouped.keepsKinds, .refl _,
    ⟨regrouped.keepsKinds, fun id _ _ => regrouped.content id, ?_, ?_⟩, Or.inl⟩
  · intro id _ other
    rw [List.mem_singleton] at other
    exact regrouped.children_of_origin unwritten.wellFormed other (built.origin_keep bound children outside)
  · intro id has still
    rw [List.mem_append, not_or] at still
    rw [regrouped.parent?, if_neg still.1, if_neg]
    intro linked
    apply still.2
    rw [← listed]
    exact (unwritten.wellFormed.linked parent id).mpr linked

theorem Built.arranged (framed : result.graph.Framed level.parent? none none slots)
    (wellFormed : start.document.WellFormed) :
    let last : Scene := { result with
      document := result.document.arrange parent (level.keep (trees.map Tree.label) ids) }
    last.Grown start (parent :: Tree.preorderForest trees) (Tree.preorderForest trees) ∧
      last.Housed start (parent :: Tree.preorderForest trees) (⟨parent, level.parent?, slots⟩ :: rows) ∧
      ∀ id, last.document.content id = result.document.content id := by
  intro last
  have unwritten := built.grown.unwritten
  have regrouped := built.regrouped bound children outside
  have arranged := built.grown_arranged bound children outside
  have has := (built.adoptable bound children outside).bound
  have scope (id : NodeId) (kept : id ∈ level.keep (trees.map Tree.label) ids) :=
    built.scope_of_stays bound children outside kept
  have filled : last.document.children parent = last.graph.expand slots := by
    rw [regrouped.children, if_pos rfl]
    refine built.kept _ (fun tree member => List.mem_map_of_mem member) ?_
    intro id member
    exact wellFormed.has_child (children ▸ member)
  refine ⟨?_, ?_, regrouped.content⟩
  · refine (arranged.trans built.grown).weaken ?_ ?_
    · intro id member
      rw [List.mem_append, List.mem_singleton] at member
      exact List.mem_cons.mpr member.symm
    · intro id member known
      rw [List.mem_append, List.mem_append] at member
      rcases member with below | kept | label
      · exact Tree.below_subset_forest id below
      · exact (scope id kept).resolve_right fun missing => missing known
      · exact label_mem_preorderForest label
  -- The parent is neither new nor below itself, so that no row sees its children change.
  · have apart : ∀ id, result.document.Has id →
        id ∈ Tree.preorderForest trees ∨ ¬ start.document.Has id → id ∉ [parent] := by
      rintro id _ scope member
      rw [List.mem_singleton] at member
      subst member
      exact scope.elim outside fun missing => missing bound
    have inner := (built.housed.later unwritten arranged apart).weaken
      fun id member => List.mem_cons_of_mem parent member
    have known : ∀ id ∈ last.graph.expand slots, result.document.Has id ∧
        (id ∈ Tree.preorderForest trees ∨ ¬ start.document.Has id) := by
      intro id member
      rw [← filled, regrouped.children, if_pos rfl] at member
      exact ⟨has id member, scope id member⟩
    refine ⟨?_, ?_, ?_, ?_, ?_, ?_⟩
    · exact List.forall_mem_cons.mpr ⟨filled, inner.laid⟩
    · exact List.forall_mem_cons.mpr ⟨framed, inner.framed⟩
    · refine List.forall_mem_cons.mpr ⟨?_, inner.shows⟩
      intro slot member
      refine (built.shows slot member).later unwritten.bound arranged ?_
      intro id inside
      obtain ⟨present, scope⟩ := known id (PartGraph.mem_expand.mpr ⟨slot, member, inside⟩)
      exact ⟨present, apart id present scope⟩
    · refine List.nodup_cons.mpr ⟨?_, inner.homes⟩
      intro member
      obtain ⟨row, rowMember, same⟩ := List.mem_map.mp member
      obtain ⟨present, scope⟩ := built.housed.home row rowMember
      exact apart _ present scope (List.mem_singleton.mpr same)
    · refine List.forall_mem_cons.mpr ⟨⟨arranged.spares.kinds.has
        (built.grown.spares.kinds.has bound), ?_⟩, inner.home⟩
      exact Or.inl (List.mem_cons_self ..)
    · refine List.forall_mem_cons.mpr ⟨?_, inner.inside⟩
      intro id member
      obtain ⟨present, scope⟩ := known id member
      exact ⟨arranged.spares.kinds.has present, scope.imp_left (List.mem_cons_of_mem _)⟩

end

end

section
variable {config : Config} {base : NodeId → Content}

theorem isSource_eq {scene : Scene} {tree : Tree NodeId}
    (content : scene.document.content tree.label = base tree.label) :
    scene.isSource config tree.label = standsAt config base tree := by
  rw [isSource, content, standsAt]

theorem isOwned_eq {scene : Scene} {children : List (Tree NodeId)}
    (content : ∀ id ∈ Tree.preorderForest children, scene.document.content id = base id) :
    scene.isOwned config (children.map Tree.label) =
      config.isOwned ((children.map (Tree.map base)).map Tree.label) := by
  have labels : (children.map (Tree.map base)).map Tree.label =
      (children.map Tree.label).map scene.document.content := by
    rw [List.map_map, List.map_map]
    apply List.map_congr_left
    intro tree member
    rw [Function.comp, Function.comp, Tree.label_map,
      content _ (label_mem_preorderForest (List.mem_map_of_mem member))]
  rw [labels]
  generalize children.map Tree.label = ids
  rw [isOwned, Config.isOwned, List.filter_map, List.length_map, List.all_map]
  rfl

def Buildable (config : Config) (base : NodeId → Content) (trees : List (Tree NodeId)) : Prop :=
  ∀ (level : Level) (left? : Option Slot) (previous? : Option NodeId) (framed : Bool) (start : Scene),
    Ready config base level left? previous? framed start trees →
      ∃ slots rows, Built config base level left? none start trees
        (buildAll config level previous? framed start trees).2
        (buildAll config level previous? framed start trees).1 slots rows

structure Below (config : Config) (base : NodeId → Content) (start : Scene) (id : NodeId)
    (children : List (Tree NodeId)) (result : Scene) (slots : List Slot) (rows : List Row) : Prop where
  grown : result.Grown start (id :: Tree.preorderForest children) (Tree.preorderForest children)
  housed : result.Housed start (id :: Tree.preorderForest children) (⟨id, some id, slots⟩ :: rows)
  recorded : ∀ row ∈ rows, row.parent? = some row.home
  counts : Counts (slots.flatMap Slot.regions ++ rows.flatMap Row.regions)
    start.graph.regions.size result.graph.regions.size
  content : result.document.content id = start.document.content id
  binding : ∀ {index : Nat} {binding : Binding}, result.graph.bindings[index]? = some binding →
    binding.element = id → start.graph.bindings[index]? = some binding
  mirrors : Mirrors config rows (config.isOwned ((children.map (Tree.map base)).map Tree.label))
    (children.map (Tree.map base)) slots
  bare : children = [] → ∀ row ∈ (⟨id, some id, slots⟩ :: rows : List Row), row.regions = []
  hangs : Tree.NestsAll (fun id => (base id).kind ≠ .text) children →
    ∀ row ∈ rows, row.regions ≠ [] → Hangs rows slots row.home

structure Rooted (base : NodeId → Content) (start : Scene) (id : NodeId)
    (children : List (Tree NodeId)) : Prop where
  unwritten : start.Unwritten
  outlined : start.document.Outlined (.node id children)
  unique : (Tree.node id children).preorder.Nodup
  content : ∀ other ∈ Tree.preorderForest children, start.document.content other = base other
  fresh : ∀ {index : Nat} {binding : Binding}, start.graph.bindings[index]? = some binding →
    binding.element ∉ Tree.preorderForest children

theorem Rooted.exists_below {start : Scene} {id : NodeId} {children : List (Tree NodeId)}
    (rooted : Rooted base start id children) (buildable : Buildable config base children) :
    ∃ slots rows, Below config base start id children
      (buildBelow config id (children.map Tree.label)
        (fun level scene => buildAll config level none false scene children) start) slots rows := by
  obtain ⟨unwritten, outlined, unique, content, fresh⟩ := rooted
  obtain ⟨outside, childrenUnique⟩ := List.nodup_cons.mp (Tree.preorder.eq_def _ ▸ unique)
  have owned : start.isOwned config (children.map Tree.label) =
      config.isOwned ((children.map (Tree.map base)).map Tree.label) := isOwned_eq content
  have ready : Ready config base ⟨some id, start.isOwned config (children.map Tree.label)⟩ none none
      false start children := by
    refine ⟨unwritten, outlined.2.2, childrenUnique, content, fresh, ?_, by simp, fun _ => rfl, ?_, ?_⟩
    · intro other same
      cases same
      exact outlined.1
    · exact fun _ _ _ _ => ⟨trivial, fun none => by cases none⟩
    · intro owning
      have owning : start.isOwned config (children.map Tree.label) = true := owning
      rw [owned, Config.isOwned, Bool.and_eq_true, beq_iff_eq, List.all_eq_true] at owning
      refine ⟨?_, ?_, Or.inl rfl⟩
      · have single := owning.1
        rw [List.filter_map, List.length_map, List.filter_map, List.length_map] at single
        have same : standsAt config base =
            ((fun content => (config.source? content).isSome) ∘ Tree.label) ∘ Tree.map base := by
          funext tree
          simp only [Function.comp, Tree.label_map, standsAt]
        rw [same]
        exact single.le
      · intro tree member
        have known := owning.2 (base tree.label) (by
          rw [List.map_map]
          exact List.mem_map.mpr ⟨tree, member, Tree.label_map base tree⟩)
        exact (Bool.or_eq_true _ _).mp known
  obtain ⟨slots, rows, built⟩ := buildable _ _ _ _ _ ready
  obtain ⟨grown, housed, same⟩ := built.arranged outlined.1 outlined.2.1 outside built.framed
    unwritten.wellFormed
  refine ⟨slots, rows, grown, housed, built.recorded, built.counts, ?_, ?_, owned ▸ built.mirrors, ?_,
    built.hangs⟩
  · exact (same id).trans (built.grown.spares.content_eq id outlined.1 outside)
  · exact fun found element => (built.grown.binding found).resolve_right (element ▸ outside)
  · rintro rfl row member
    have counts := built.counts
    rw [buildAll] at counts
    have none := List.append_eq_nil_iff.mp counts.eq_nil
    rcases List.mem_cons.mp member with rfl | below
    · exact none.1
    · exact List.flatMap_eq_nil_iff.mp none.2 row below

section
variable {level : Level} {left? : Option Slot} {previous? : Option NodeId} {framed : Bool}
  {start : Scene} {id : NodeId} {children rest : List (Tree NodeId)}

theorem build_of_plain {following : List NodeId}
    (plain : config.source? (start.document.content id) = none) :
    build config level previous? framed following start (.node id children) =
      ([id], buildBelow config id (children.map Tree.label)
        (fun level scene => buildAll config level none false scene children)
        (start.addBindings id)) := by
  rw [build, plain]

theorem Ready.inside {tree : Tree NodeId}
    (_ : Ready config base level left? previous? framed start (tree :: rest)) :
    ∀ other ∈ tree.preorder, other ∈ Tree.preorderForest (tree :: rest) :=
  Tree.preorder_subset_forest (List.mem_cons_self ..)

theorem Ready.unique_head {tree : Tree NodeId}
    (ready : Ready config base level left? previous? framed start (tree :: rest)) :
    tree.preorder.Nodup ∧ (Tree.preorderForest rest).Nodup ∧
      ∀ other ∈ tree.preorder, other ∉ Tree.preorderForest rest := by
  have unique := ready.unique
  rw [Tree.preorderForest] at unique
  obtain ⟨first, later, apart⟩ := List.nodup_append'.mp unique
  exact ⟨first, later, fun other member => apart member⟩

theorem Ready.rooted {scene : Scene}
    (ready : Ready config base level left? previous? framed start (.node id children :: rest))
    (grown : scene.Grown start [id] [])
    (kept : scene.document.children id = start.document.children id) :
    Rooted base scene id children := by
  have unique := ready.unique_head.1
  have inside (other : NodeId) (below : other ∈ Tree.preorderForest children) :=
    ready.inside other (Tree.below_subset_preorder (.node id children) other below)
  have outside : ∀ other ∈ Tree.preorderForest children, other ∉ [id] := by
    rw [Tree.preorder, List.nodup_cons] at unique
    intro other member same
    rw [List.mem_singleton] at same
    exact unique.1 (same ▸ member)
  obtain ⟨bound, labels, outlined⟩ := ready.outlined.1
  refine ⟨grown.unwritten, ⟨grown.spares.kinds.has bound, kept.trans labels,
    Document.OutlinedAll.spares grown.spares children outlined outside⟩, unique, ?_, ?_⟩
  · intro other member
    rw [grown.spares.content_eq other (Document.OutlinedAll.has children outlined other member)
      (outside other member)]
    exact ready.content other (inside other member)
  · intro index binding found member
    rcases grown.binding found with older | new
    · exact ready.fresh older (inside _ member)
    · exact outside _ member new

theorem Ready.single {tree : Tree NodeId}
    (ready : Ready config base level left? previous? framed start (tree :: rest))
    (owning : level.owning = true) (stands : standsAt config base tree = true) :
    ∀ other ∈ rest, standsAt config base other = false := by
  obtain ⟨single, _, _⟩ := ready.alone owning
  rw [List.filter_cons_of_pos stands, List.length_cons] at single
  have empty := List.eq_nil_of_length_eq_zero (Nat.le_zero.mp (Nat.le_of_succ_le_succ single))
  intro other member
  exact Bool.eq_false_iff.mpr (List.filter_eq_nil_iff.mp empty other member)

theorem Ready.hangs_plain {scene result : Scene} {inner : List Slot} {rows : List Row}
    (ready : Ready config base level left? previous? framed start (.node id children :: rest))
    (plain : config.source? (base id) = none)
    (below : Below config base scene id children result inner rows)
    (nests : Tree.NestsAll (fun id => (base id).kind ≠ .text) [.node id children]) :
    ∀ row ∈ (⟨id, some id, inner⟩ :: rows : List Row), row.regions ≠ [] →
      Hangs (⟨id, some id, inner⟩ :: rows) (if level.owning then [] else [.node id (base id)])
        row.home := by
  intro row member regions
  rw [Tree.NestsAll, Tree.Nests] at nests
  cases owning : level.owning with
  | true =>
      -- Beside a region that owns its parent only blank texts are left, with nothing below them.
      have blank : (base id).isBlankText = true :=
        ((ready.alone owning).2.1 _ (List.mem_cons_self ..)).resolve_left (by
          simp [standsAt, Tree.label, plain])
      have childless : children = [] := by
        by_contra above
        exact nests.1.1 above (Content.kind_of_isBlankText blank)
      exact (regions (below.bare childless row member)).elim
  | false =>
      have here : Hangs (⟨id, some id, inner⟩ :: rows) [.node id (base id)] id :=
        .here (List.mem_singleton_self _)
      rcases List.mem_cons.mp member with rfl | inside
      · exact here
      · exact here.trans ⟨id, some id, inner⟩ (below.hangs nests.1.2 row inside regions)
          (List.mem_cons_self ..) fun row => List.mem_cons_of_mem _

/-- A node that is no source stays as it is, and what is below it is instantiated. -/
theorem Ready.built_plain
    (ready : Ready config base level left? previous? framed start (.node id children :: rest))
    (buildable : Buildable config base children) (plain : config.source? (base id) = none)
    (following : List NodeId) :
    ∃ slots rows,
      (∀ right?, Built config base level left? right? start [.node id children]
        (build config level previous? framed following start (.node id children)).2
        (build config level previous? framed following start (.node id children)).1 slots rows) ∧
      (build config level previous? framed following start (.node id children)).1 = [id] ∧
      (level.owning = false → slots = [.node id (base id)]) := by
  have root := ready.inside id (Tree.label_mem_preorder (.node id children))
  have content := ready.content id root
  rw [build_of_plain (content ▸ plain)]
  obtain ⟨grown, regions, kept, displays⟩ := grown_addBindings ready.unwritten
    (fun found same => ready.fresh found (same ▸ root))
  obtain ⟨inner, rows, below⟩ := (ready.rooted grown kept).exists_below buildable
  have shown := displays.later grown.unwritten.bound below.grown.grows below.content below.binding
  rw [content] at shown
  have forest : Tree.preorderForest [.node id children] = id :: Tree.preorderForest children := by
    rw [Tree.preorderForest_singleton, Tree.preorder]
  -- A region that owns the parent leaves no slot for the node, which is a blank text then.
  refine ⟨if level.owning then [] else [.node id (base id)], ⟨id, some id, inner⟩ :: rows,
    fun right? => ?_, rfl, fun owning => by rw [owning]; rfl⟩
  refine {
    grown := ?_
    housed := ?_
    recorded := List.forall_mem_cons.mpr ⟨rfl, below.recorded⟩
    origin := fun other member => Or.inl member
    unique := List.nodup_singleton id
    kept := ?_
    framed := ?_
    shows := ?_
    counts := ?_
    mirrors := ?_
    silent := fun owning _ => by rw [owning]; rfl
    heads := fun owning _ => by rw [owning]; rfl
    hangs := ready.hangs_plain plain below
  }
  · rw [forest, List.flatMap_singleton]
    exact (below.grown.trans grown).weaken (by simp) fun other member _ => by
      simpa [Tree.children] using member
  · rw [forest]
    exact below.housed.earlier grown.spares.kinds
  · intro former labels _
    have known : id ∈ former := labels _ (List.mem_singleton_self _)
    cases owning : level.owning with
    | false => simp [Level.keep, owning, PartGraph.slotNodes]
    | true => simpa [Level.keep, owning] using known
  · split
    · trivial
    · exact ⟨by rintro _ _ ⟨⟩, trivial⟩
  · intro slot member
    split at member
    · cases member
    · rw [List.mem_singleton.mp member]
      exact shown
  · have counts := below.counts
    rw [regions] at counts
    split <;> exact counts
  · rw [List.map_singleton, Tree.map, Tree.mapForest_eq_map]
    cases owning : level.owning with
    | false =>
        refine .kept plain (List.mem_cons_self ..) (below.mirrors.mono ?_) .nil
        exact fun row member => List.mem_cons_of_mem _ member
    | true =>
        refine .dropped plain ?_ .nil
        refine ((ready.alone owning).2.1 _ (List.mem_cons_self ..)).resolve_left ?_
        simp [standsAt, Tree.label, plain]

def anchorSlots (anchor? : Option NodeId) : List Slot :=
  anchor?.toList.map fun id => .node id (.text "")

def anchorRows (anchor? : Option NodeId) : List Row :=
  anchor?.toList.map fun id => ⟨id, some id, []⟩

structure Sourced (level : Level) (previous? next? : Option NodeId) (start : Scene)
    (tree : Tree NodeId) (source : Source) (lead? trail? : Option NodeId) (shown : List NodeId)
    (result : Scene) (rows : List Row) : Prop where
  grown : result.Grown start tree.preorder (Tree.preorderForest tree.children)
  housed : result.Housed start tree.preorder (anchorRows lead? ++ anchorRows trail? ++ rows)
  recorded : ∀ row ∈ rows, row.parent? = some row.home
  sprouts : ∀ id ∈ lead?.toList ++ shown ++ trail?.toList,
    ∃ text, result.document.Sprouts start.document id text
  anchors : ∀ id ∈ lead?.toList ++ trail?.toList, result.document.content id = .text ""
  unique : (lead?.toList ++ shown ++ trail?.toList).Nodup
  region : ∃ region, result.graph.regions[start.graph.regions.size]? = some region ∧
    region.parent? = level.parent? ∧ region.previous? = (lead? <|> previous?) ∧
    region.next? = (trail? <|> next?) ∧ region.owning = level.owning ∧
    result.graph.nodesOf region = shown ∧
    result.graph.Spelled result.IsText source.tokens region.group
  counts : Counts (start.graph.regions.size :: rows.flatMap Row.regions)
    start.graph.regions.size result.graph.regions.size
  bare : (∀ tokens, source = .inline tokens → tree.children = []) → ∀ row ∈ rows, row.regions = []

theorem expand_anchorSlots (graph : PartGraph) (anchor? : Option NodeId) :
    graph.expand (anchorSlots anchor?) = anchor?.toList := by
  cases anchor? <;> rfl

theorem regions_anchorSlots (anchor? : Option NodeId) :
    (anchorSlots anchor?).flatMap Slot.regions = [] := by
  cases anchor? <;> rfl

theorem regions_anchorRows {anchor? : Option NodeId} {row : Row} (member : row ∈ anchorRows anchor?) :
    row.regions = [] := by
  obtain ⟨_, _, rfl⟩ := List.mem_map.mp member
  rfl

theorem parent?_anchorRows {anchor? : Option NodeId} {row : Row} (member : row ∈ anchorRows anchor?) :
    row.parent? = some row.home := by
  obtain ⟨_, _, rfl⟩ := List.mem_map.mp member
  rfl

theorem displays_text {scene : Scene} {id : NodeId} {text : String}
    (content : scene.document.content id = .text text) : scene.Displays id (.text text) := by
  refine ⟨List.Pairwise.nil, by rintro ⟨⟩, ⟨[], content⟩, by rintro _ ⟨⟩, ?_⟩
  intro name _
  rw [content]
  rfl

theorem shows_anchorSlots {scene : Scene} {anchor? : Option NodeId}
    (texts : ∀ id ∈ anchor?.toList, scene.document.content id = .text "") :
    ∀ slot ∈ anchorSlots anchor?, scene.Shows slot := by
  intro slot member
  obtain ⟨anchor, anchorMember, rfl⟩ := List.mem_map.mp member
  exact displays_text (texts anchor anchorMember)

theorem mirrors_anchorSlots {rows : List Row} {owning : Bool} {trees : List (Tree Content)}
    {slots : List Slot} {anchor? : Option NodeId} (known : ∀ row ∈ anchorRows anchor?, row ∈ rows)
    (mirrors : Mirrors config rows owning trees slots) :
    Mirrors config rows owning trees (anchorSlots anchor? ++ slots) := by
  cases anchor? with
  | none => exact mirrors
  | some id => exact .anchor (known _ (List.mem_singleton_self _)) mirrors

theorem framed_anchorSlots {graph : PartGraph} {parent? : Option NodeId} {left? right? : Option Slot}
    (anchor? : Option NodeId) : graph.Framed parent? right? left? (anchorSlots anchor?) := by
  cases anchor? with
  | none => trivial
  | some id => exact ⟨by rintro _ _ ⟨⟩, trivial⟩

theorem getLast?_anchorSlots (anchor? : Option NodeId) :
    (anchorSlots anchor?).getLast? = anchor?.map fun id => .node id (.text "") := by
  cases anchor? <;> rfl

theorem head?_anchorSlots (anchor? : Option NodeId) :
    (anchorSlots anchor?).head? = anchor?.map fun id => .node id (.text "") := by
  cases anchor? <;> rfl

theorem holds_anchor {anchor? known? : Option NodeId} {slot? : Option Slot}
    (holds : anchor? = none → Slot.Holds slot? known?) :
    Slot.Holds ((anchor?.map fun id => .node id (.text "")).or slot?) (anchor? <|> known?) := by
  cases anchor? with
  | none => exact holds rfl
  | some id => exact rfl

def Follows (config : Config) (base : NodeId → Content) (level : Level) (right? : Option Slot)
    (rest : List (Tree NodeId)) : Prop :=
  (level.owning = true → right? = none) ∧
    (level.owning = false → (∀ next ∈ rest.head?, standsAt config base next = false) →
      Slot.Holds right? (rest.head?.map Tree.label))

/-- The region of a source lies between the slots before and after it. -/
theorem Ready.fits {region : Region} {right? : Option Slot} {tree : Tree NodeId}
    {lead? trail? : Option NodeId}
    (ready : Ready config base level left? previous? framed start (tree :: rest))
    (stands : standsAt config base tree = true) (parent : region.parent? = level.parent?)
    (previous : region.previous? = (lead? <|> previous?))
    (next : region.next? = (trail? <|> rest.head?.map Tree.label))
    (owning : region.owning = level.owning)
    (lead : lead?.isSome = (level.isOuter && !framed))
    (trail : trail?.isSome = (level.isOuter || rest.head?.any (standsAt config base)))
    (follows : Follows config base level right? rest) :
    region.Fits level.parent? ((lead?.map fun id => .node id (.text "")).or left?)
      ((trail?.map fun id => .node id (.text "")).or right?) := by
  refine ⟨parent, ?_, ?_, ?_, ?_⟩
  -- What owns its parent is the only region there: nothing stands beside it and no anchor is made.
  · intro alone
    rw [owning] at alone
    have inner := ready.inner alone
    have notOuter : level.isOuter = false := by simpa [Level.isOuter] using inner
    obtain ⟨_, _, free⟩ := ready.alone alone
    have leadNone : lead? = none := by simpa [notOuter] using lead
    have leftNone : left? = none := by
      refine free.resolve_right fun none => ?_
      rw [none tree (List.mem_cons_self ..)] at stands
      cases stands
    have nextPlain : rest.head?.any (standsAt config base) = false := by
      cases rest with
      | nil => rfl
      | cons following _ => exact ready.single alone stands following (List.mem_cons_self ..)
    have trailNone : trail? = none := by simpa [notOuter, nextPlain] using trail
    refine ⟨inner, by rw [leadNone, leftNone]; rfl, ?_⟩
    rw [trailNone, follows.1 alone]
    rfl
  · intro shared
    rw [previous]
    apply holds_anchor
    intro _
    exact (ready.leads (owning ▸ shared) tree rfl stands).1
  · intro shared
    rw [next]
    apply holds_anchor
    intro none
    rw [none] at trail
    have plain := (Bool.or_eq_false_iff.mp trail.symm).2
    refine follows.2 (owning ▸ shared) fun next member => ?_
    rw [Option.mem_def.mp member] at plain
    exact plain
  · intro outer
    have isOuter : level.isOuter = true := by simp [Level.isOuter, outer]
    have notOwning : level.owning = false := by
      by_contra owns
      have inner := ready.inner (by simpa using owns)
      rw [outer] at inner
      cases inner
    constructor
    -- The anchor in front is new, or it is the one that the region before it ended with.
    · cases framed with
      | false =>
          obtain ⟨id, same⟩ := Option.isSome_iff_exists.mp (lead.trans (by simp [isOuter]))
          exact ⟨id, by rw [same]; rfl⟩
      | true =>
          have none : lead? = none := by simpa using lead
          obtain ⟨id, same⟩ := (ready.leads notOwning tree rfl stands).2 outer rfl
          exact ⟨id, by rw [none, same]; rfl⟩
    · obtain ⟨id, same⟩ := Option.isSome_iff_exists.mp (trail.trans (by simp [isOuter]))
      exact ⟨id, by rw [same]; rfl⟩

section
variable {source : Source} {lead? trail? : Option NodeId} {shown : List NodeId} {result : Scene}
  {rows : List Row}
  (sourced : Sourced level previous? (rest.head?.map Tree.label) start (.node id children) source lead?
    trail? shown result rows)

include sourced

theorem Sourced.expand_eq :
    result.graph.expand
      (anchorSlots lead? ++ .region start.graph.regions.size source :: anchorSlots trail?) =
        lead?.toList ++ shown ++ trail?.toList := by
  obtain ⟨region, found, _, _, _, _, nodes, _⟩ := sourced.region
  have nodesHere : result.graph.slotNodes (.region start.graph.regions.size source) = shown := by
    rw [PartGraph.slotNodes, found]
    exact nodes
  rw [PartGraph.expand_append, PartGraph.expand_cons, nodesHere, expand_anchorSlots,
    expand_anchorSlots, List.append_assoc]

theorem Sourced.keep_eq {former : List NodeId} (known : ∀ id ∈ former, start.document.Has id) :
    level.keep former (lead?.toList ++ shown ++ trail?.toList) =
      lead?.toList ++ shown ++ trail?.toList := by
  rw [Level.keep]
  split
  · apply List.filter_eq_self.mpr
    intro other member
    obtain ⟨text, sprouts⟩ := sourced.sprouts other member
    rw [Bool.not_eq_true', Bool.eq_false_iff, ne_eq, List.contains_iff_mem]
    exact fun old => sprouts.missing (known other old)
  · rfl

theorem Sourced.shows : ∀ slot ∈ anchorSlots lead? ++
    .region start.graph.regions.size source :: anchorSlots trail?, result.Shows slot := by
  obtain ⟨region, found, _, _, _, _, _, spelled⟩ := sourced.region
  intro slot member
  rcases List.mem_append.mp member with leading | later
  · exact shows_anchorSlots (fun id inside => sourced.anchors id (List.mem_append_left _ inside)) slot
      leading
  · rcases List.mem_cons.mp later with rfl | trailing
    · exact ⟨region, found, spelled⟩
    · exact shows_anchorSlots (fun id inside => sourced.anchors id (List.mem_append_right _ inside))
        slot trailing

theorem Sourced.bare_rows (childless : ∀ tokens, source = .inline tokens → children = []) :
    ∀ row ∈ anchorRows lead? ++ anchorRows trail? ++ rows, row.regions = [] := by
  intro row member
  rw [List.mem_append, List.mem_append] at member
  rcases member with (leading | trailing) | below
  · exact regions_anchorRows leading
  · exact regions_anchorRows trailing
  · exact sourced.bare childless row below

theorem Sourced.built {right? : Option Slot}
    (ready : Ready config base level left? previous? framed start (.node id children :: rest))
    (found : config.source? (base id) = some source)
    (lead : lead?.isSome = (level.isOuter && !framed))
    (trail : trail?.isSome = (level.isOuter || rest.head?.any (standsAt config base)))
    (follows : Follows config base level right? rest) :
    Built config base level left? right? start [.node id children] result
      (lead?.toList ++ shown ++ trail?.toList)
      (anchorSlots lead? ++ .region start.graph.regions.size source :: anchorSlots trail?)
      (anchorRows lead? ++ anchorRows trail? ++ rows) := by
  have stands : standsAt config base (.node id children) = true := by
    simp [standsAt, Tree.label, found]
  obtain ⟨region, regionFound, parent, previous, next, owning, _⟩ := sourced.region
  refine {
    grown := ?_
    housed := ?_
    recorded := ?_
    origin := fun other member => Or.inr (sourced.sprouts other member)
    unique := sourced.unique
    kept := fun former _ known => (sourced.keep_eq known).trans sourced.expand_eq.symm
    framed := ?_
    shows := sourced.shows
    counts := ?_
    mirrors := ?_
    silent := fun _ none => ?_
    heads := fun _ none => ?_
    hangs := ?_
  }
  · rw [Tree.preorderForest_singleton, List.flatMap_singleton]
    exact sourced.grown
  · rw [Tree.preorderForest_singleton]
    exact sourced.housed
  · intro row member
    rw [List.mem_append, List.mem_append] at member
    rcases member with (leading | trailing) | below
    · exact parent?_anchorRows leading
    · exact parent?_anchorRows trailing
    · exact sourced.recorded row below
  · refine (framed_anchorSlots lead?).append ⟨?_, framed_anchorSlots trail?⟩
    intro index other same
    cases same
    refine ⟨region, regionFound, ?_⟩
    rw [getLast?_anchorSlots, head?_anchorSlots]
    exact ready.fits stands parent previous next owning lead trail follows
  · have none (anchor? : Option NodeId) : (anchorRows anchor?).flatMap Row.regions = [] :=
      List.flatMap_eq_nil_iff.mpr fun _ => regions_anchorRows
    rw [List.flatMap_append, List.flatMap_cons, List.flatMap_append, List.flatMap_append,
      regions_anchorSlots, regions_anchorSlots, none, none]
    exact sourced.counts
  · refine mirrors_anchorSlots ?_ ?_
    · exact fun row member => List.mem_append_left _ (List.mem_append_left _ member)
    · rw [List.map_singleton, Tree.map]
      refine .source found ?_
      rw [← List.append_nil (anchorSlots trail?)]
      refine mirrors_anchorSlots ?_ .nil
      exact fun row member => List.mem_append_left _ (List.mem_append_right _ member)
  · rw [none _ (List.mem_singleton_self _)] at stands
    cases stands
  · rw [none _ rfl] at stands
    cases stands
  · intro nests row member regions
    rw [Tree.NestsAll, Tree.Nests] at nests
    -- A text with placeholders has nothing below it, so that no row has a region.
    refine (regions (sourced.bare_rows ?_ row member)).elim
    rintro tokens rfl
    by_contra above
    exact nests.1.1 above (Config.kind_of_inline found)

end

theorem Housed.anchors {lead? trail? : Option NodeId} {scene : Scene} (area : List NodeId)
    (sprouts : ∀ id ∈ lead?.toList ++ trail?.toList, scene.document.Sprouts start.document id "")
    (unique : (lead?.toList ++ trail?.toList).Nodup) :
    scene.Housed start area (anchorRows lead? ++ anchorRows trail?) := by
  have rows : anchorRows lead? ++ anchorRows trail? =
      (lead?.toList ++ trail?.toList).map fun id => ⟨id, some id, []⟩ := by
    rw [List.map_append]
    rfl
  rw [rows]
  constructor
  · intro row member
    obtain ⟨id, known, rfl⟩ := List.mem_map.mp member
    exact congrArg Node.children (sprouts id known).node
  · intro row member
    obtain ⟨id, _, rfl⟩ := List.mem_map.mp member
    trivial
  · intro row member slot inside
    obtain ⟨id, _, rfl⟩ := List.mem_map.mp member
    cases inside
  · rw [List.map_map]
    exact (List.map_id _).symm ▸ unique
  · intro row member
    obtain ⟨id, known, rfl⟩ := List.mem_map.mp member
    exact ⟨(sprouts id known).has, Or.inr (sprouts id known).missing⟩
  · intro row member id inside
    obtain ⟨other, _, rfl⟩ := List.mem_map.mp member
    cases inside

def beneath (config : Config) (id : NodeId) (children : List (Tree NodeId)) (source : Source)
    (scene : Scene) : Scene :=
  match source with
  | .inline _ => buildBelow config id (children.map Tree.label)
    (fun level scene => buildAll config level none false scene children) scene
  | .nested _ _ => scene

theorem build_of_source {source : Source} (following : List NodeId)
    (found : config.source? (start.document.content id) = some source) :
    build config level previous? framed following start (.node id children) =
      let (lead?, first) := start.addAnchor (level.isOuter && !framed)
      let (trail?, second) :=
        first.addAnchor (level.isOuter || following.head?.any (first.isSource config))
      let (shown, third) :=
        second.addRegion level (lead? <|> previous?) (trail? <|> following.head?) id source
      (lead?.toList ++ shown ++ trail?.toList, beneath config id children source third) := by
  rw [build, found]
  cases source <;> rfl

theorem Rooted.exists_beneath (rooted : Rooted base start id children) (source : Source)
    (buildable : Buildable config base children) :
    ∃ rows : List Row,
      (beneath config id children source start).Grown start (Tree.node id children).preorder
        (Tree.preorderForest children) ∧
      (beneath config id children source start).Housed start (Tree.node id children).preorder rows ∧
      (∀ row ∈ rows, row.parent? = some row.home) ∧
      Counts (rows.flatMap Row.regions) start.graph.regions.size
        (beneath config id children source start).graph.regions.size ∧
      ((∀ tokens, source = .inline tokens → children = []) → ∀ row ∈ rows, row.regions = []) := by
  cases source with
  | nested expression directive? =>
      exact ⟨[], (Grown.refl rooted.unwritten).weaken (by simp) (by simp), .nil _ _ _, by simp, .nil _,
        by simp⟩
  | inline tokens =>
      obtain ⟨inner, rows, below⟩ := rooted.exists_below buildable
      rw [Tree.preorder]
      exact ⟨⟨id, some id, inner⟩ :: rows, below.grown, below.housed,
        List.forall_mem_cons.mpr ⟨rfl, below.recorded⟩, below.counts,
        fun childless => below.bare (childless tokens rfl)⟩

theorem Opened.sourced {source : Source} {next? lead? trail? : Option NodeId} {shown : List NodeId}
    {opening result : Scene} {rows : List Row}
    (opened : opening.Opened start level previous? next? source lead? trail? shown)
    (below : result.Grown opening (Tree.node id children).preorder (Tree.preorderForest children))
    (housed : result.Housed opening (Tree.node id children).preorder rows)
    (recorded : ∀ row ∈ rows, row.parent? = some row.home)
    (counts : Counts (rows.flatMap Row.regions) opening.graph.regions.size result.graph.regions.size)
    (bare : (∀ tokens, source = .inline tokens → children = []) → ∀ row ∈ rows, row.regions = [])
    (has : ∀ other ∈ (Tree.node id children).preorder, start.document.Has other) :
    Sourced level previous? next? start (.node id children) source lead? trail? shown result rows := by
  have grown := opened.grown
  -- New nodes are none of the template's, so that building below the source spares them.
  have outside (other : NodeId) (missing : ¬ start.document.Has other) :
      other ∉ (Tree.node id children).preorder := fun member => missing (has other member)
  have spared {other : NodeId} {text : String}
      (sprouts : opening.document.Sprouts start.document other text) :
      result.document.Sprouts start.document other text :=
    sprouts.spared below.spares (outside other sprouts.missing) fun member =>
      outside other sprouts.missing (Tree.below_subset_preorder (.node id children) other member)
  refine ⟨?_, ?_, recorded, ?_, ?_, opened.unique, ?_, ?_, bare⟩
  · exact (below.trans grown).weaken (by simp) fun other member _ => by
      simpa [Tree.children] using member
  · have anchors : opening.Housed start [] (anchorRows lead? ++ anchorRows trail?) :=
      Housed.anchors [] opened.anchors
        (opened.unique.sublist ((List.sublist_append_left _ _).append (List.Sublist.refl _)))
    exact anchors.append grown.unwritten grown.spares.kinds housed below (by simp) has
  · intro other member
    rcases List.mem_append.mp member with earlier | trailMember
    · rcases List.mem_append.mp earlier with leadMember | shownMember
      · exact ⟨"", spared (opened.anchors other (List.mem_append_left _ leadMember))⟩
      · obtain ⟨text, sprouts⟩ := opened.texts other shownMember
        exact ⟨text, spared sprouts⟩
    · exact ⟨"", spared (opened.anchors other (List.mem_append_right _ trailMember))⟩
  · intro other member
    exact congrArg Node.content (spared (opened.anchors other member)).node
  · obtain ⟨region, regionFound, parent, previous, next, owning, nodes, spelled⟩ := opened.region
    have shows : opening.Shows (.region start.graph.regions.size source) :=
      ⟨region, regionFound, spelled⟩
    obtain ⟨same, sameFound, laterSpelled⟩ :=
      shows.later grown.unwritten.bound below (by
        intro other member
        rw [PartGraph.slotNodes, regionFound] at member
        obtain ⟨text, sprouts⟩ := opened.texts other (nodes ▸ member)
        exact ⟨sprouts.has, outside other sprouts.missing⟩)
    have laterFound := below.grows.region regionFound
    cases laterFound.symm.trans sameFound
    exact ⟨region, laterFound, parent, previous, next, owning,
      (grown.unwritten.nodesOf below.unwritten region).trans nodes, laterSpelled⟩
  · rw [opened.size] at counts
    exact (Counts.singleton _).append counts (Nat.le_succ _) (opened.size ▸ below.grows.size_le)

theorem Ready.exists_sourced {source : Source}
    (ready : Ready config base level left? previous? framed start (.node id children :: rest))
    (buildable : Buildable config base children) (found : config.source? (base id) = some source) :
    ∃ lead? trail? shown rows,
      (build config level previous? framed (rest.map Tree.label) start (.node id children)).1 =
        lead?.toList ++ shown ++ trail?.toList ∧
      lead?.isSome = (level.isOuter && !framed) ∧
      trail?.isSome = (level.isOuter || rest.head?.any (standsAt config base)) ∧
      Sourced level previous? (rest.head?.map Tree.label) start (.node id children) source lead? trail?
        shown (build config level previous? framed (rest.map Tree.label) start (.node id children)).2
        rows := by
  have root := ready.inside id (Tree.label_mem_preorder (.node id children))
  have has := ready.outlined.has
  have head : (rest.map Tree.label).head? = rest.head?.map Tree.label := List.head?_map
  rw [build_of_source _ ((ready.content id root).symm ▸ found), head]
  dsimp only
  have leading := anchored_addAnchor ready.unwritten (level.isOuter && !framed)
  generalize start.addAnchor (level.isOuter && !framed) = first at *
  obtain ⟨lead?, first⟩ := first
  dsimp only at leading ⊢
  have needed : (rest.head?.map Tree.label).any (first.isSource config) =
      rest.head?.any (standsAt config base) := by
    cases rest with
    | nil => rfl
    | cons following later =>
        have inside : following.label ∈ Tree.preorderForest (.node id children :: following :: later) :=
          Tree.preorder_subset_forest (by simp) _ (Tree.label_mem_preorder following)
        apply isSource_eq
        rw [leading.extended.content_eq (has _ inside), ready.content _ inside]
  rw [needed]
  have trailing := anchored_addAnchor leading.grown.unwritten
    (level.isOuter || rest.head?.any (standsAt config base))
  generalize first.addAnchor (level.isOuter || rest.head?.any (standsAt config base)) = second at *
  obtain ⟨trail?, second⟩ := second
  dsimp only at trailing ⊢
  have next : ∀ other, rest.head?.map Tree.label = some other → start.document.Has other := by
    intro other same
    obtain ⟨following, found, rfl⟩ := Option.map_eq_some_iff.mp same
    apply has
    apply Tree.preorder_subset_forest _ _ (Tree.label_mem_preorder following)
    exact List.mem_cons_of_mem _ (List.mem_of_mem_head? found)
  have opened := opened_addRegion leading trailing level id source ready.parent ready.previous next
  generalize second.addRegion level (lead? <|> previous?) (trail? <|> rest.head?.map Tree.label) id
    source = third at *
  obtain ⟨shown, third⟩ := third
  dsimp only at opened ⊢
  obtain ⟨rows, below, housed, recorded, counts, bare⟩ :=
    (ready.rooted (opened.grown.weaken (by simp) (by simp))
      (opened.extended.children_eq (has id root))).exists_beneath source buildable
  exact ⟨lead?, trail?, shown, rows, rfl, leading.needed, trailing.needed,
    opened.sourced below housed recorded counts bare fun other member =>
      has other (ready.inside other member)⟩

end

section
variable {level : Level} {left? right? : Option Slot} {previous? : Option NodeId} {framed : Bool}
  {start middle result : Scene} {tree : Tree NodeId} {rest : List (Tree NodeId)}
  {ids others : List NodeId} {slots more : List Slot} {rows otherRows : List Row}

theorem Built.apart (built : Built config base level left? right? start [tree] middle ids slots rows)
    (ready : Ready config base level left? previous? framed start (tree :: rest)) {id : NodeId}
    (member : id ∈ ids) : middle.document.Has id ∧ id ∉ Tree.preorderForest rest := by
  have inside := ready.inside tree.label (Tree.label_mem_preorder tree)
  rcases built.origin id member with label | ⟨text, sprouts⟩
  · rw [List.map_singleton, List.mem_singleton] at label
    subst label
    exact ⟨built.grown.spares.kinds.has (ready.outlined.has _ _ inside),
      ready.unique_head.2.2 _ (Tree.label_mem_preorder tree)⟩
  · refine ⟨sprouts.has, fun later => sprouts.missing (ready.outlined.has _ _ ?_)⟩
    rw [Tree.preorderForest]
    exact List.mem_append_right _ later

theorem Built.mem_ids (built : Built config base level left? right? start [tree] middle ids slots rows)
    (ready : Ready config base level left? previous? framed start (tree :: rest)) {id : NodeId}
    (member : id ∈ middle.graph.expand slots) : id ∈ ids := by
  have root := Document.Outlined.has tree ready.outlined.1 _ (Tree.label_mem_preorder tree)
  rw [← built.kept [tree.label] (by simp) (by simpa using root)] at member
  exact Level.mem_keep member

theorem Ready.tail (ready : Ready config base level left? previous? framed start (tree :: rest))
    (built : Built config base level left? right? start [tree] middle ids slots rows)
    (closes : level.owning = false → (standsAt config base tree = true →
        level.isOuter = true ∨ rest.head?.any (standsAt config base) = true) →
      ∃ id content, slots.getLast? = some (.node id content) ∧ ids.getLast? = some id ∧
        (standsAt config base tree = true → content = .text "")) :
    Ready config base level (slots.getLast?.or left?) ids.getLast? (standsAt config base tree) middle
      rest := by
  have later : ∀ id ∈ Tree.preorderForest rest, id ∈ Tree.preorderForest (tree :: rest) := by
    intro id member
    rw [Tree.preorderForest]
    exact List.mem_append_right _ member
  have outside : ∀ id ∈ Tree.preorderForest rest, id ∉ Tree.preorderForest [tree] := by
    intro id member inside
    rw [Tree.preorderForest_singleton] at inside
    exact ready.unique_head.2.2 id inside member
  refine ⟨built.grown.unwritten, ?_, ready.unique_head.2.1, ?_, ?_, ?_, ?_, ready.inner, ?_, ?_⟩
  · exact Document.OutlinedAll.spares built.grown.spares rest ready.outlined.2 outside
  · intro id member
    rw [built.grown.spares.content_eq id (ready.outlined.has _ id (later id member))
      (outside id member)]
    exact ready.content id (later id member)
  · intro index binding found member
    rcases built.grown.binding found with older | new
    · exact ready.fresh older (later _ member)
    · exact outside _ member new
  · exact fun id same => built.grown.spares.kinds.has (ready.parent id same)
  · exact fun id same => (built.apart ready (List.mem_of_getLast? same)).1
  · intro shared next member stands
    obtain ⟨id, content, last, lastId, anchor⟩ := closes shared fun _ => Or.inr (by
      rw [Option.mem_def.mp member]
      exact stands)
    rw [last, lastId]
    exact ⟨rfl, fun _ source => ⟨id, by rw [anchor source]; rfl⟩⟩
  · intro owning
    obtain ⟨single, kinds, free⟩ := ready.alone owning
    refine ⟨?_, fun other member => kinds other (List.mem_cons_of_mem _ member), ?_⟩
    · exact ((List.sublist_cons_self tree rest).filter _).length_le.trans single
    · cases stands : standsAt config base tree with
      | true => exact Or.inr (ready.single owning stands)
      | false =>
          have silent := built.silent owning (by simpa using stands)
          rw [silent]
          exact free.imp id fun none other member => none other (List.mem_cons_of_mem _ member)

theorem Built.append
    (first : Built config base level left? (more.head?.or right?) start [tree] middle ids slots rows)
    (second : Built config base level (slots.getLast?.or left?) right? middle rest result others more
      otherRows)
    (ready : Ready config base level left? previous? framed start (tree :: rest)) :
    Built config base level left? right? start (tree :: rest) result (ids ++ others) (slots ++ more)
      (rows ++ otherRows) := by
  have unwritten := first.grown.unwritten
  have forest : Tree.preorderForest [tree] ++ Tree.preorderForest rest =
      Tree.preorderForest (tree :: rest) := by
    rw [Tree.preorderForest_singleton, Tree.preorderForest]
  refine {
    grown := ?_
    housed := ?_
    recorded := ?_
    origin := ?_
    unique := ?_
    kept := ?_
    framed := (framed_later first.framed second.grown.grows).append second.framed
    shows := ?_
    counts := ?_
    mirrors := (first.mirrors.mono fun row => List.mem_append_left _).append
      (second.mirrors.mono fun row => List.mem_append_right _)
    silent := ?_
    heads := ?_
    hangs := ?_
  }
  · rw [← forest]
    exact (second.grown.trans first.grown).weaken (fun _ member => member) fun id member _ => by
      simpa using member
  · rw [← forest]
    refine first.housed.append unwritten first.grown.spares.kinds second.housed second.grown ?_
      (Document.OutlinedAll.has rest ready.outlined.2)
    rw [Tree.preorderForest_singleton]
    exact ready.unique_head.2.2
  · intro row member
    exact (List.mem_append.mp member).elim (first.recorded row) (second.recorded row)
  · intro id member
    rcases List.mem_append.mp member with earlier | new
    · rcases first.origin id earlier with label | ⟨text, sprouts⟩
      · exact Or.inl (by simp_all)
      · have outside := (first.apart ready earlier).2
        exact Or.inr ⟨text, sprouts.spared second.grown.spares outside fun inside =>
          outside (Tree.below_subset_forest id inside)⟩
    · rcases second.origin id new with label | ⟨text, sprouts⟩
      · exact Or.inl (List.mem_cons_of_mem _ label)
      · exact Or.inr ⟨text, sprouts.earlier first.grown.spares.kinds⟩
  · refine List.nodup_append'.mpr ⟨first.unique, second.unique, ?_⟩
    intro id left right
    obtain ⟨present, outside⟩ := first.apart ready left
    rcases second.origin id right with label | ⟨text, sprouts⟩
    · exact outside (label_mem_preorderForest label)
    · exact sprouts.missing present
  · intro former known has
    rw [Level.keep_append, PartGraph.expand_append, expand_later first.shows unwritten second.grown,
      first.kept former (by simpa using known tree (List.mem_cons_self ..)) has,
      second.kept former (fun other member => known other (List.mem_cons_of_mem _ member))
        fun id member => first.grown.spares.kinds.has (has id member)]
  · intro slot member
    rcases List.mem_append.mp member with earlier | new
    · refine (first.shows slot earlier).later unwritten.bound second.grown fun id inside => ?_
      exact first.apart ready (first.mem_ids ready (PartGraph.mem_expand.mpr ⟨slot, earlier, inside⟩))
    · exact second.shows slot new
  · have counts := first.counts.append second.counts first.grown.grows.size_le
      second.grown.grows.size_le
    refine counts.perm ?_
    rw [List.flatMap_append, List.flatMap_append]
    exact List.perm_iff_count.mpr fun index => by
      simp only [List.count_append]
      omega
  · intro owning none
    rw [first.silent owning (by simpa using none tree (List.mem_cons_self ..)),
      second.silent owning fun other member => none other (List.mem_cons_of_mem _ member)]
    rfl
  · intro shared plain
    have holds := first.heads shared plain
    cases slots with
    | nil => exact holds.elim
    | cons slot slots => exact holds
  · intro nests row member regions
    rw [Tree.NestsAll] at nests
    rcases List.mem_append.mp member with earlier | new
    · exact (first.hangs ⟨nests.1, trivial⟩ row earlier regions).mono
        (fun row => List.mem_append_left _) fun slot => List.mem_append_left _
    · exact (second.hangs nests.2 row new regions).mono
        (fun row => List.mem_append_right _) fun slot => List.mem_append_right _

end

mutual

theorem buildable_children (config : Config) (base : NodeId → Content) :
    ∀ tree : Tree NodeId, Buildable config base tree.children
  | .node _ children => buildable config base children

/-- Siblings are instantiated one after another. -/
theorem buildable (config : Config) (base : NodeId → Content) :
    ∀ trees : List (Tree NodeId), Buildable config base trees
  | [] => by
      intro level left? previous? framed start ready
      refine ⟨[], [], ?_⟩
      rw [buildAll]
      refine ⟨.refl ready.unwritten, .nil _ _ _, by simp, by simp, List.nodup_nil, ?_, trivial, by simp,
        .nil _, .nil, fun _ _ => rfl, fun _ _ => trivial, by simp⟩
      intro former _ _
      rw [Level.keep]
      split <;> rfl
  | tree :: rest => by
      intro level left? previous? framed start ready
      have inner := buildable_children config base tree
      have stands : start.isSource config tree.label = standsAt config base tree :=
        isSource_eq (ready.content tree.label (ready.inside _ (Tree.label_mem_preorder tree)))
      rw [buildAll, stands]
      cases tree with
      | node id children =>
      cases found : config.source? (base id) with
      | none =>
          obtain ⟨slots, rows, built, shown, shape⟩ :=
            ready.built_plain inner found (rest.map Tree.label)
          obtain ⟨more, otherRows, builtRest⟩ := buildable config base rest _ _ _ _ _
            (ready.tail (built none) fun shared _ => ⟨id, base id, by rw [shape shared]; rfl,
              by rw [shown]; rfl, fun source => by
                rw [standsAt, Tree.label, found] at source
                cases source⟩)
          exact ⟨_, _, (built _).append builtRest ready⟩
      | some source =>
          obtain ⟨lead?, trail?, shown, rows, same, lead, trail, sourced⟩ :=
            ready.exists_sourced inner found
          have built {right? : Option Slot} (follows : Follows config base level right? rest) :=
            sourced.built ready found lead trail follows
          rw [← same] at built
          have some : Follows config base level
              (if level.owning then none else rest.head?.map fun next => .node next.label (.text ""))
              rest := by
            constructor
            · intro owning
              rw [owning]
              rfl
            · intro shared _
              rw [shared]
              cases rest.head? <;> trivial
          obtain ⟨more, otherRows, builtRest⟩ := buildable config base rest _ _ _ _ _
            (ready.tail (built some) fun _ needed => by
              have both := (Bool.or_eq_true _ _).mpr
                (needed (by rw [standsAt, Tree.label, found]; rfl))
              obtain ⟨anchor, rfl⟩ := Option.isSome_iff_exists.mp (trail.trans both)
              exact ⟨anchor, .text "", by simp [anchorSlots], by simp [same], fun _ => rfl⟩)
          refine ⟨_, _, (built ?_).append builtRest ready⟩
          constructor
          · intro owning
            rw [builtRest.silent owning (ready.single owning (by
              rw [standsAt, Tree.label, found]
              rfl))]
            rfl
          · intro shared plain
            rw [Option.or_none]
            exact builtRest.heads shared plain

end

end

end Scene

end LiveTemplate
