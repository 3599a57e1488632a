import LiveTemplate.Proofs.Blueprint

/-! The single steps of making parts: what they add to the graph and to the document, and that they
leave everything else alone. -/

namespace LiveTemplate

namespace Document

structure Spares (result document : Document) (changed moved : List NodeId) : Prop where
  kinds : result.KeepsKinds document
  content_eq : ∀ id, document.Has id → id ∉ changed → result.content id = document.content id
  children_eq : ∀ id, document.Has id → id ∉ changed → result.children id = document.children id
  parent?_eq : ∀ id, document.Has id → id ∉ moved → result.parent? id = document.parent? id

theorem Extends.spares {result document : Document} (extended : result.Extends document)
    (changed moved : List NodeId) : result.Spares document changed moved where
  kinds := extended.keepsKinds
  content_eq := fun _ bound _ => extended.content_eq bound
  children_eq := fun _ bound _ => extended.children_eq bound
  parent?_eq := fun _ bound _ => extended.parent?_eq bound

namespace Spares

variable {document middle result : Document} {changed moved later laterMoved : List NodeId}

theorem trans (second : result.Spares middle later laterMoved)
    (first : middle.Spares document changed moved) :
    result.Spares document (changed ++ later) (moved ++ laterMoved) where
  kinds := second.kinds.trans first.kinds
  content_eq := by
    intro id bound outside
    rw [List.mem_append, not_or] at outside
    rw [second.content_eq id (first.kinds.has bound) outside.2, first.content_eq id bound outside.1]
  children_eq := by
    intro id bound outside
    rw [List.mem_append, not_or] at outside
    rw [second.children_eq id (first.kinds.has bound) outside.2, first.children_eq id bound outside.1]
  parent?_eq := by
    intro id bound outside
    rw [List.mem_append, not_or] at outside
    rw [second.parent?_eq id (first.kinds.has bound) outside.2, first.parent?_eq id bound outside.1]

theorem weaken (spares : result.Spares document changed moved)
    (subset : ∀ id ∈ changed, document.Has id → id ∈ later)
    (movedSubset : ∀ id ∈ moved, document.Has id → id ∈ laterMoved) :
    result.Spares document later laterMoved where
  kinds := spares.kinds
  content_eq := fun id bound outside =>
    spares.content_eq id bound fun member => outside (subset id member bound)
  children_eq := fun id bound outside =>
    spares.children_eq id bound fun member => outside (subset id member bound)
  parent?_eq := fun id bound outside =>
    spares.parent?_eq id bound fun member => outside (movedSubset id member bound)

end Spares

structure Sprouts (result document : Document) (id : NodeId) (text : String) : Prop where
  missing : ¬ document.Has id
  node : result.node id = ⟨.text text, none, []⟩

theorem Sprouts.kind_ne {result document : Document} {id : NodeId} {text : String}
    (sprouts : result.Sprouts document id text) : result.kind id ≠ .fragment := by
  rw [kind, content, sprouts.node]
  simp [Content.kind]

theorem Sprouts.has {result document : Document} {id : NodeId} {text : String}
    (sprouts : result.Sprouts document id text) : result.Has id :=
  has_of_kind sprouts.kind_ne

theorem sprouts_create (document : Document) (text : String) :
    (document.create (.text text)).2.Sprouts document (document.create (.text text)).1 text :=
  ⟨Scene.not_has_create document _, node_create document _⟩

theorem Sprouts.later {result middle document : Document} {id : NodeId} {text : String}
    (sprouts : middle.Sprouts document id text) (extended : result.Extends middle) :
    result.Sprouts document id text :=
  ⟨sprouts.missing, (extended.node_eq id sprouts.has).trans sprouts.node⟩

theorem Sprouts.spared {result middle document : Document} {id : NodeId} {text : String}
    {changed moved : List NodeId} (sprouts : middle.Sprouts document id text)
    (spares : result.Spares middle changed moved) (unchanged : id ∉ changed) (still : id ∉ moved) :
    result.Sprouts document id text := by
  refine ⟨sprouts.missing, ?_⟩
  rw [← sprouts.node]
  have content := spares.content_eq id sprouts.has unchanged
  have children := spares.children_eq id sprouts.has unchanged
  have parent := spares.parent?_eq id sprouts.has still
  simp only [Document.content, Document.children, Document.parent?] at content children parent
  cases equal : result.node id
  cases other : middle.node id
  simp_all

theorem Sprouts.earlier {result middle document : Document} {id : NodeId} {text : String}
    (sprouts : result.Sprouts middle id text) (kept : middle.KeepsKinds document) :
    result.Sprouts document id text :=
  ⟨fun bound => sprouts.missing (kept.has bound), sprouts.node⟩

end Document

namespace Binding

def joined (binding : Binding) (given : Nat → Option (Option String)) : String :=
  String.join (binding.pieces.map fun
    | .literal text => text
    | .part index => (given index).join.getD "")

def blank (binding : Binding) : String :=
  binding.joined fun _ => none

end Binding

def Piece.part? {α : Type} : Piece α → Option Nat
  | .literal _ => none
  | .part index => some index

@[simp]
theorem Piece.mem_filterMap_part? {α : Type} {pieces : List (Piece α)} {index : Nat} :
    index ∈ pieces.filterMap Piece.part? ↔ .part index ∈ pieces := by
  rw [List.mem_filterMap]
  constructor
  · rintro ⟨value | part, member, same⟩
    · cases same
    · cases same
      exact member
  · exact fun member => ⟨.part index, member, rfl⟩

namespace PartGraph

structure Grows (result graph : PartGraph) : Prop where
  part : ∀ {index : Nat} {part}, graph.parts[index]? = some part → result.parts[index]? = some part
  binding : ∀ {index : Nat} {binding}, graph.bindings[index]? = some binding →
    result.bindings[index]? = some binding
  region : ∀ {index : Nat} {region}, graph.regions[index]? = some region →
    result.regions[index]? = some region
  fragment : result.fragment = graph.fragment

theorem Grows.refl (graph : PartGraph) : graph.Grows graph :=
  ⟨id, id, id, rfl⟩

theorem Grows.trans {graph middle result : PartGraph} (second : result.Grows middle)
    (first : middle.Grows graph) : result.Grows graph where
  part := fun found => second.part (first.part found)
  binding := fun found => second.binding (first.binding found)
  region := fun found => second.region (first.region found)
  fragment := second.fragment.trans first.fragment

theorem Grows.expression {graph result : PartGraph} (grows : result.Grows graph) {index : Nat}
    {expression : String} (found : graph.parts[index]?.map Part.expression = some expression) :
    result.parts[index]?.map Part.expression = some expression := by
  obtain ⟨part, partFound, rfl⟩ := Option.map_eq_some_iff.mp found
  rw [grows.part partFound, Option.map_some]

structure Bound (graph : PartGraph) : Prop where
  part : ∀ {index binding : Nat} {value?},
    graph.parts[index]?.map Part.target = some (.attribute binding value?) →
      ∃ recorded, graph.bindings[binding]? = some recorded ∧ .part index ∈ recorded.pieces
  piece : ∀ {binding index : Nat} {recorded}, graph.bindings[binding]? = some recorded →
    .part index ∈ recorded.pieces →
      ∃ value?, graph.parts[index]?.map Part.target = some (.attribute binding value?)
  keyed : ∀ {first second : Nat} {left right}, graph.bindings[first]? = some left →
    graph.bindings[second]? = some right → left.element = right.element →
      left.name.agrees right.name = true → first = second

theorem Grows.size_le {graph result : PartGraph} (grows : result.Grows graph) :
    graph.regions.size ≤ result.regions.size := by
  by_contra shorter
  have bound : result.regions.size < graph.regions.size := by omega
  have found := grows.region (Array.getElem?_eq_getElem bound)
  simp at found

theorem Grows.valueOf_eq {graph result : PartGraph} (grows : result.Grows graph) (bound : graph.Bound)
    {index : Nat} {binding : Binding} (found : graph.bindings[index]? = some binding) :
    result.valueOf binding = graph.valueOf binding := by
  apply valueOf_congr
  intro part member
  obtain ⟨value?, target⟩ := bound.piece found member
  obtain ⟨recorded, partFound, _⟩ := Option.map_eq_some_iff.mp target
  rw [partFound, grows.part partFound]

structure Parted {α : Type} (result graph : PartGraph) (target : Target) (pieces : List (Piece α)) :
    Prop where
  rest : result = { graph with parts := result.parts }
  old : ∀ {index : Nat} {part}, graph.parts[index]? = some part → result.parts[index]? = some part
  added : ∀ {index : Nat} {part}, result.parts[index]? = some part →
    graph.parts[index]? = some part ∨ part.target = target ∧ .part index ∈ pieces
  piece : ∀ {index : Nat}, .part index ∈ pieces →
    graph.parts[index]? = none ∧ ∃ part, result.parts[index]? = some part ∧ part.target = target
  numbered : ∃ count, pieces.filterMap Piece.part? = List.range' graph.parts.size count

namespace Parted

variable {α : Type} {graph result : PartGraph} {target : Target} {pieces : List (Piece α)}

theorem nil (graph : PartGraph) (target : Target) : graph.Parted (α := α) graph target [] where
  rest := rfl
  old := id
  added := Or.inl
  piece := by simp
  numbered := ⟨0, rfl⟩

theorem literal (parted : result.Parted graph target pieces) (value : α) :
    result.Parted graph target (.literal value :: pieces) where
  rest := parted.rest
  old := parted.old
  added := fun found => (parted.added found).imp_right <| And.imp_right <| List.mem_cons_of_mem _
  piece := fun member => parted.piece (by simpa using member)
  numbered := parted.numbered

theorem part {new : Part} (parted : result.Parted { graph with parts := graph.parts.push new }
      new.target pieces) : result.Parted graph new.target (.part graph.parts.size :: pieces) where
  rest := parted.rest
  old := by
    intro index part found
    apply parted.old
    obtain ⟨bound, _⟩ := Array.getElem?_eq_some_iff.mp found
    rwa [Array.getElem?_push, if_neg (by omega)]
  added := by
    intro index part found
    rcases parted.added found with older | ⟨same, member⟩
    · rw [Array.getElem?_push] at older
      split at older
      · cases older
        simp_all
      · exact Or.inl older
    · exact Or.inr ⟨same, List.mem_cons_of_mem _ member⟩
  piece := by
    intro index member
    rcases List.mem_cons.mp member with same | member
    · cases same
      exact ⟨by simp, new, parted.old (by simp), rfl⟩
    · obtain ⟨missing, found⟩ := parted.piece member
      refine ⟨?_, found⟩
      rw [Array.getElem?_eq_none_iff, Array.size_push] at missing
      rw [Array.getElem?_eq_none_iff]
      omega
  numbered := by
    obtain ⟨count, rest⟩ := parted.numbered
    rw [Array.size_push] at rest
    exact ⟨count + 1, congrArg (List.cons _) rest⟩

theorem grows (parted : result.Parted graph target pieces) : result.Grows graph := by
  refine ⟨parted.old, ?_, ?_, ?_⟩ <;> rw [parted.rest] <;> simp

theorem notMem {new : Part} (parted : result.Parted { graph with parts := graph.parts.push new } target pieces) :
    .part graph.parts.size ∉ pieces := by
  intro member
  have missing := (parted.piece member).1
  simp at missing

theorem regions_eq (parted : result.Parted graph target pieces) : result.regions = graph.regions := by
  rw [parted.rest]

theorem bindings_eq (parted : result.Parted graph target pieces) :
    result.bindings = graph.bindings := by
  rw [parted.rest]

theorem target_old (parted : result.Parted graph target pieces) {index : Nat} {known : Target}
    (found : graph.parts[index]?.map Part.target = some known) :
    result.parts[index]?.map Part.target = some known := by
  obtain ⟨part, partFound, rfl⟩ := Option.map_eq_some_iff.mp found
  rw [parted.old partFound, Option.map_some]

theorem target_cases (parted : result.Parted graph target pieces) {index : Nat} {known : Target}
    (found : result.parts[index]?.map Part.target = some known) :
    graph.parts[index]?.map Part.target = some known ∨ known = target ∧ .part index ∈ pieces := by
  obtain ⟨part, partFound, rfl⟩ := Option.map_eq_some_iff.mp found
  rcases parted.added partFound with older | ⟨same, member⟩
  · exact Or.inl (by rw [older, Option.map_some])
  · exact Or.inr ⟨same, member⟩

theorem contentOf_eq_nil (parted : result.Parted graph target pieces) (plain : target.content = [])
    (empty : ∀ index, graph.contentOf index = []) (index : Nat) : result.contentOf index = [] := by
  rw [contentOf_eq]
  cases found : result.parts[index]?.map Part.target with
  | none => rfl
  | some known =>
      rcases parted.target_cases found with older | ⟨rfl, _⟩
      · have nothing := empty index
        rw [contentOf_eq, older] at nothing
        exact nothing
      · exact plain

end Parted

theorem getElem?_push_of_some {α : Type} {items : Array α} {index : Nat} {item : α} (new : α)
    (found : items[index]? = some item) : (items.push new)[index]? = some item := by
  obtain ⟨bound, _⟩ := Array.getElem?_eq_some_iff.mp found
  rwa [Array.getElem?_push, if_neg (by omega)]

theorem getElem?_push_cases {α : Type} {items : Array α} {index : Nat} {item new : α}
    (found : (items.push new)[index]? = some item) :
    items[index]? = some item ∨ index = items.size ∧ item = new := by
  rw [Array.getElem?_push] at found
  split at found
  · rename_i same
    cases found
    exact Or.inr ⟨same, rfl⟩
  · exact Or.inl found

section
variable {graph later : PartGraph}

theorem Linked.pushRegion {nested? : Option Nested} {region : Region} (linked : graph.Linked)
    (parted : later.Parted graph (.nodes graph.regions.size [] nested?) region.group)
    (unique : region.group.Nodup) :
    Linked { later with regions := later.regions.push region } where
  part := by
    intro index number content inner found
    rcases parted.target_cases found with older | ⟨same, member⟩
    · obtain ⟨recorded, recordedFound, member⟩ := linked.part older
      rw [← parted.regions_eq] at recordedFound
      exact ⟨recorded, getElem?_push_of_some _ recordedFound, member⟩
    · cases same
      exact ⟨region, by simp [parted.regions_eq], member⟩
  piece := by
    intro number index recorded found member
    rcases getElem?_push_cases found with older | ⟨rfl, rfl⟩
    · rw [parted.regions_eq] at older
      obtain ⟨content, inner, target⟩ := linked.piece older member
      exact ⟨content, inner, parted.target_old target⟩
    · obtain ⟨_, part, partFound, same⟩ := parted.piece member
      exact ⟨[], nested?, by rw [partFound, Option.map_some, same, parted.regions_eq]⟩
  unique := by
    intro number recorded found
    rcases getElem?_push_cases found with older | ⟨_, rfl⟩
    · rw [parted.regions_eq] at older
      exact linked.unique older
    · exact unique

theorem Bound.pushRegion {number : Nat} {nested? : Option Nested} {pieces : List (Piece NodeId)}
    (bound : graph.Bound) (parted : later.Parted graph (.nodes number [] nested?) pieces)
    (region : Region) : Bound { later with regions := later.regions.push region } where
  part := by
    intro index binding value? found
    rcases parted.target_cases found with older | ⟨same, _⟩
    · exact parted.bindings_eq ▸ bound.part older
    · cases same
  piece := by
    intro binding index recorded found member
    obtain ⟨value?, target⟩ := bound.piece (parted.bindings_eq ▸ found) member
    exact ⟨value?, parted.target_old target⟩
  keyed := by
    intro first second left right leftFound rightFound
    exact bound.keyed (parted.bindings_eq ▸ leftFound) (parted.bindings_eq ▸ rightFound)

theorem Linked.pushBinding {number : Nat} {value? : Option String} {new : Binding}
    (linked : graph.Linked) (parted : later.Parted graph (.attribute number value?) new.pieces) :
    Linked { later with bindings := later.bindings.push new } where
  part := by
    intro index region content nested? found
    rcases parted.target_cases found with older | ⟨same, _⟩
    · exact parted.regions_eq ▸ linked.part older
    · cases same
  piece := by
    intro region index recorded found member
    obtain ⟨content, nested?, target⟩ := linked.piece (parted.regions_eq ▸ found) member
    exact ⟨content, nested?, parted.target_old target⟩
  unique := fun found => linked.unique (parted.regions_eq ▸ found)

theorem Bound.pushBinding {value? : Option String} {new : Binding} (bound : graph.Bound)
    (parted : later.Parted graph (.attribute graph.bindings.size value?) new.pieces)
    (fresh : ∀ {index : Nat} {binding}, graph.bindings[index]? = some binding →
      binding.element = new.element → binding.name.agrees new.name = false) :
    Bound { later with bindings := later.bindings.push new } where
  part := by
    intro index binding known? found
    rcases parted.target_cases found with older | ⟨same, member⟩
    · obtain ⟨recorded, recordedFound, member⟩ := bound.part older
      rw [← parted.bindings_eq] at recordedFound
      exact ⟨recorded, getElem?_push_of_some _ recordedFound, member⟩
    · cases same
      exact ⟨new, by simp [parted.bindings_eq], member⟩
  piece := by
    intro binding index recorded found member
    rcases getElem?_push_cases found with older | ⟨rfl, rfl⟩
    · rw [parted.bindings_eq] at older
      obtain ⟨known?, target⟩ := bound.piece older member
      exact ⟨known?, parted.target_old target⟩
    · obtain ⟨_, part, partFound, same⟩ := parted.piece member
      exact ⟨value?, by rw [partFound, Option.map_some, same, parted.bindings_eq]⟩
  keyed := by
    intro first second left right leftFound rightFound element agrees
    rcases getElem?_push_cases leftFound with older | ⟨rfl, rfl⟩ <;>
      rcases getElem?_push_cases rightFound with otherOlder | ⟨rfl, rfl⟩
    · rw [parted.bindings_eq] at older otherOlder
      exact bound.keyed older otherOlder element agrees
    · rw [parted.bindings_eq] at older
      rw [fresh older element] at agrees
      cases agrees
    · rw [parted.bindings_eq] at otherOlder
      rw [AttributeName.agrees_comm, fresh otherOlder element.symm] at agrees
      cases agrees
    · rfl

theorem valueOf_eq_joined {binding : Binding} {given : Nat → Option (Option String)}
    (values : ∀ part, .part part ∈ binding.pieces →
      graph.parts[part]?.bind Part.value? = some ((given part).join.getD "")) :
    graph.valueOf binding = some (binding.joined given) := by
  have text : graph.textOf binding = binding.joined given := by
    rw [textOf, Binding.joined]
    congr 1
    apply List.map_congr_left
    rintro (text | part) member
    · rfl
    · rw [pieceText, values part member]
      rfl
  rw [← text, valueOf]
  split
  · rename_i part whole
    rw [values part (by rw [whole]; exact List.mem_singleton_self _), textOf, whole,
      List.map_singleton, pieceText, values part (by rw [whole]; exact List.mem_singleton_self _),
      String.join_cons]
    simp
  · rfl

theorem Parted.valueOf_eq {number : Nat} {binding : Binding}
    (parted : later.Parted graph (.attribute number (some "")) binding.pieces) :
    later.valueOf binding = some binding.blank := by
  refine valueOf_eq_joined fun part member => ?_
  obtain ⟨_, new, newFound, target⟩ := parted.piece member
  rw [newFound, Option.bind_some, Part.value?, target]
  rfl

end

end PartGraph

namespace Scene

structure Unwritten (scene : Scene) : Prop extends scene.Sound where
  empty : ∀ index, scene.graph.contentOf index = []
  settled : ∀ {index : Nat} {region : Region}, scene.graph.regions[index]? = some region →
    region.rendered = scene.graph.nodesOf region ∧ region.detached = false
  bound : scene.graph.Bound
  initial : ∀ {index binding : Nat} {value? : Option String},
    scene.graph.parts[index]?.map Part.target = some (.attribute binding value?) → value? = some ""

structure Grown (result start : Scene) (changed moved : List NodeId) : Prop where
  unwritten : result.Unwritten
  grows : result.graph.Grows start.graph
  spares : result.document.Spares start.document changed moved
  binding : ∀ {index : Nat} {binding : Binding}, result.graph.bindings[index]? = some binding →
    start.graph.bindings[index]? = some binding ∨ binding.element ∈ changed

theorem Grown.refl {scene : Scene} (unwritten : scene.Unwritten) : scene.Grown scene [] [] where
  unwritten := unwritten
  grows := .refl _
  spares := (Document.Extends.refl _).spares [] []
  binding := Or.inl

theorem Grown.trans {start middle result : Scene} {changed moved later laterMoved : List NodeId}
    (second : result.Grown middle later laterMoved) (first : middle.Grown start changed moved) :
    result.Grown start (changed ++ later) (moved ++ laterMoved) where
  unwritten := second.unwritten
  grows := second.grows.trans first.grows
  spares := second.spares.trans first.spares
  binding := by
    intro index binding found
    rw [List.mem_append]
    rcases second.binding found with older | member
    · exact (first.binding older).imp id Or.inl
    · exact Or.inr (Or.inr member)

theorem Grown.weaken {start result : Scene} {changed moved later laterMoved : List NodeId}
    (grown : result.Grown start changed moved)
    (subset : ∀ id ∈ changed, id ∈ later)
    (movedSubset : ∀ id ∈ moved, start.document.Has id → id ∈ laterMoved) :
    result.Grown start later laterMoved where
  unwritten := grown.unwritten
  grows := grown.grows
  spares := grown.spares.weaken (fun id member _ => subset id member) movedSubset
  binding := fun found => (grown.binding found).imp id (subset _)

theorem Unwritten.nodesOf {scene other : Scene} (unwritten : scene.Unwritten)
    (otherUnwritten : other.Unwritten) (region : Region) :
    other.graph.nodesOf region = scene.graph.nodesOf region := by
  apply PartGraph.nodesOf_congr
  intro part _
  rw [unwritten.empty, otherUnwritten.empty]

theorem Unwritten.of_document {scene : Scene} (unwritten : scene.Unwritten) {document : Document}
    (wellFormed : document.WellFormed) (kept : document.KeepsKinds scene.document) :
    Unwritten { scene with document } where
  toSound := unwritten.toSound.of_document wellFormed kept
  empty := unwritten.empty
  settled := unwritten.settled
  bound := unwritten.bound
  initial := unwritten.initial

section
variable {scene : Scene}

theorem grown_addNode (unwritten : scene.Unwritten) (text : String) :
    (scene.addNode (.text text)).2.Grown scene [] [] where
  unwritten := unwritten.of_document (Document.wellFormed_create unwritten.wellFormed rfl)
    (Document.extends_create _ _).keepsKinds
  grows := .refl _
  spares := (Document.extends_create _ _).spares [] []
  binding := Or.inl

structure Anchored (result scene : Scene) (needed : Bool) (anchor? : Option NodeId) : Prop where
  grown : result.Grown scene [] []
  extended : result.document.Extends scene.document
  graph : result.graph = scene.graph
  needed : anchor?.isSome = needed
  sprouts : ∀ id, anchor? = some id → result.document.Sprouts scene.document id ""

theorem anchored_addAnchor (unwritten : scene.Unwritten) (needed : Bool) :
    (scene.addAnchor needed).2.Anchored scene needed (scene.addAnchor needed).1 := by
  cases needed with
  | false => exact ⟨.refl unwritten, .refl _, rfl, rfl, fun _ same => by cases same⟩
  | true =>
      refine ⟨grown_addNode unwritten "", Document.extends_create _ _, rfl, rfl, ?_⟩
      intro id same
      cases same
      exact Document.sprouts_create _ _

structure Pieced (result scene : Scene) (target : Target) (tokens : List Token)
    (pieces : List (Piece NodeId)) : Prop where
  wellFormed : scene.document.WellFormed → result.document.WellFormed
  extended : result.document.Extends scene.document
  parted : result.graph.Parted scene.graph target pieces
  literal : ∀ id, .literal id ∈ pieces → ∃ text, result.document.Sprouts scene.document id text
  unique : pieces.Nodup
  spelled : result.graph.Spelled result.IsText tokens pieces

theorem pieced_addNodePieces (scene : Scene) (region : Nat) (tokens : List Token) :
    (scene.addNodePieces region tokens).2.Pieced scene (.nodes region [] none) tokens
      (scene.addNodePieces region tokens).1 := by
  induction tokens generalizing scene with
  | nil =>
      exact ⟨id, .refl _, .nil _ _, by simp [addNodePieces], by simp [addNodePieces], .nil⟩
  | cons token rest ih =>
      cases token with
      | literal text =>
          rw [addNodePieces]
          split
          · rename_i blank
            subst blank
            have later := ih scene
            exact ⟨later.wellFormed, later.extended, later.parted, later.literal, later.unique,
              .empty later.spelled⟩
          · rename_i shown
            have later := ih (scene.addNode (.text text)).2
            have sprouts := (Document.sprouts_create scene.document text).later later.extended
            have extended := Document.extends_create scene.document (.text text)
            refine ⟨?_, later.extended.trans extended, later.parted.literal _, ?_, ?_, ?_⟩
            · exact fun wellFormed =>
                later.wellFormed (Document.wellFormed_create wellFormed rfl)
            · intro id member
              rcases List.mem_cons.mp member with same | member
              · cases same
                exact ⟨text, sprouts⟩
              · obtain ⟨data, laterSprouts⟩ := later.literal id member
                exact ⟨data, laterSprouts.earlier extended.keepsKinds⟩
            · refine List.nodup_cons.mpr ⟨?_, later.unique⟩
              intro member
              obtain ⟨_, laterSprouts⟩ := later.literal _ member
              exact laterSprouts.missing (has_create _ _)
            · refine .literal shown ?_ later.spelled
              exact ⟨congrArg Node.content sprouts.node, congrArg Node.children sprouts.node⟩
      | placeholder expression =>
          have later := ih (scene.addPart ⟨expression, .nodes region [] none⟩).2
          refine ⟨later.wellFormed, later.extended, .part later.parted, ?_, ?_, ?_⟩
          · intro id member
            exact later.literal id (by simpa [addNodePieces] using member)
          · exact List.nodup_cons.mpr ⟨later.parted.notMem, later.unique⟩
          · refine .part ?_ later.spelled
            have pushed : (scene.addPart ⟨expression, .nodes region [] none⟩).2.graph.parts[
                scene.graph.parts.size]? = some ⟨expression, .nodes region [] none⟩ := by
              simp [addPart]
            exact congrArg (Option.map Part.expression) (later.parted.old pushed)

theorem pieced_addPieces (scene : Scene) (id : NodeId) (source : Source) :
    ∃ nested?, (scene.addPieces id source).2.Pieced scene
      (.nodes scene.graph.regions.size [] nested?) source.tokens (scene.addPieces id source).1 := by
  cases source with
  | inline tokens => exact ⟨none, pieced_addNodePieces scene _ tokens⟩
  | nested expression directive? =>
      refine ⟨some ⟨id, directive?⟩, fun wellFormed => wellFormed, .refl _, .part (.nil _ _), ?_, ?_,
        .part ?_ .nil⟩
      · simp [addPieces]
      · simp [addPieces]
      · simp [addPieces, addPart]

structure Seated (result scene : Scene) (level : Level) (previous? next? : Option NodeId)
    (source : Source) (shown : List NodeId) : Prop where
  grown : result.Grown scene [] []
  extended : result.document.Extends scene.document
  size : result.graph.regions.size = scene.graph.regions.size + 1
  region : ∃ region, result.graph.regions[scene.graph.regions.size]? = some region ∧
    region.parent? = level.parent? ∧ region.previous? = previous? ∧ region.next? = next? ∧
    region.owning = level.owning ∧ result.graph.nodesOf region = shown ∧
    result.graph.Spelled result.IsText source.tokens region.group
  unique : shown.Nodup
  shown : ∀ id ∈ shown, ∃ text, result.document.Sprouts scene.document id text

theorem Unwritten.nodesOf_parted {α : Type} {later : PartGraph} {target : Target}
    {pieces : List (Piece α)} (unwritten : scene.Unwritten)
    (parted : later.Parted scene.graph target pieces) (plain : target.content = []) (region : Region) :
    later.nodesOf region = scene.graph.nodesOf region := by
  apply PartGraph.nodesOf_congr
  intro part _
  rw [parted.contentOf_eq_nil plain unwritten.empty, unwritten.empty]

theorem Pieced.sprouts {target : Target} {tokens : List Token} {group : List (Piece NodeId)}
    {later : Scene} (pieced : later.Pieced scene target tokens group) (unwritten : scene.Unwritten)
    (plain : target.content = []) : ∀ node ∈ group.flatMap later.graph.pieceNodes,
      ∃ text, later.document.Sprouts scene.document node text := by
  intro node member
  obtain ⟨piece, pieceMember, nodeMember⟩ := List.mem_flatMap.mp member
  cases piece with
  | literal value =>
      rw [PartGraph.pieceNodes, List.mem_singleton] at nodeMember
      exact pieced.literal node (nodeMember ▸ pieceMember)
  | part index =>
      rw [PartGraph.pieceNodes, pieced.parted.contentOf_eq_nil plain unwritten.empty] at nodeMember
      cases nodeMember

theorem Pieced.unwritten {tokens : List Token} {region : Region} {nested? : Option Nested}
    {later : Scene}
    (pieced : later.Pieced scene (.nodes scene.graph.regions.size [] nested?) tokens region.group)
    (unwritten : scene.Unwritten) (known : region.Known later.document)
    (settled : region.rendered = later.graph.nodesOf region ∧ region.detached = false) :
    Unwritten { later with
      graph := { later.graph with regions := later.graph.regions.push region } } := by
  have nodes := unwritten.nodesOf_parted pieced.parted rfl
  refine {
    wellFormed := pieced.wellFormed unwritten.wellFormed
    linked := unwritten.linked.pushRegion pieced.parted pieced.unique
    known := ?_
    shown := ?_
    empty := pieced.parted.contentOf_eq_nil rfl unwritten.empty
    settled := ?_
    bound := unwritten.bound.pushRegion pieced.parted _
    initial := ?_
  }
  · intro index other found
    rcases PartGraph.getElem?_push_cases found with older | ⟨_, rfl⟩
    · rw [pieced.parted.regions_eq] at older
      exact (unwritten.known older).keepsKinds pieced.extended.keepsKinds
    · exact known
  · intro index other found id member
    rcases PartGraph.getElem?_push_cases found with older | ⟨_, rfl⟩
    · rw [pieced.parted.regions_eq] at older
      have member : id ∈ scene.graph.nodesOf other := nodes other ▸ member
      rw [pieced.extended.kind_eq (unwritten.has_of_shown older id member)]
      exact unwritten.shown older id member
    · obtain ⟨text, sprouts⟩ := pieced.sprouts unwritten rfl id member
      exact sprouts.kind_ne
  · intro index other found
    rcases PartGraph.getElem?_push_cases found with older | ⟨_, rfl⟩
    · rw [pieced.parted.regions_eq] at older
      obtain ⟨rendered, detached⟩ := unwritten.settled older
      exact ⟨rendered.trans (nodes other).symm, detached⟩
    · exact settled
  · intro index binding value? found
    rcases pieced.parted.target_cases found with older | ⟨same, _⟩
    · exact unwritten.initial older
    · cases same

theorem seated_addRegion (unwritten : scene.Unwritten) (level : Level)
    (previous? next? : Option NodeId) (id : NodeId) (source : Source)
    (parent : ∀ id, level.parent? = some id → scene.document.Has id)
    (previous : ∀ id, previous? = some id → scene.document.Has id)
    (next : ∀ id, next? = some id → scene.document.Has id) :
    (scene.addRegion level previous? next? id source).2.Seated scene level previous? next? source
      (scene.addRegion level previous? next? id source).1 := by
  obtain ⟨nested?, pieced⟩ := pieced_addPieces scene id source
  rw [addRegion]
  generalize scene.addPieces id source = made at *
  obtain ⟨group, later⟩ := made
  dsimp only at pieced ⊢
  have literals := pieced.sprouts unwritten rfl
  have known : Region.Known ⟨level.parent?, previous?, next?, level.owning, group,
      group.flatMap later.graph.pieceNodes, false⟩ later.document :=
    ⟨fun id same => pieced.extended.has (parent id same),
      fun id same => pieced.extended.has (previous id same),
      fun id same => pieced.extended.has (next id same),
      fun id member => (literals id member).choose_spec.has⟩
  have grows := pieced.parted.grows
  exact {
    grown := {
      unwritten := pieced.unwritten unwritten known ⟨rfl, rfl⟩
      grows := ⟨grows.part, grows.binding,
        fun found => PartGraph.getElem?_push_of_some _ (grows.region found), grows.fragment⟩
      spares := pieced.extended.spares [] []
      binding := fun found => Or.inl (pieced.parted.bindings_eq ▸ found)
    }
    extended := pieced.extended
    size := by simp [pieced.parted.regions_eq]
    region := ⟨⟨level.parent?, previous?, next?, level.owning, group,
        group.flatMap later.graph.pieceNodes, false⟩,
      by simp [pieced.parted.regions_eq], rfl, rfl, rfl, rfl, rfl,
      pieced.spelled.congr (fun _ _ _ reads => reads) fun _ _ _ found => found⟩
    unique := PartGraph.nodup_of_empty pieced.unique
      (pieced.parted.contentOf_eq_nil rfl unwritten.empty)
    shown := literals
  }

structure Opened (result scene : Scene) (level : Level) (previous? next? : Option NodeId)
    (source : Source) (lead? trail? : Option NodeId) (shown : List NodeId) : Prop where
  grown : result.Grown scene [] []
  extended : result.document.Extends scene.document
  anchors : ∀ id ∈ lead?.toList ++ trail?.toList, result.document.Sprouts scene.document id ""
  texts : ∀ id ∈ shown, ∃ text, result.document.Sprouts scene.document id text
  unique : (lead?.toList ++ shown ++ trail?.toList).Nodup
  size : result.graph.regions.size = scene.graph.regions.size + 1
  region : ∃ region, result.graph.regions[scene.graph.regions.size]? = some region ∧
    region.parent? = level.parent? ∧ region.previous? = (lead? <|> previous?) ∧
    region.next? = (trail? <|> next?) ∧ region.owning = level.owning ∧
    result.graph.nodesOf region = shown ∧
    result.graph.Spelled result.IsText source.tokens region.group

theorem opened_addRegion {first second : Scene} {leads trails : Bool}
    {lead? trail? previous? next? : Option NodeId} (leading : first.Anchored scene leads lead?)
    (trailing : second.Anchored first trails trail?) (level : Level) (id : NodeId) (source : Source)
    (parent : ∀ other, level.parent? = some other → scene.document.Has other)
    (previous : ∀ other, previous? = some other → scene.document.Has other)
    (next : ∀ other, next? = some other → scene.document.Has other) :
    (second.addRegion level (lead? <|> previous?) (trail? <|> next?) id source).2.Opened scene level
      previous? next? source lead? trail?
      (second.addRegion level (lead? <|> previous?) (trail? <|> next?) id source).1 := by
  have extended := trailing.extended.trans leading.extended
  have leadSprouts : ∀ other ∈ lead?.toList, second.document.Sprouts scene.document other "" :=
    fun other member => (leading.sprouts other (by simpa using member)).later trailing.extended
  have trailSprouts : ∀ other ∈ trail?.toList, second.document.Sprouts scene.document other "" :=
    fun other member =>
      (trailing.sprouts other (by simpa using member)).earlier leading.extended.keepsKinds
  have seated := seated_addRegion trailing.grown.unwritten level (lead? <|> previous?)
    (trail? <|> next?) id source (fun other same => extended.has (parent other same))
    (by
      intro other same
      cases lead? with
      | none => exact extended.has (previous other same)
      | some lead => exact (leadSprouts other (Option.mem_toList.mpr same)).has)
    (by
      intro other same
      cases trail? with
      | none => exact extended.has (next other same)
      | some trail => exact (trailSprouts other (Option.mem_toList.mpr same)).has)
  generalize second.addRegion level (lead? <|> previous?) (trail? <|> next?) id source = third at *
  obtain ⟨shown, third⟩ := third
  dsimp only at seated ⊢
  have size : second.graph.regions.size = scene.graph.regions.size := by
    rw [trailing.graph, leading.graph]
  have single (anchor? : Option NodeId) : anchor?.toList.Nodup := by
    cases anchor? <;> simp
  refine ⟨(seated.grown.trans (trailing.grown.trans leading.grown)).weaken (by simp) (by simp),
    seated.extended.trans extended, ?_, ?_, ?_, ?_, ?_⟩
  · intro other member
    rcases List.mem_append.mp member with leadMember | trailMember
    · exact (leadSprouts other leadMember).later seated.extended
    · exact (trailSprouts other trailMember).later seated.extended
  · intro other member
    obtain ⟨text, sprouts⟩ := seated.shown other member
    exact ⟨text, sprouts.earlier extended.keepsKinds⟩
  · refine List.nodup_append'.mpr ⟨List.nodup_append'.mpr ⟨single lead?, seated.unique, ?_⟩,
      single trail?, ?_⟩
    · intro other leadMember shownMember
      obtain ⟨text, sprouts⟩ := seated.shown other shownMember
      exact sprouts.missing (leadSprouts other leadMember).has
    · intro other member trailMember
      rcases List.mem_append.mp member with leadMember | shownMember
      · exact (trailing.sprouts other (by simpa using trailMember)).missing
          (leading.sprouts other (by simpa using leadMember)).has
      · obtain ⟨text, sprouts⟩ := seated.shown other shownMember
        exact sprouts.missing (trailSprouts other trailMember).has
  · rw [seated.size, size]
  · rw [← size]
    exact seated.region

theorem parted_addTextPieces (scene : Scene) (binding : Nat) (tokens : List Token) :
    (scene.addTextPieces binding tokens).2.document = scene.document ∧
      (scene.addTextPieces binding tokens).2.graph.Parted scene.graph (.attribute binding (some ""))
        (scene.addTextPieces binding tokens).1 ∧
      (scene.addTextPieces binding tokens).2.graph.Spelled Eq tokens
        (scene.addTextPieces binding tokens).1 := by
  induction tokens generalizing scene with
  | nil => exact ⟨rfl, .nil _ _, .nil⟩
  | cons token rest ih =>
      cases token with
      | literal text =>
          obtain ⟨document, parted, spelled⟩ := ih scene
          rw [addTextPieces]
          split
          · rename_i blank
            subst blank
            exact ⟨document, parted, .empty spelled⟩
          · rename_i shown
            exact ⟨document, parted.literal text, .literal shown rfl spelled⟩
      | placeholder expression =>
          obtain ⟨document, parted, spelled⟩ :=
            ih (scene.addPart ⟨expression, .attribute binding (some "")⟩).2
          refine ⟨document, .part parted, .part ?_ spelled⟩
          have pushed : (scene.addPart ⟨expression, .attribute binding (some "")⟩).2.graph.parts[
              scene.graph.parts.size]? = some ⟨expression, .attribute binding (some "")⟩ := by
            simp [addPart]
          exact congrArg (Option.map Part.expression) (parted.old pushed)

structure Fastened (result scene : Scene) (id : NodeId) (entry : Attribute) (tokens : List Token) :
    Prop where
  grown : result.Grown scene [id] []
  regions : result.graph.regions = scene.graph.regions
  binding : ∃ (binding : Binding) (value : String),
    result.graph.bindings[scene.graph.bindings.size]? = some binding ∧ binding.element = id ∧
      binding.name = entry.name ∧ result.graph.Spelled Eq tokens binding.pieces ∧
      result.graph.valueOf binding = some value ∧
      result.document = scene.document.putAttribute id entry.name (some value)
  cases : ∀ {index : Nat} {binding : Binding}, result.graph.bindings[index]? = some binding →
    scene.graph.bindings[index]? = some binding ∨ binding.element = id ∧ binding.name = entry.name

theorem exists_addBinding (scene : Scene) (id : NodeId) {entry : Attribute} {tokens : List Token}
    (templated : Token.templated? entry.value = some tokens) :
    ∃ (pieces : List (Piece String)) (later : PartGraph),
      later.Parted scene.graph (.attribute scene.graph.bindings.size (some "")) pieces ∧
      later.Spelled Eq tokens pieces ∧
      scene.addBinding id entry =
        ⟨scene.document.putAttribute id entry.name (some (Binding.blank ⟨id, entry.name, pieces⟩)),
          { later with bindings := later.bindings.push ⟨id, entry.name, pieces⟩ }⟩ := by
  simp only [addBinding, templated]
  obtain ⟨document, parted, spelled⟩ := parted_addTextPieces scene scene.graph.bindings.size tokens
  generalize scene.addTextPieces scene.graph.bindings.size tokens = made at *
  obtain ⟨pieces, later⟩ := made
  dsimp only at document parted spelled ⊢
  refine ⟨pieces, later.graph, parted, spelled, ?_⟩
  have blank : later.graph.valueOf ⟨id, entry.name, pieces⟩ =
      some (Binding.blank ⟨id, entry.name, pieces⟩) :=
    parted.valueOf_eq
  have pushed : (later.graph.bindings.push ⟨id, entry.name, pieces⟩)[scene.graph.bindings.size]? =
      some ⟨id, entry.name, pieces⟩ := by
    rw [parted.bindings_eq]
    exact Array.getElem?_push_size
  rw [← document, ← blank]
  exact reconcileBinding_eq ⟨later.document, ⟨later.graph.fragment, later.graph.parts,
    later.graph.bindings.push ⟨id, entry.name, pieces⟩, later.graph.regions⟩⟩ pushed

theorem Unwritten.pushBinding {id : NodeId} {name : AttributeName} {value? : Option String}
    {pieces : List (Piece String)} {later : PartGraph} (unwritten : scene.Unwritten)
    (parted : later.Parted scene.graph (.attribute scene.graph.bindings.size (some "")) pieces)
    (fresh : ∀ {index : Nat} {binding : Binding}, scene.graph.bindings[index]? = some binding →
      binding.element = id → binding.name.agrees name = false) :
    Unwritten ⟨scene.document.putAttribute id name value?,
      { later with bindings := later.bindings.push ⟨id, name, pieces⟩ }⟩ := by
  have nodes := unwritten.nodesOf_parted parted rfl
  refine {
    wellFormed := Document.wellFormed_putAttribute unwritten.wellFormed
    linked := unwritten.linked.pushBinding parted
    known := ?_
    shown := ?_
    empty := parted.contentOf_eq_nil rfl unwritten.empty
    settled := ?_
    bound := unwritten.bound.pushBinding parted fresh
    initial := ?_
  }
  · intro index region found
    exact (unwritten.known (parted.regions_eq ▸ found)).keepsKinds Document.keepsKinds_putAttribute
  · intro index region found node member
    have member : node ∈ scene.graph.nodesOf region := nodes region ▸ member
    have found : scene.graph.regions[index]? = some region := parted.regions_eq ▸ found
    rw [Document.keepsKinds_putAttribute.kind_eq (unwritten.has_of_shown found node member)]
    exact unwritten.shown found node member
  · intro index region found
    obtain ⟨rendered, detached⟩ := unwritten.settled (parted.regions_eq ▸ found)
    exact ⟨rendered.trans (nodes region).symm, detached⟩
  · intro index binding value? found
    rcases parted.target_cases found with older | ⟨same, _⟩
    · exact unwritten.initial older
    · cases same
      rfl

theorem spares_putAttribute (document : Document) (id : NodeId) (name : AttributeName)
    (value? : Option String) : (document.putAttribute id name value?).Spares document [id] [] where
  kinds := Document.keepsKinds_putAttribute
  content_eq := fun other _ outside => by
    rw [Document.content_putAttribute, if_neg (by simpa using outside)]
  children_eq := fun _ _ _ => Document.children_setContent _ _ _ _
  parent?_eq := fun _ _ _ => Document.parent?_setContent _ _ _ _

theorem fastened_addBinding (unwritten : scene.Unwritten) {id : NodeId} {entry : Attribute}
    {tokens : List Token} (templated : Token.templated? entry.value = some tokens)
    (fresh : ∀ {index : Nat} {binding : Binding}, scene.graph.bindings[index]? = some binding →
      binding.element = id → binding.name.agrees entry.name = false) :
    (scene.addBinding id entry).Fastened scene id entry tokens := by
  obtain ⟨pieces, later, parted, spelled, made⟩ := scene.exists_addBinding id templated
  rw [made]
  have pushed : (later.bindings.push ⟨id, entry.name, pieces⟩)[scene.graph.bindings.size]? =
      some ⟨id, entry.name, pieces⟩ := by
    rw [parted.bindings_eq]
    exact Array.getElem?_push_size
  have value : later.valueOf ⟨id, entry.name, pieces⟩ =
      some (Binding.blank ⟨id, entry.name, pieces⟩) :=
    parted.valueOf_eq
  have cases : ∀ {index : Nat} {binding : Binding},
      (later.bindings.push ⟨id, entry.name, pieces⟩)[index]? = some binding →
        scene.graph.bindings[index]? = some binding ∨
          binding.element = id ∧ binding.name = entry.name := by
    intro index binding found
    rcases PartGraph.getElem?_push_cases found with older | ⟨_, rfl⟩
    · exact Or.inl (parted.bindings_eq ▸ older)
    · exact Or.inr ⟨rfl, rfl⟩
  have grows := parted.grows
  refine {
    grown := {
      unwritten := unwritten.pushBinding parted fresh
      grows := ⟨grows.part, fun found => PartGraph.getElem?_push_of_some _ (grows.binding found),
        grows.region, grows.fragment⟩
      spares := spares_putAttribute ..
      binding := fun found => (cases found).imp_right fun same => ?_
    }
    regions := parted.regions_eq
    binding := ⟨_, _, pushed, rfl, rfl, ?_, value, rfl⟩
    cases := cases
  }
  · rw [same.1]
    exact List.mem_singleton_self id
  · exact spelled.congr (fun _ _ _ reads => reads) fun _ _ _ found => found

theorem Bears.later {result : Scene} {id : NodeId} {entry : Attribute} (bears : scene.Bears id entry)
    (bound : scene.graph.Bound) (grows : result.graph.Grows scene.graph)
    (same : Attribute.named? (result.document.content id).attributes entry.name =
      Attribute.named? (scene.document.content id).attributes entry.name) :
    result.Bears id entry := by
  revert bears
  simp only [Bears, same]
  split
  · exact fun bears => bears
  · rintro ⟨index, binding, found, element, name, spelled, shown⟩
    refine ⟨index, binding, grows.binding found, element, name, ?_, ?_⟩
    · exact spelled.congr (fun _ _ _ reads => reads) fun _ _ _ => grows.expression
    · rw [shown, grows.valueOf_eq bound found]

structure Fastening (result scene : Scene) (id : NodeId) (done rest : List Attribute) : Prop where
  grown : result.Grown scene [id] []
  regions : result.graph.regions = scene.graph.regions
  same : ∃ entries, result.document.content id =
    (scene.document.content id).mapAttributes fun _ => entries
  children : ∀ other, result.document.children other = scene.document.children other
  bears : ∀ entry ∈ done, result.Bears id entry
  kept : ∀ entry ∈ rest,
    Attribute.named? (result.document.content id).attributes entry.name = some entry
  other : ∀ name : AttributeName, (∀ entry ∈ done ++ rest, entry.name.agrees name = false) →
    Attribute.named? (result.document.content id).attributes name = none
  fresh : ∀ {index : Nat} {binding : Binding}, result.graph.bindings[index]? = some binding →
    binding.element = id → ∃ entry ∈ done, binding.name = entry.name ∧
      (Token.templated? entry.value).isSome = true

section
variable {result : Scene} {id : NodeId} {entry : Attribute} {done rest : List Attribute}

theorem Fastening.skip (fastening : result.Fastening scene id done (entry :: rest))
    (plain : Token.templated? entry.value = none) :
    (result.addBinding id entry).Fastening scene id (done ++ [entry]) rest := by
  have unchanged : result.addBinding id entry = result := by
    rw [addBinding, plain]
  have bears : result.Bears id entry := by
    simp only [Bears, plain, fastening.kept entry (List.mem_cons_self ..)]
  rw [unchanged]
  refine {
    grown := fastening.grown
    regions := fastening.regions
    same := fastening.same
    children := fastening.children
    bears := ?_
    kept := fun other member => fastening.kept other (List.mem_cons_of_mem _ member)
    other := fun name apart => fastening.other name (by simpa using apart)
    fresh := ?_
  }
  · intro other member
    rcases List.mem_append.mp member with earlier | same
    · exact fastening.bears other earlier
    · rw [List.mem_singleton.mp same]
      exact bears
  · intro index binding found element
    obtain ⟨other, member, known⟩ := fastening.fresh found element
    exact ⟨other, List.mem_append_left _ member, known⟩

theorem Fastening.bind {tokens : List Token}
    (fastening : result.Fastening scene id done (entry :: rest))
    (distinct : Attribute.Distinct (done ++ entry :: rest))
    (templated : Token.templated? entry.value = some tokens) :
    (result.addBinding id entry).Fastening scene id (done ++ [entry]) rest := by
  obtain ⟨_, entryApart, crossApart⟩ := List.pairwise_append.mp distinct
  have restApart := (List.pairwise_cons.mp entryApart).1
  have shown := fastening.kept entry (List.mem_cons_self ..)
  have fastened := fastened_addBinding fastening.grown.unwritten templated (by
    intro index binding found element
    obtain ⟨other, member, name, _⟩ := fastening.fresh found element
    rw [name]
    exact crossApart other member entry (List.mem_cons_self ..))
  obtain ⟨binding, value, found, element, name, spelled, valueFound, document⟩ := fastened.binding
  have content : (result.addBinding id entry).document.content id =
      (result.document.content id).mapAttributes (Attribute.put entry.name (some value)) := by
    rw [document, Document.content_putAttribute, if_pos rfl]
  have named (other : AttributeName) :
      Attribute.named? ((result.addBinding id entry).document.content id).attributes other =
        if entry.name.agrees other then some ⟨entry.name, value⟩
        else Attribute.named? (result.document.content id).attributes other := by
    rw [content, Content.attributes_mapAttributes (Attribute.mem_of_named? shown),
      Attribute.named?_put, shown]
    rfl
  refine {
    grown := (fastened.grown.trans fastening.grown).weaken (by simp) (by simp)
    regions := fastened.regions.trans fastening.regions
    same := ?_
    children := ?_
    bears := ?_
    kept := ?_
    other := ?_
    fresh := ?_
  }
  · obtain ⟨entries, same⟩ := fastening.same
    exact ⟨_, by rw [content, same, Content.mapAttributes_mapAttributes]⟩
  · intro other
    rw [document]
    exact (Document.children_setContent _ _ _ _).trans (fastening.children other)
  · intro other member
    rcases List.mem_append.mp member with earlier | same
    · apply (fastening.bears other earlier).later fastening.grown.unwritten.bound
        fastened.grown.grows
      rw [named, AttributeName.agrees_comm, crossApart other earlier entry (List.mem_cons_self ..)]
      rfl
    · rw [List.mem_singleton.mp same]
      simp only [Bears, templated]
      refine ⟨_, binding, found, element, name, spelled, ?_⟩
      rw [named, if_pos (AttributeName.agrees_refl _), valueFound, Option.map_some]
  · intro other member
    rw [named, restApart other member]
    exact fastening.kept other (List.mem_cons_of_mem _ member)
  · intro other apart
    rw [named, apart entry (by simp)]
    exact fastening.other other (by simpa using apart)
  · intro index other otherFound otherElement
    rcases fastened.cases otherFound with older | ⟨_, same⟩
    · obtain ⟨known, member, named⟩ := fastening.fresh older otherElement
      exact ⟨known, List.mem_append_left _ member, named⟩
    · exact ⟨entry, by simp, same, by rw [templated]; rfl⟩

theorem Fastening.run (fastening : result.Fastening scene id done rest)
    (distinct : Attribute.Distinct (done ++ rest)) :
    (rest.foldl (fun scene entry => scene.addBinding id entry) result).Fastening scene id
      (done ++ rest) [] := by
  -- No two attributes agree in name, so that a later binding leaves the earlier ones as they are.
  induction rest generalizing done result with
  | nil => rwa [List.append_nil]
  | cons entry rest ih =>
      rw [List.foldl_cons, List.append_cons] at *
      refine ih ?_ distinct
      rw [List.append_assoc] at distinct
      cases templated : Token.templated? entry.value with
      | none => exact fastening.skip templated
      | some tokens => exact fastening.bind distinct templated

end

theorem grown_addBindings (unwritten : scene.Unwritten) {id : NodeId}
    (fresh : ∀ {index : Nat} {binding : Binding}, scene.graph.bindings[index]? = some binding →
      binding.element ≠ id) :
    (scene.addBindings id).Grown scene [id] [] ∧
      (scene.addBindings id).graph.regions = scene.graph.regions ∧
      (scene.addBindings id).document.children id = scene.document.children id ∧
      (scene.addBindings id).Displays id (scene.document.content id) := by
  have distinct := unwritten.wellFormed.names id
  have start : scene.Fastening scene id [] (scene.document.content id).attributes := by
    refine ⟨(Grown.refl unwritten).weaken (by simp) (by simp), rfl, ?_, fun _ => rfl, by simp, ?_, ?_,
      ?_⟩
    · exact ⟨_, (Content.mapAttributes_self _).symm⟩
    · exact fun entry member => Attribute.named?_of_mem distinct member
    · intro name apart
      exact Attribute.named?_eq_none.mpr apart
    · exact fun found element => (fresh found element).elim
  have fastened := start.run distinct
  exact ⟨fastened.grown, fastened.regions, fastened.children id, distinct,
    fun _ _ _ found element => fastened.fresh found element, fastened.same, fastened.bears,
    fun name apart => fastened.other name (by simpa using apart)⟩

end

end Scene

end LiveTemplate
