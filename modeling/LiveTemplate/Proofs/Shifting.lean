import LiveTemplate.Proofs.Renaming

/-! Templates in longer documents. A document that grew since then gives an instance the nodes that
it would have given before, all of them with a number that is larger by the same offset. -/

namespace LiveTemplate

def NodeId.shift (offset : Nat) (id : NodeId) : NodeId :=
  ⟨id.index + offset⟩

theorem NodeId.shift_injective (offset : Nat) : Function.Injective (shift offset) := by
  rintro ⟨first⟩ ⟨second⟩ same
  rw [shift, shift, NodeId.mk.injEq] at same
  rw [NodeId.mk.injEq]
  exact Nat.add_right_cancel same

theorem contains_map {image : NodeId → NodeId} (injective : Function.Injective image) (ids : List NodeId)
    (id : NodeId) : (ids.map image).contains (image id) = ids.contains id := by
  rw [Bool.eq_iff_iff, List.contains_iff_mem, List.contains_iff_mem, List.mem_map_of_injective injective]

theorem filter_contains_map {image : NodeId → NodeId} (injective : Function.Injective image)
    (ids listed : List NodeId) : (ids.map image).filter (fun id => !(listed.map image).contains id) =
      (ids.filter fun id => !listed.contains id).map image := by
  rw [List.filter_map]
  congr 1
  exact List.filter_congr fun id _ => congrArg _ (contains_map injective listed id)

theorem Tree.labels_mapForest {α β : Type} (f : α → β) (trees : List (Tree α)) :
    (mapForest f trees).map label = (trees.map label).map f := by
  rw [mapForest_eq_map, List.map_map, List.map_map]
  exact List.map_congr_left fun tree _ => label_map f tree

def Level.rename (image : NodeId → NodeId) (level : Level) : Level :=
  { level with parent? := level.parent?.map image }

theorem Level.isOuter_rename {image : NodeId → NodeId} (level : Level) :
    (level.rename image).isOuter = level.isOuter := by
  rw [isOuter, isOuter, rename]
  cases level.parent? <;> rfl

namespace Document

structure Shifted (document longer : Document) (base offset : Nat) : Prop where
  size : longer.size = document.size + offset
  node : ∀ id : NodeId, base ≤ id.index →
    longer.node (id.shift offset) = (document.node id).rename (NodeId.shift offset)

namespace Shifted

variable {document longer : Document} {base offset : Nat} {id : NodeId}

theorem has_iff (shifted : document.Shifted longer base offset) (id : NodeId) :
    longer.Has (id.shift offset) ↔ document.Has id := by
  rw [Has, Has, shifted.size]
  exact Nat.add_lt_add_iff_right

theorem content (shifted : document.Shifted longer base offset) (above : base ≤ id.index) :
    longer.content (id.shift offset) = document.content id := by
  rw [Document.content, shifted.node id above]
  rfl

theorem children (shifted : document.Shifted longer base offset) (above : base ≤ id.index) :
    longer.children (id.shift offset) = (document.children id).map (NodeId.shift offset) :=
  congrArg Node.children (shifted.node id above)

theorem create (shifted : document.Shifted longer base offset) (content : Content) :
    (longer.create content).1 = (document.create content).1.shift offset ∧
      (document.create content).2.Shifted (longer.create content).2 base offset := by
  have fresh : (longer.create content).1 = (document.create content).1.shift offset :=
    congrArg NodeId.mk shifted.size
  have grown (document : Document) : (document.create content).2.size = document.size + 1 :=
    Array.size_push _
  refine ⟨fresh, by rw [grown, grown, shifted.size, Nat.add_right_comm], fun id above => ?_⟩
  by_cases same : id = (document.create content).1
  · rw [same, ← fresh, node_create, node_create]
    rfl
  · rw [node_create_of_ne _ _ same, node_create_of_ne, shifted.node id above]
    rw [fresh]
    exact fun equal => same (NodeId.shift_injective offset equal)

theorem modify (shifted : document.Shifted longer base offset) (id : NodeId)
    {change changed : Node → Node} (same : ∀ node : Node,
      changed (node.rename (NodeId.shift offset)) = (change node).rename (NodeId.shift offset)) :
    (document.modify id change).Shifted (longer.modify (id.shift offset) changed) base offset := by
  refine ⟨by rw [size_modify, size_modify, shifted.size], fun other above => ?_⟩
  by_cases bound : document.Has id
  · rw [node_modify bound, node_modify ((shifted.has_iff id).mpr bound)]
    by_cases equal : other = id
    · subst equal
      rw [if_pos rfl, if_pos rfl, shifted.node other above, same]
    · rw [if_neg equal, if_neg fun shiftEq => equal (NodeId.shift_injective offset shiftEq),
        shifted.node other above]
  · rw [modify_of_not_has bound, modify_of_not_has (mt (shifted.has_iff id).mp bound),
      shifted.node other above]

theorem setContent (shifted : document.Shifted longer base offset) (id : NodeId) (content : Content) :
    (document.setContent id content).Shifted (longer.setContent (id.shift offset) content) base
      offset :=
  shifted.modify id fun _ => rfl

theorem setParent (shifted : document.Shifted longer base offset) (parent? : Option NodeId)
    (id : NodeId) : (document.setParent parent? id).Shifted
      (longer.setParent (parent?.map (NodeId.shift offset)) (id.shift offset)) base offset :=
  shifted.modify id fun _ => rfl

theorem setChildren (shifted : document.Shifted longer base offset) (id : NodeId)
    (children : List NodeId) : (document.setChildren id children).Shifted
      (longer.setChildren (id.shift offset) (children.map (NodeId.shift offset))) base offset :=
  shifted.modify id fun _ => rfl

theorem foldl_setParent (shifted : document.Shifted longer base offset) (parent? : Option NodeId)
    (ids : List NodeId) : (ids.foldl (Document.setParent · parent?) document).Shifted
      ((ids.map (NodeId.shift offset)).foldl
        (Document.setParent · (parent?.map (NodeId.shift offset))) longer) base offset := by
  induction ids generalizing document longer with
  | nil => exact shifted
  | cons id rest ih => exact ih (shifted.setParent parent? id)

theorem arrange (shifted : document.Shifted longer base offset) {parent : NodeId}
    (above : base ≤ parent.index) (ids : List NodeId) : (document.arrange parent ids).Shifted
      (longer.arrange (parent.shift offset) (ids.map (NodeId.shift offset))) base offset := by
  rw [Document.arrange, Document.arrange, shifted.children above,
    filter_contains_map (NodeId.shift_injective offset)]
  exact ((shifted.foldl_setParent none _).setChildren parent ids).foldl_setParent (some parent) ids

theorem putAttribute (shifted : document.Shifted longer base offset) (above : base ≤ id.index)
    (name : AttributeName) (value? : Option String) : (document.putAttribute id name value?).Shifted
      (longer.putAttribute (id.shift offset) name value?) base offset := by
  rw [Document.putAttribute, Document.putAttribute, shifted.content above]
  exact shifted.setContent id _

end Shifted

variable {offset : Nat}

mutual

theorem entries_shift (first : Nat) (parent? : Option NodeId) : ∀ tree : Tree Content,
    entries (first + offset) (parent?.map (NodeId.shift offset)) tree =
      (entries first parent? tree).map (Node.rename (NodeId.shift offset))
  | .node content children => by
      have below := entriesAll_shift (first + 1) (some ⟨first⟩) children
      rw [entries, entries, List.map_cons, Nat.add_right_comm first offset 1, ← below,
        roots_shift (first + 1) children]
      rfl

theorem entriesAll_shift (first : Nat) (parent? : Option NodeId) : ∀ trees : List (Tree Content),
    entriesAll (first + offset) (parent?.map (NodeId.shift offset)) trees =
      (entriesAll first parent? trees).map (Node.rename (NodeId.shift offset))
  | [] => rfl
  | tree :: rest => by
      rw [entriesAll, entriesAll, List.map_append, entries_shift first parent? tree,
        Nat.add_right_comm first offset tree.size, entriesAll_shift (first + tree.size) parent? rest]

theorem roots_shift (first : Nat) : ∀ trees : List (Tree Content),
    roots (first + offset) trees = (roots first trees).map (NodeId.shift offset)
  | [] => rfl
  | tree :: rest => by
      rw [roots, roots, List.map_cons, Nat.add_right_comm first offset tree.size,
        roots_shift (first + tree.size) rest]
      rfl

end

theorem Shifted.graft {document longer : Document} {base : Nat}
    (shifted : document.Shifted longer base offset) (tree : Tree Content) :
    (longer.graft tree).1 = (document.graft tree).1.shift offset ∧
      (document.graft tree).2.Shifted (longer.graft tree).2 base offset := by
  refine ⟨congrArg NodeId.mk shifted.size, ?_, fun id above => ?_⟩
  · rw [size_graft, size_graft, shifted.size, Nat.add_right_comm]
  · by_cases bound : document.Has id
    · rw [(extends_graft longer tree).node_eq _ ((shifted.has_iff id).mpr bound),
        (extends_graft document tree).node_eq id bound, shifted.node id above]
    · have size (document : Document) : document.nodes.toList.length = document.size := rfl
      have outside : document.size ≤ id.index := Nat.not_lt.mp bound
      have entered : entries (document.size + offset) (none.map (NodeId.shift offset)) tree = _ :=
        entries_shift document.size none tree
      rw [Option.map_none, ← shifted.size] at entered
      rw [node_eq_toList, node_eq_toList, toList_graft, toList_graft, entered,
        List.getElem?_append_right (by rw [size, shifted.size]; exact Nat.add_le_add_right outside _),
        List.getElem?_append_right (by rw [size]; exact outside),
        size, size, shifted.size, NodeId.shift, Nat.add_sub_add_right, List.getElem?_map]
      cases (entries document.size none tree)[id.index - document.size]? <;> rfl

theorem Shifted.layoutUpTo {document longer : Document} {base : Nat}
    (shifted : document.Shifted longer base offset) (inner : ∀ id child : NodeId, base ≤ id.index →
      child ∈ document.children id → base ≤ child.index) (limit : Nat) {id : NodeId}
    (above : base ≤ id.index) : longer.layoutUpTo limit (id.shift offset) =
      (document.layoutUpTo limit id).map (NodeId.shift offset) := by
  induction limit generalizing id with
  | zero => rfl
  | succ limit ih =>
      rw [Document.layoutUpTo, Document.layoutUpTo, Tree.map, shifted.children above,
        Tree.mapForest_eq_map, List.map_map, List.map_map]
      congr 1
      exact List.map_congr_left fun child member => ih (inner id child above member)

theorem Shifted.layout {document longer : Document} {base : Nat}
    (shifted : document.Shifted longer base offset) (wellFormed : document.WellFormed)
    (inner : ∀ id child : NodeId, base ≤ id.index → child ∈ document.children id → base ≤ child.index)
    {id : NodeId} (above : base ≤ id.index) :
    longer.layout (id.shift offset) = (document.layout id).map (NodeId.shift offset) := by
  have enough : document.size ≤ longer.size := by
    rw [shifted.size]
    exact Nat.le_add_right _ _
  rw [← wellFormed.layoutUpTo_eq enough, Document.layout, shifted.layoutUpTo inner longer.size above]

end Document

namespace Scene

structure Shifted (scene longer : Scene) (base offset : Nat) (allowed : NodeId → Prop) : Prop where
  document : scene.document.Shifted longer.document base offset
  graph : longer.graph = scene.graph.rename (NodeId.shift offset)
  refers : scene.graph.Refers allowed

namespace Shifted

variable {scene longer : Scene} {base offset : Nat} {allowed : NodeId → Prop} {config : Config}
  {id : NodeId}

theorem addNode (shifted : scene.Shifted longer base offset allowed) (content : Content) :
    (longer.addNode content).1 = (scene.addNode content).1.shift offset ∧
      (scene.addNode content).2.Shifted (longer.addNode content).2 base offset allowed := by
  obtain ⟨same, created⟩ := shifted.document.create content
  exact ⟨same, created, shifted.graph, shifted.refers⟩

theorem parts_size (shifted : scene.Shifted longer base offset allowed) :
    longer.graph.parts.size = scene.graph.parts.size := by
  rw [shifted.graph]
  exact Array.size_map

theorem regions_size (shifted : scene.Shifted longer base offset allowed) :
    longer.graph.regions.size = scene.graph.regions.size := by
  rw [shifted.graph]
  exact Array.size_map

theorem bindings_size (shifted : scene.Shifted longer base offset allowed) :
    longer.graph.bindings.size = scene.graph.bindings.size := by
  rw [shifted.graph]
  exact Array.size_map

theorem addPart (shifted : scene.Shifted longer base offset allowed) (part : Part)
    (known : ∀ {region : Nat} {content : List NodeId} {nested : Nested},
      part.target = .nodes region content (some nested) → allowed nested.template) :
    (longer.addPart (part.rename (NodeId.shift offset))).1 = (scene.addPart part).1 ∧
      (scene.addPart part).2.Shifted (longer.addPart (part.rename (NodeId.shift offset))).2 base offset
        allowed := by
  refine ⟨shifted.parts_size, shifted.document, ?_, shifted.refers.fragment, shifted.refers.element, ?_⟩
  · rw [Scene.addPart, Scene.addPart, shifted.graph, PartGraph.rename, PartGraph.rename, Array.map_push]
  · intro index region content nested target
    obtain ⟨found, foundEq, same⟩ := Option.map_eq_some_iff.mp target
    rcases PartGraph.getElem?_push_cases foundEq with older | ⟨_, rfl⟩
    · exact shifted.refers.template (by rw [older, Option.map_some, same])
    · exact known same

theorem addAnchor (shifted : scene.Shifted longer base offset allowed) (needed : Bool) :
    (longer.addAnchor needed).1 = (scene.addAnchor needed).1.map (NodeId.shift offset) ∧
      (scene.addAnchor needed).2.Shifted (longer.addAnchor needed).2 base offset allowed := by
  cases needed with
  | false => exact ⟨rfl, shifted⟩
  | true =>
      obtain ⟨same, added⟩ := shifted.addNode (.text "")
      exact ⟨congrArg some same, added⟩

theorem addNodePieces (shifted : scene.Shifted longer base offset allowed) (region : Nat)
    (tokens : List Token) :
    (longer.addNodePieces region tokens).1 =
        (scene.addNodePieces region tokens).1.map (Piece.rename (NodeId.shift offset)) ∧
      (scene.addNodePieces region tokens).2.Shifted (longer.addNodePieces region tokens).2 base offset
        allowed := by
  induction tokens generalizing scene longer with
  | nil => exact ⟨rfl, shifted⟩
  | cons token rest ih =>
      cases token with
      | literal text =>
          rw [Scene.addNodePieces, Scene.addNodePieces]
          split
          · exact ih shifted
          · obtain ⟨same, added⟩ := shifted.addNode (.text text)
            obtain ⟨pieces, later⟩ := ih added
            refine ⟨?_, later⟩
            dsimp only
            rw [pieces, same]
            rfl
      | placeholder expression =>
          obtain ⟨same, added⟩ := shifted.addPart ⟨expression, .nodes region [] none⟩ (by rintro _ _ _ ⟨⟩)
          obtain ⟨pieces, later⟩ := ih added
          refine ⟨?_, later⟩
          rw [Scene.addNodePieces, Scene.addNodePieces]
          exact congrArg₂ List.cons (congrArg Piece.part same) pieces

theorem addTextPieces (shifted : scene.Shifted longer base offset allowed) (binding : Nat)
    (tokens : List Token) :
    (longer.addTextPieces binding tokens).1 = (scene.addTextPieces binding tokens).1 ∧
      (scene.addTextPieces binding tokens).2.Shifted (longer.addTextPieces binding tokens).2 base offset
        allowed := by
  induction tokens generalizing scene longer with
  | nil => exact ⟨rfl, shifted⟩
  | cons token rest ih =>
      cases token with
      | literal text =>
          rw [Scene.addTextPieces, Scene.addTextPieces]
          split
          · exact ih shifted
          · obtain ⟨pieces, later⟩ := ih shifted
            exact ⟨congrArg (List.cons _) pieces, later⟩
      | placeholder expression =>
          obtain ⟨same, added⟩ := shifted.addPart ⟨expression, .attribute binding (some "")⟩
            (by rintro _ _ _ ⟨⟩)
          obtain ⟨pieces, later⟩ := ih added
          refine ⟨?_, later⟩
          rw [Scene.addTextPieces, Scene.addTextPieces]
          exact congrArg₂ List.cons (congrArg Piece.part same) pieces

theorem addPieces (shifted : scene.Shifted longer base offset allowed) (known : allowed id)
    (source : Source) :
    (longer.addPieces (id.shift offset) source).1 =
        (scene.addPieces id source).1.map (Piece.rename (NodeId.shift offset)) ∧
      (scene.addPieces id source).2.Shifted (longer.addPieces (id.shift offset) source).2 base offset
        allowed := by
  cases source with
  | inline tokens =>
      rw [Scene.addPieces, Scene.addPieces, shifted.regions_size]
      exact shifted.addNodePieces _ tokens
  | nested expression directive? =>
      rw [Scene.addPieces, Scene.addPieces, shifted.regions_size]
      obtain ⟨same, added⟩ := shifted.addPart
        ⟨expression, .nodes scene.graph.regions.size [] (some ⟨id, directive?⟩)⟩
        (by rintro _ _ _ ⟨⟩; exact known)
      exact ⟨congrArg (fun part => [Piece.part part]) same, added⟩

theorem addRegion (shifted : scene.Shifted longer base offset allowed) (level : Level)
    (previous? next? : Option NodeId) (known : allowed id) (source : Source) :
    (longer.addRegion (level.rename (NodeId.shift offset)) (previous?.map (NodeId.shift offset))
        (next?.map (NodeId.shift offset)) (id.shift offset) source).1 =
      (scene.addRegion level previous? next? id source).1.map (NodeId.shift offset) ∧
    (scene.addRegion level previous? next? id source).2.Shifted
      (longer.addRegion (level.rename (NodeId.shift offset)) (previous?.map (NodeId.shift offset))
        (next?.map (NodeId.shift offset)) (id.shift offset) source).2 base offset allowed := by
  obtain ⟨same, added⟩ := shifted.addPieces known source
  rw [Scene.addRegion, Scene.addRegion]
  generalize longer.addPieces (id.shift offset) source = made at same added ⊢
  generalize scene.addPieces id source = small at same added ⊢
  obtain ⟨group, result⟩ := small
  obtain ⟨renamed, bigger⟩ := made
  dsimp only at same added ⊢
  rw [same, added.graph, PartGraph.flatMap_rename]
  refine ⟨rfl, added.document, ?_, added.refers.fragment, added.refers.element, added.refers.template⟩
  rw [PartGraph.rename, PartGraph.rename, Array.map_push]
  rfl

theorem addBinding (shifted : scene.Shifted longer base offset allowed)
    (above : ∀ id, allowed id → base ≤ id.index) (known : allowed id) (entry : Attribute) :
    (scene.addBinding id entry).Shifted (longer.addBinding (id.shift offset) entry) base offset
      allowed := by
  rw [Scene.addBinding, Scene.addBinding]
  split
  · exact shifted
  · rename_i tokens _
    obtain ⟨same, added⟩ := shifted.addTextPieces scene.graph.bindings.size tokens
    rw [shifted.bindings_size]
    dsimp only
    generalize longer.addTextPieces scene.graph.bindings.size tokens = made at same added ⊢
    have count : (scene.addTextPieces scene.graph.bindings.size tokens).2.graph.bindings =
        scene.graph.bindings := (parted_addTextPieces scene _ tokens).2.1.bindings_eq
    generalize scene.addTextPieces scene.graph.bindings.size tokens = small at same added count ⊢
    obtain ⟨pieces, result⟩ := small
    obtain ⟨others, bigger⟩ := made
    dsimp only at same added count ⊢
    subst others
    have pushed : (result.graph.bindings.push ⟨id, entry.name, pieces⟩)[scene.graph.bindings.size]? =
        some ⟨id, entry.name, pieces⟩ := by
      rw [← count]
      exact Array.getElem?_push_size
    have size : bigger.graph.bindings.size = scene.graph.bindings.size := by
      rw [added.bindings_size, count]
    have biggerPushed : (bigger.graph.bindings.push ⟨id.shift offset, entry.name, pieces⟩)[
        scene.graph.bindings.size]? = some ⟨id.shift offset, entry.name, pieces⟩ := by
      rw [← size]
      exact Array.getElem?_push_size
    have graph : ({ bigger.graph with
        bindings := bigger.graph.bindings.push ⟨id.shift offset, entry.name, pieces⟩ } : PartGraph) =
          PartGraph.rename (NodeId.shift offset)
            { result.graph with bindings := result.graph.bindings.push ⟨id, entry.name, pieces⟩ } := by
      rw [added.graph, PartGraph.rename, PartGraph.rename, Array.map_push]
      rfl
    rw [reconcileBinding_eq _ pushed, reconcileBinding_eq _ biggerPushed]
    dsimp only
    have value := PartGraph.valueOf_rename (NodeId.shift offset)
      { result.graph with bindings := result.graph.bindings.push ⟨id, entry.name, pieces⟩ }
      ⟨id, entry.name, pieces⟩
    rw [← graph] at value
    refine ⟨?_, graph, added.refers.fragment, ?_, added.refers.template⟩
    · exact value ▸ added.document.putAttribute (above id known) entry.name _
    · intro index binding found
      rcases PartGraph.getElem?_push_cases found with older | ⟨_, rfl⟩
      · exact added.refers.element older
      · exact known

theorem addBindings (shifted : scene.Shifted longer base offset allowed)
    (above : ∀ id, allowed id → base ≤ id.index) (known : allowed id) :
    (scene.addBindings id).Shifted (longer.addBindings (id.shift offset)) base offset allowed := by
  rw [Scene.addBindings, Scene.addBindings, shifted.document.content (above id known)]
  generalize (scene.document.content id).attributes = entries
  induction entries generalizing scene longer with
  | nil => exact shifted
  | cons entry rest ih => exact ih (shifted.addBinding above known entry)

theorem isSource_eq (shifted : scene.Shifted longer base offset allowed) (above : base ≤ id.index) :
    longer.isSource config (id.shift offset) = scene.isSource config id := by
  rw [isSource, isSource, shifted.document.content above]

theorem isOwned_eq (shifted : scene.Shifted longer base offset allowed) {ids : List NodeId}
    (above : ∀ id ∈ ids, base ≤ id.index) :
    longer.isOwned config (ids.map (NodeId.shift offset)) = scene.isOwned config ids := by
  have sources : (ids.map (NodeId.shift offset)).filter (longer.isSource config) =
      (ids.filter (scene.isSource config)).map (NodeId.shift offset) := by
    rw [List.filter_map]
    congr 1
    exact List.filter_congr fun id member => shifted.isSource_eq (above id member)
  rw [isOwned, isOwned, sources, List.length_map, List.all_map]
  congr 1
  rw [Bool.eq_iff_iff, List.all_eq_true, List.all_eq_true]
  refine forall₂_congr fun id member => ?_
  rw [Function.comp_apply, shifted.isSource_eq (above id member),
    shifted.document.content (above id member)]

theorem buildBelow (shifted : scene.Shifted longer base offset allowed) {parent : NodeId}
    (above : base ≤ parent.index) {former : List NodeId} (formerAbove : ∀ id ∈ former, base ≤ id.index)
    {fill shiftedFill : Level → Scene → List NodeId × Scene}
    (filled : ∀ (level : Level) (scene longer : Scene), scene.Shifted longer base offset allowed →
      (shiftedFill (level.rename (NodeId.shift offset)) longer).1 =
          (fill level scene).1.map (NodeId.shift offset) ∧
        (fill level scene).2.Shifted (shiftedFill (level.rename (NodeId.shift offset)) longer).2 base
          offset allowed) :
    (Scene.buildBelow config parent former fill scene).Shifted
      (Scene.buildBelow config (parent.shift offset) (former.map (NodeId.shift offset)) shiftedFill
        longer) base offset allowed := by
  obtain ⟨ids, made⟩ := filled ⟨some parent, scene.isOwned config former⟩ scene longer shifted
  rw [Scene.buildBelow, Scene.buildBelow, shifted.isOwned_eq formerAbove]
  have kept : (if scene.isOwned config former then
      ((fill ⟨some parent, scene.isOwned config former⟩ scene).1.map (NodeId.shift offset)).filter
        fun id => !(former.map (NodeId.shift offset)).contains id
      else (fill ⟨some parent, scene.isOwned config former⟩ scene).1.map (NodeId.shift offset)) =
      (if scene.isOwned config former then
        (fill ⟨some parent, scene.isOwned config former⟩ scene).1.filter fun id => !former.contains id
      else (fill ⟨some parent, scene.isOwned config former⟩ scene).1).map (NodeId.shift offset) := by
    split
    · exact filter_contains_map (NodeId.shift_injective offset) _ former
    · rfl
  rw [Level.rename] at ids made
  dsimp only [Option.map_some] at ids made ⊢
  rw [ids, kept]
  exact ⟨made.document.arrange above _, made.graph, made.refers⟩

theorem head?_any (shifted : scene.Shifted longer base offset allowed) {following : List NodeId}
    (above : ∀ id ∈ following, base ≤ id.index) :
    (following.map (NodeId.shift offset)).head?.any (longer.isSource config) =
      following.head?.any (scene.isSource config) := by
  cases following with
  | nil => rfl
  | cons id rest => exact shifted.isSource_eq (above id (List.mem_cons_self ..))

mutual

/-- A node with numbers from the base on becomes the same in the longer document. -/
theorem build (config : Config) (above : ∀ id, allowed id → base ≤ id.index) (level : Level)
    (previous? : Option NodeId) (framed : Bool) (following : List NodeId)
    (followingAbove : ∀ id ∈ following, base ≤ id.index) (scene longer : Scene)
    (shifted : scene.Shifted longer base offset allowed) :
    ∀ tree : Tree NodeId, (∀ id ∈ tree.preorder, allowed id) →
      (Scene.build config (level.rename (NodeId.shift offset)) (previous?.map (NodeId.shift offset))
          framed (following.map (NodeId.shift offset)) longer (tree.map (NodeId.shift offset))).1 =
        (Scene.build config level previous? framed following scene tree).1.map (NodeId.shift offset) ∧
      (Scene.build config level previous? framed following scene tree).2.Shifted
        (Scene.build config (level.rename (NodeId.shift offset)) (previous?.map (NodeId.shift offset))
          framed (following.map (NodeId.shift offset)) longer (tree.map (NodeId.shift offset))).2 base
        offset allowed
  | .node id children, known => by
      rw [Tree.preorder, List.forall_mem_cons] at known
      have formerAbove : ∀ other ∈ children.map Tree.label, base ≤ other.index :=
        fun other member => above other (known.2 other (label_mem_preorderForest member))
      have below (scene longer : Scene) (shifted : scene.Shifted longer base offset allowed) :=
        @buildBelow scene longer base offset allowed config shifted id (above id known.1) _ formerAbove
          (fun level scene => Scene.buildAll config level none false scene children)
          (fun level longer => Scene.buildAll config level none false longer
            (Tree.mapForest (NodeId.shift offset) children))
          fun level scene longer shifted =>
            buildAll config above level none false scene longer shifted children known.2
      rw [Tree.map, Scene.build, Scene.build, Tree.labels_mapForest,
        shifted.document.content (above id known.1)]
      cases config.source? (scene.document.content id) with
      | none => exact ⟨rfl, below _ _ (shifted.addBindings above known.1)⟩
      | some source =>
          dsimp only
          rw [Level.isOuter_rename]
          -- Each step of the longer build is the same step with shifted numbers.
          obtain ⟨leadSame, led⟩ := shifted.addAnchor (level.isOuter && !framed)
          generalize longer.addAnchor (level.isOuter && !framed) = largeLead at leadSame led ⊢
          generalize scene.addAnchor (level.isOuter && !framed) = lead at leadSame led ⊢
          rw [led.head?_any followingAbove]
          obtain ⟨trailSame, trailed⟩ :=
            led.addAnchor (level.isOuter || following.head?.any (lead.2.isSource config))
          generalize largeLead.2.addAnchor (level.isOuter ||
            following.head?.any (lead.2.isSource config)) = largeTrail at trailSame trailed ⊢
          generalize lead.2.addAnchor (level.isOuter ||
            following.head?.any (lead.2.isSource config)) = trail at trailSame trailed ⊢
          have first : (largeLead.1 <|> previous?.map (NodeId.shift offset)) =
              (lead.1 <|> previous?).map (NodeId.shift offset) := by
            rw [leadSame]
            cases lead.1 <;> rfl
          have last : (largeTrail.1 <|> (following.map (NodeId.shift offset)).head?) =
              (trail.1 <|> following.head?).map (NodeId.shift offset) := by
            rw [trailSame, List.head?_map]
            cases trail.1 <;> rfl
          rw [first, last]
          obtain ⟨shownSame, shown⟩ := trailed.addRegion level (lead.1 <|> previous?)
            (trail.1 <|> following.head?) known.1 source
          generalize largeTrail.2.addRegion (level.rename (NodeId.shift offset))
            ((lead.1 <|> previous?).map (NodeId.shift offset))
            ((trail.1 <|> following.head?).map (NodeId.shift offset)) (id.shift offset) source =
              largeRegion at shownSame shown ⊢
          generalize trail.2.addRegion level (lead.1 <|> previous?) (trail.1 <|> following.head?) id
            source = region at shownSame shown ⊢
          refine ⟨?_, ?_⟩
          · rw [leadSame, shownSame, trailSame, List.map_append, List.map_append]
            cases lead.1 <;> cases trail.1 <;> rfl
          · cases source with
            | inline tokens => exact below _ _ shown
            | nested expression directive? => exact shown

theorem buildAll (config : Config) (above : ∀ id, allowed id → base ≤ id.index) (level : Level)
    (previous? : Option NodeId) (framed : Bool) (scene longer : Scene)
    (shifted : scene.Shifted longer base offset allowed) :
    ∀ trees : List (Tree NodeId), (∀ id ∈ Tree.preorderForest trees, allowed id) →
      (Scene.buildAll config (level.rename (NodeId.shift offset)) (previous?.map (NodeId.shift offset))
          framed longer (Tree.mapForest (NodeId.shift offset) trees)).1 =
        (Scene.buildAll config level previous? framed scene trees).1.map (NodeId.shift offset) ∧
      (Scene.buildAll config level previous? framed scene trees).2.Shifted
        (Scene.buildAll config (level.rename (NodeId.shift offset)) (previous?.map (NodeId.shift offset))
          framed longer (Tree.mapForest (NodeId.shift offset) trees)).2 base offset allowed
  | [], _ => by
      rw [Tree.mapForest, Scene.buildAll, Scene.buildAll]
      exact ⟨rfl, shifted⟩
  | tree :: rest, known => by
      rw [Tree.preorderForest, List.forall_mem_append] at known
      have followingAbove : ∀ id ∈ rest.map Tree.label, base ≤ id.index :=
        fun id member => above id (known.2 id (label_mem_preorderForest member))
      have isSource := @isSource_eq scene longer base offset allowed config _ shifted
        (above _ (known.1 _ (Tree.label_mem_preorder tree)))
      obtain ⟨same, made⟩ := build config above level previous? framed (rest.map Tree.label)
        followingAbove scene longer shifted tree known.1
      rw [Tree.mapForest, Scene.buildAll, Scene.buildAll, Tree.label_map, isSource,
        Tree.labels_mapForest]
      dsimp only
      generalize Scene.build config (level.rename (NodeId.shift offset))
        (previous?.map (NodeId.shift offset)) framed ((rest.map Tree.label).map (NodeId.shift offset))
        longer (tree.map (NodeId.shift offset)) = large at same made ⊢
      generalize Scene.build config level previous? framed (rest.map Tree.label) scene tree = small
        at same made ⊢
      obtain ⟨others, later⟩ := buildAll config above level small.1.getLast?
        (scene.isSource config tree.label) small.2 large.2 made rest known.2
      rw [same, List.getLast?_map, others, List.map_append]
      exact ⟨rfl, later⟩

end

end Shifted

theorem Shifted.empty {document longer : Document} {base offset : Nat} {allowed : NodeId → Prop}
    (shifted : document.Shifted longer base offset) {fragment : NodeId} (known : allowed fragment) :
    Shifted ⟨document, .empty fragment⟩ ⟨longer, .empty (fragment.shift offset)⟩ base offset allowed := by
  refine ⟨shifted, ?_, known, ?_, ?_⟩
  · rw [PartGraph.empty, PartGraph.empty, PartGraph.rename, Array.map_empty, Array.map_empty,
      Array.map_empty]
  · intro index binding found
    simp [PartGraph.empty] at found
  · intro index region content nested target
    simp [PartGraph.empty] at target

/-- A template that still holds the same gets the same instance in a document that has grown. -/
theorem shifted_instantiate {document longer : Document} (wellFormed : document.WellFormed)
    {offset : Nat} (size : longer.size = document.size + offset) (config : Config) (template : NodeId)
    (same : longer.forest template = document.forest template) :
    (instantiate document config template).Shifted (instantiate longer config template) document.size
      offset fun id => document.size ≤ id.index ∧
        (document.graft (.node .fragment (document.forest template))).2.Has id := by
  obtain ⟨root, copy, trees, copyEq, copied⟩ := wellFormed.exists_copied template
  have start : document.Shifted longer document.size offset := by
    refine ⟨size, fun id above => ?_⟩
    rw [Document.node_of_not_has (Nat.not_lt.mpr above), Document.node_of_not_has]
    · rfl
    · rw [Document.Has, size, NodeId.shift]
      exact Nat.not_lt.mpr (Nat.add_le_add_right above offset)
  obtain ⟨fragmentSame, grafted⟩ := start.graft (.node .fragment (document.forest template))
  rw [copyEq] at fragmentSame grafted ⊢
  rw [instantiate, instantiate, same, copyEq]
  generalize longer.graft (.node .fragment (document.forest template)) = longerGraft at *
  obtain ⟨_, longerCopy⟩ := longerGraft
  dsimp only at fragmentSame grafted ⊢
  subst fragmentSame
  have known : ∀ id ∈ (Tree.node root trees).preorder, document.size ≤ id.index ∧ copy.Has id :=
    fun id member => ⟨Nat.not_lt.mp (copied.new id member), copied.outlined.has _ id member⟩
  rw [Tree.preorder, List.forall_mem_cons] at known
  have below (id child : NodeId) (above : document.size ≤ id.index) (member : child ∈ copy.children id) :
      document.size ≤ child.index := by
    by_contra childOld
    have linked := (copied.wellFormed.linked id child).mp member
    rw [copied.extended.parent?_eq (Nat.not_le.mp childOld)] at linked
    exact Nat.not_lt.mpr above (wellFormed.has_parent linked)
  rw [grafted.layout copied.wellFormed below known.1.1, copied.layout]
  obtain ⟨ids, made⟩ := Shifted.buildAll config (fun _ allowed => allowed.1) .outer none false _ _
    (Shifted.empty grafted known.1) trees known.2
  rw [Tree.map, Tree.children, Tree.children]
  have outer : Level.outer.rename (NodeId.shift offset) = Level.outer := rfl
  rw [outer, Option.map_none] at ids made
  rw [ids]
  exact ⟨made.document.arrange known.1.1 _, made.graph, made.refers⟩

end Scene

end LiveTemplate
