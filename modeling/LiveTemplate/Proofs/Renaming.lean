import LiveTemplate.Proofs.Seats

/-! Other numbers for the nodes of an instance: its parts, bindings and regions read the same once
every number is replaced by its image, and so do the blueprints of its content. -/

namespace LiveTemplate

def Node.rename (image : NodeId → NodeId) (node : Node) : Node :=
  ⟨node.content, node.parent?.map image, node.children.map image⟩

theorem Node.rename_id (node : Node) : node.rename id = node := by
  rw [rename, Option.map_id, List.map_id]
  rfl

def Piece.rename (image : NodeId → NodeId) : Piece NodeId → Piece NodeId
  | literal id => literal (image id)
  | part index => part index

def Nested.rename (image : NodeId → NodeId) (nested : Nested) : Nested :=
  { nested with template := image nested.template }

def Target.rename (image : NodeId → NodeId) : Target → Target
  | .attribute binding value? => .attribute binding value?
  | .nodes region content nested? =>
    .nodes region (content.map image) (nested?.map (Nested.rename image))

def Part.rename (image : NodeId → NodeId) (part : Part) : Part :=
  { part with target := part.target.rename image }

def Binding.rename (image : NodeId → NodeId) (binding : Binding) : Binding :=
  { binding with element := image binding.element }

def Region.rename (image : NodeId → NodeId) (region : Region) : Region :=
  { region with
    parent? := region.parent?.map image
    previous? := region.previous?.map image
    next? := region.next?.map image
    group := region.group.map (Piece.rename image)
    rendered := region.rendered.map image }

def Slot.rename (image : NodeId → NodeId) : Slot → Slot
  | node id content => node (image id) content
  | region index source => region index source

def Row.rename (image : NodeId → NodeId) (row : Row) : Row :=
  ⟨image row.home, row.parent?.map image, row.slots.map (Slot.rename image)⟩

variable {image other : NodeId → NodeId}

namespace PartGraph

def rename (image : NodeId → NodeId) (graph : PartGraph) : PartGraph where
  fragment := image graph.fragment
  parts := graph.parts.map (Part.rename image)
  bindings := graph.bindings.map (Binding.rename image)
  regions := graph.regions.map (Region.rename image)

structure Refers (graph : PartGraph) (allowed : NodeId → Prop) : Prop where
  fragment : allowed graph.fragment
  element : ∀ {index : Nat} {binding : Binding}, graph.bindings[index]? = some binding →
    allowed binding.element
  template : ∀ {index region : Nat} {content : List NodeId} {nested : Nested},
    graph.parts[index]?.map Part.target = some (.nodes region content (some nested)) →
      allowed nested.template

theorem Refers.mono {graph : PartGraph} {allowed wider : NodeId → Prop} (refers : graph.Refers allowed)
    (subset : ∀ id, allowed id → wider id) : graph.Refers wider :=
  ⟨subset _ refers.fragment, fun found => subset _ (refers.element found),
    fun target => subset _ (refers.template target)⟩

theorem Refers.setRegion {graph : PartGraph} {allowed : NodeId → Prop} (refers : graph.Refers allowed)
    (index : Nat) (region : Region) : (graph.setRegion index region).Refers allowed :=
  ⟨refers.fragment, refers.element, refers.template⟩

theorem Refers.setTarget {graph : PartGraph} {allowed : NodeId → Prop} (refers : graph.Refers allowed)
    (index : Nat) (next : Target) (known : ∀ region content nested,
      next = .nodes region content (some nested) → allowed nested.template) :
    (graph.setTarget index next).Refers allowed := by
  refine ⟨refers.fragment, refers.element, fun target => ?_⟩
  rcases PartGraph.target_of_setTarget target with ⟨_, same⟩ | ⟨_, older⟩
  · exact known _ _ _ same.symm
  · exact refers.template older

section
variable (image : NodeId → NodeId) (graph : PartGraph)

theorem parts_rename (index : Nat) :
    (graph.rename image).parts[index]? = graph.parts[index]?.map (Part.rename image) :=
  Array.getElem?_map

theorem bindings_rename (index : Nat) :
    (graph.rename image).bindings[index]? = graph.bindings[index]?.map (Binding.rename image) :=
  Array.getElem?_map

theorem regions_rename (index : Nat) :
    (graph.rename image).regions[index]? = graph.regions[index]?.map (Region.rename image) :=
  Array.getElem?_map

theorem target_rename (index : Nat) : (graph.rename image).parts[index]?.map Part.target =
    (graph.parts[index]?.map Part.target).map (Target.rename image) := by
  rw [parts_rename, Option.map_map, Option.map_map]
  rfl

theorem contentOf_rename (index : Nat) :
    (graph.rename image).contentOf index = (graph.contentOf index).map image := by
  rw [contentOf_eq, contentOf_eq, target_rename]
  rcases graph.parts[index]?.map Part.target with _ | ⟨binding, value?⟩ | ⟨region, content, nested?⟩ <;>
    rfl

theorem pieceNodes_rename (piece : Piece NodeId) :
    (graph.rename image).pieceNodes (piece.rename image) = (graph.pieceNodes piece).map image := by
  cases piece with
  | literal id => rfl
  | part index => exact contentOf_rename image graph index

theorem flatMap_rename (group : List (Piece NodeId)) :
    (group.map (Piece.rename image)).flatMap (graph.rename image).pieceNodes =
      (group.flatMap graph.pieceNodes).map image := by
  rw [List.flatMap_map, List.map_flatMap]
  exact List.flatMap_congr fun piece _ => pieceNodes_rename image graph piece

theorem nodesOf_rename (region : Region) :
    (graph.rename image).nodesOf (region.rename image) = (graph.nodesOf region).map image :=
  flatMap_rename image graph region.group

theorem pieceText_rename (piece : Piece String) :
    (graph.rename image).pieceText piece = graph.pieceText piece := by
  cases piece with
  | literal text => rfl
  | part index =>
      rw [pieceText, pieceText, parts_rename]
      rcases graph.parts[index]? with _ | ⟨expression, _ | _⟩ <;> rfl

theorem value?_rename (index : Nat) : (graph.rename image).parts[index]?.bind Part.value? =
    graph.parts[index]?.bind Part.value? := by
  rw [parts_rename]
  rcases graph.parts[index]? with _ | ⟨expression, _ | _⟩ <;> rfl

theorem valueOf_rename (binding : Binding) :
    (graph.rename image).valueOf (binding.rename image) = graph.valueOf binding := by
  have texts : (graph.rename image).pieceText = graph.pieceText :=
    funext (pieceText_rename image graph)
  have parts : (fun index : Nat => (graph.rename image).parts[index]?.bind Part.value?) =
      fun index => graph.parts[index]?.bind Part.value? := funext (value?_rename image graph)
  rw [valueOf, valueOf, textOf, textOf, texts]
  simp only [value?_rename]
  rfl

theorem setTarget_rename (index : Nat) (target : Target) :
    (graph.rename image).setTarget index (target.rename image) =
      (graph.setTarget index target).rename image := by
  have parts : (graph.parts.map (Part.rename image)).modify index
        (fun part => { part with target := target.rename image }) =
      (graph.parts.modify index fun part => { part with target }).map (Part.rename image) := by
    apply Array.ext_getElem?
    intro other
    rw [Array.getElem?_modify, Array.getElem?_map, Array.getElem?_map, Array.getElem?_modify]
    split
    · rw [Option.map_map, Option.map_map]
      rfl
    · rfl
  rw [setTarget, setTarget, rename, parts]
  rfl

theorem setRegion_rename (index : Nat) (region : Region) :
    (graph.rename image).setRegion index (region.rename image) =
      (graph.setRegion index region).rename image := by
  rw [setRegion, setRegion, rename, ← Array.map_setIfInBounds]
  rfl

end

theorem rename_id (graph : PartGraph) : graph.rename id = graph := by
  have piece : Piece.rename id = id := by
    funext piece
    cases piece <;> rfl
  have part : Part.rename id = id := by
    funext ⟨expression, target⟩
    rcases target with ⟨binding, value?⟩ | ⟨region, content, nested?⟩
    · rfl
    · have nested : Nested.rename id = id := rfl
      rw [Part.rename, Target.rename, nested, List.map_id, Option.map_id]
      rfl
  have binding : Binding.rename id = id := rfl
  have region : Region.rename id = id := by
    funext region
    rw [Region.rename, piece, Option.map_id, List.map_id, List.map_id]
    rfl
  rw [rename, part, binding, region, Array.map_id, Array.map_id, Array.map_id]
  rfl

end PartGraph

section
variable {allowed : NodeId → Prop} (agree : ∀ id, allowed id → image id = other id)

include agree

theorem Piece.rename_congr {piece : Piece NodeId} (known : ∀ id, piece = .literal id → allowed id) :
    piece.rename image = piece.rename other := by
  cases piece with
  | literal id => exact congrArg literal (agree id (known id rfl))
  | part index => rfl

theorem Target.rename_congr {target : Target} (content : ∀ id ∈ target.content, allowed id)
    (template : ∀ {region : Nat} {content : List NodeId} {nested : Nested},
      target = .nodes region content (some nested) → allowed nested.template) :
    target.rename image = target.rename other := by
  rcases target with _ | ⟨region, shown, nested?⟩
  · rfl
  · have renamed : shown.map image = shown.map other :=
      List.map_congr_left fun id member => agree id (content id member)
    have nested : nested?.map (Nested.rename image) = nested?.map (Nested.rename other) := by
      refine Option.map_congr fun nested member => ?_
      rw [Nested.rename, Nested.rename, agree _ (template (congrArg _ member))]
    rw [rename, rename, renamed, nested]

end

namespace Scene

variable {scene : Scene}

theorem Sound.has_of_contentOf (sound : scene.Sound) {index : Nat} {id : NodeId}
    (member : id ∈ scene.graph.contentOf index) : scene.document.Has id := by
  rw [PartGraph.contentOf_eq] at member
  cases target : scene.graph.parts[index]?.map Part.target with
  | none =>
      rw [target] at member
      cases member
  | some known =>
      rw [target] at member
      rcases known with _ | ⟨number, content, nested?⟩
      · cases member
      · obtain ⟨region, found, _⟩ := sound.linked.part target
        obtain ⟨before, after, shown, _⟩ := sound.linked.exists_split target found
        refine sound.has_of_shown found id ?_
        rw [shown]
        exact List.mem_append_left _ (List.mem_append_right _ member)

theorem Sound.rename_congr (sound : scene.Sound) (refers : scene.graph.Refers scene.document.Has)
    (agree : ∀ id, scene.document.Has id → image id = other id) :
    scene.graph.rename image = scene.graph.rename other := by
  -- Whatever part, binding or region is looked up, the nodes that it names are nodes of the document.
  have parts : scene.graph.parts.map (Part.rename image) = scene.graph.parts.map (Part.rename other) := by
    refine Array.map_congr_left fun part member => ?_
    obtain ⟨index, found⟩ := Array.mem_iff_getElem?.mp member
    have target : scene.graph.parts[index]?.map Part.target = some part.target := by
      rw [found, Option.map_some]
    have same : part.target.rename image = part.target.rename other := by
      refine Target.rename_congr agree (fun id member => ?_) fun same => ?_
      · have content : id ∈ scene.graph.contentOf index := by
          rw [PartGraph.contentOf_of_target target]
          exact member
        exact sound.has_of_contentOf content
      · exact refers.template (target.trans (congrArg some same))
    rw [Part.rename, Part.rename, same]
  have bindings : scene.graph.bindings.map (Binding.rename image) =
      scene.graph.bindings.map (Binding.rename other) := by
    refine Array.map_congr_left fun binding member => ?_
    obtain ⟨index, found⟩ := Array.mem_iff_getElem?.mp member
    rw [Binding.rename, Binding.rename, agree _ (refers.element found)]
  have regions : scene.graph.regions.map (Region.rename image) =
      scene.graph.regions.map (Region.rename other) := by
    refine Array.map_congr_left fun region member => ?_
    obtain ⟨index, found⟩ := Array.mem_iff_getElem?.mp member
    have known := sound.known found
    have group : region.group.map (Piece.rename image) = region.group.map (Piece.rename other) := by
      refine List.map_congr_left fun piece member => Piece.rename_congr agree ?_
      rintro id rfl
      exact sound.has_of_shown found id (PartGraph.mem_nodesOf.mpr (Or.inl member))
    have anchor {id? : Option NodeId} (bound : ∀ id, id? = some id → scene.document.Has id) :
        id?.map image = id?.map other := Option.map_congr fun id member => agree id (bound id member)
    have rendered : region.rendered.map image = region.rendered.map other :=
      List.map_congr_left fun id member => agree id (known.rendered id member)
    rw [Region.rename, Region.rename, group, anchor known.parent, anchor known.previous,
      anchor known.next, rendered]
  rw [PartGraph.rename, PartGraph.rename, parts, bindings, regions, agree _ refers.fragment]

end Scene

/-! Renamed blueprints. -/

namespace Slot

theorem regions_rename (slot : Slot) : (slot.rename image).regions = slot.regions := by
  cases slot <;> rfl

theorem flatMap_regions_rename (slots : List Slot) :
    (slots.map (rename image)).flatMap regions = slots.flatMap regions := by
  rw [List.flatMap_map]
  exact List.flatMap_congr fun slot _ => regions_rename slot

theorem Holds.rename {slot? : Option Slot} {anchor? : Option NodeId} (holds : Holds slot? anchor?) :
    Holds (slot?.map (Slot.rename image)) (anchor?.map image) := by
  rcases slot? with _ | ⟨id, content⟩ | _
  · cases anchor? with
    | none => trivial
    | some anchor => exact holds.elim
  · rw [holds.eq_some]
    rfl
  · exact holds.elim

end Slot

theorem Region.Fits.rename {region : Region} {parent? : Option NodeId} {left? right? : Option Slot}
    (fits : region.Fits parent? left? right?) :
    (region.rename image).Fits (parent?.map image) (left?.map (Slot.rename image))
      (right?.map (Slot.rename image)) where
  parent := congrArg (Option.map image) fits.parent
  alone := by
    intro owning
    obtain ⟨parent, rfl, rfl⟩ := fits.alone owning
    exact ⟨by rwa [Option.isSome_map], rfl, rfl⟩
  previous := fun shared => (fits.previous shared).rename
  next := fun shared => (fits.next shared).rename
  outer := by
    intro free
    obtain ⟨⟨left, rfl⟩, right, rfl⟩ := fits.outer (Option.map_eq_none_iff.mp free)
    exact ⟨⟨image left, rfl⟩, image right, rfl⟩

namespace PartGraph

variable {graph : PartGraph}

theorem slotNodes_rename (graph : PartGraph) (slot : Slot) :
    (graph.rename image).slotNodes (slot.rename image) = (graph.slotNodes slot).map image := by
  cases slot with
  | node id content => rfl
  | region index source =>
      rw [Slot.rename, slotNodes, slotNodes, regions_rename]
      cases graph.regions[index]? with
      | none => rfl
      | some region => exact nodesOf_rename image graph region

theorem expand_rename (graph : PartGraph) (slots : List Slot) :
    (graph.rename image).expand (slots.map (Slot.rename image)) = (graph.expand slots).map image := by
  rw [expand, expand, List.flatMap_map, List.map_flatMap]
  exact List.flatMap_congr fun slot _ => slotNodes_rename graph slot

theorem Framed.rename {parent? : Option NodeId} {left? right? : Option Slot} {slots : List Slot}
    (framed : graph.Framed parent? right? left? slots) :
    (graph.rename image).Framed (parent?.map image) (right?.map (Slot.rename image))
      (left?.map (Slot.rename image)) (slots.map (Slot.rename image)) := by
  induction slots generalizing left? with
  | nil => trivial
  | cons slot rest ih =>
      refine ⟨fun index source same => ?_, ih framed.2⟩
      rcases slot with ⟨id, content⟩ | ⟨number, known⟩
      · cases same
      · cases same
        obtain ⟨region, found, fits⟩ := framed.1 index source rfl
        refine ⟨region.rename image, by rw [regions_rename, found, Option.map_some], ?_⟩
        have renamed := @Region.Fits.rename image _ _ _ _ fits
        rwa [List.head?_map, ← Option.map_or]

end PartGraph

namespace Scene

/-- A renamed scene follows the renamed blueprint, in whatever document has its rows. -/
theorem Planned.rename {scene : Scene} {rows : List Row} (planned : scene.Planned rows)
    {document : Document} (children : ∀ row ∈ rows,
      document.children (image row.home) = (scene.document.children row.home).map image)
    (has : ∀ row ∈ rows, document.Has (image row.home))
    (injective : ∀ row ∈ rows, ∀ other ∈ rows, image row.home = image other.home →
      row.home = other.home) :
    Planned ⟨document, scene.graph.rename image⟩ (rows.map (Row.rename image)) where
  laid := by
    refine List.forall_mem_map.mpr fun row member => ?_
    rw [Row.rename, PartGraph.expand_rename, ← planned.laid row member]
    exact children row member
  framed := List.forall_mem_map.mpr fun row member => (planned.framed row member).rename
  homes := by
    have homes : (rows.map (Row.rename image)).map Row.home = (rows.map Row.home).map image := by
      rw [List.map_map, List.map_map]
      rfl
    rw [homes]
    refine List.Nodup.map_on ?_ planned.homes
    intro first firstMember second secondMember same
    obtain ⟨row, member, rfl⟩ := List.mem_map.mp firstMember
    obtain ⟨other, otherMember, rfl⟩ := List.mem_map.mp secondMember
    exact injective row member other otherMember same
  has := List.forall_mem_map.mpr has
  recorded := by
    refine List.forall_mem_map.mpr fun row member => ?_
    refine (planned.recorded row member).imp (congrArg (Option.map image)) ?_
    exact fun outer => ⟨congrArg (Option.map image) outer.1, congrArg image outer.2⟩
  counts := by
    have regions : (rows.map (Row.rename image)).flatMap Row.regions = rows.flatMap Row.regions := by
      rw [List.flatMap_map]
      exact List.flatMap_congr fun row _ => Slot.flatMap_regions_rename row.slots
    rw [regions, PartGraph.rename, Array.size_map]
    exact planned.counts

end Scene

end LiveTemplate
