import LiveTemplate.Proofs.Hosting

/-! Instances side by side in one document: a new one is what it would be in the document that there
was at first, and the steps of the others leave it alone. -/

namespace LiveTemplate.Scene

section
variable {alone shared start : Scene} {rows : List Row} {base : Nat} {image : NodeId → NodeId}
  {host : NodeId}

theorem Hosted.of_tended (hosted : Hosted alone shared start rows base image host)
    {document : Document} (wellFormed : document.WellFormed) {own later : NodeId → Prop} {other : NodeId}
    (tended : document.Tended shared.document own later other)
    (apart : ∀ id, alone.document.Covers base image id → ¬ own id)
    (outside : ¬ alone.document.Covers base image other) (foreign : ¬ own host)
    (shown : host = other → (alone.document.children start.graph.fragment).map image <:+:
      document.children host) :
    Hosted alone { shared with document } start rows base image host :=
  { hosted with
    sound := hosted.sound.of_document wellFormed tended.kinds
    embedded := hosted.embedded.of_tended tended apart outside foreign shown }

theorem Hosted.mounted {board : NodeId} {lead trail : List NodeId}
    (hosted : Hosted alone shared start rows base image (image start.graph.fragment))
    {document : Document} (wellFormed : document.WellFormed)
    (mounted : shared.document.Mounted document (image start.graph.fragment) board lead trail)
    (bound : shared.document.Has board) (uncovered : ¬ alone.document.Covers base image board)
    (beside : ∀ id ∈ shared.document.children board, ¬ alone.document.Covers base image id) :
    Hosted alone { shared with document } start rows base image board := by
  have kept : document.KeepsKinds shared.document :=
    ⟨(mounted.has_iff _).mpr, fun {id} _ => congrArg Content.kind (mounted.content id)⟩
  exact { hosted with
    sound := hosted.sound.of_document wellFormed kept
    embedded := hosted.embedded.mounted mounted bound uncovered beside }

theorem Hosted.fragment_eq (hosted : Hosted alone shared start rows base image host) :
    shared.graph.fragment = image start.graph.fragment := by
  rw [hosted.graph, ← hosted.live.fragment]
  rfl

end

section
variable {document longer : Document} {config : Config} {template id child : NodeId}
  {start shared : Scene} {slots otherSlots : List Slot} {rows otherRows : List Row} {offset : Nat}

theorem Instantiated.made_fragment (built : Instantiated document config template start slots rows) :
    start.document.Made document.size start.graph.fragment :=
  ⟨Nat.not_lt.mp (built.new _ (List.mem_cons_self ..)), built.planned.has _ (List.mem_cons_self ..)⟩

theorem Instantiated.made_child (built : Instantiated document config template start slots rows)
    (wellFormed : document.WellFormed) (above : document.size ≤ id.index)
    (member : child ∈ start.document.children id) : start.document.Made document.size child := by
  -- An old child keeps its parent, which would be old as well.
  refine ⟨Nat.not_lt.mp fun old => ?_, built.live.wellFormed.has_child member⟩
  have linked := (built.live.wellFormed.linked id child).mp member
  rw [built.spares.parent?_eq child old List.not_mem_nil] at linked
  exact Nat.not_lt.mpr above (wellFormed.has_parent linked)

theorem covers_shift (shifted : start.document.Shifted shared.document document.size offset)
    (size : longer.size = document.size + offset) (id : NodeId) :
    start.document.Covers document.size (NodeId.shift offset) id ↔
      ¬ longer.Has id ∧ shared.document.Has id := by
  rw [Document.Has, Document.Has, size, shifted.size]
  constructor
  · rintro ⟨own, ⟨above, has⟩, rfl⟩
    exact ⟨Nat.not_lt.mpr (Nat.add_le_add_right above offset), Nat.add_lt_add_right has offset⟩
  · rintro ⟨above, has⟩
    have split : id.index - offset + offset = id.index := Nat.sub_add_cancel (by omega)
    exact ⟨⟨id.index - offset⟩, ⟨by dsimp only; omega, Nat.lt_of_add_lt_add_right (split ▸ has)⟩,
      congrArg NodeId.mk split⟩

theorem Instantiated.covers_below (built : Instantiated document config template start slots rows)
    (wellFormed : document.WellFormed)
    (shifted : start.document.Shifted shared.document document.size offset)
    (member : id ∈ shared.document.children (start.graph.fragment.shift offset)) :
    start.document.Covers document.size (NodeId.shift offset) id := by
  rw [shifted.children built.made_fragment.1] at member
  obtain ⟨child, inside, rfl⟩ := List.mem_map.mp member
  exact ⟨child, built.made_child wellFormed built.made_fragment.1 inside, rfl⟩

theorem Instantiated.embedded (built : Instantiated document config template start slots rows)
    (wellFormed : document.WellFormed)
    (shifted : start.document.Shifted shared.document document.size offset) :
    start.document.Embedded shared.document document.size (NodeId.shift offset) start.graph.fragment
      (start.graph.fragment.shift offset) := by
  have childrenEq := shifted.children built.made_fragment.1
  exact {
    root := built.made_fragment
    inner := fun _ _ above member => (built.made_child wellFormed above member).1
    injective := fun _ _ _ _ same => NodeId.shift_injective offset same
    has := fun id made => (shifted.has_iff id).mpr made.2
    bound := (shifted.has_iff _).mpr built.made_fragment.2
    content := fun _ made => shifted.content made.1
    children := fun _ made _ => shifted.children made.1
    shown := childrenEq ▸ List.infix_refl _
    only := fun _ member _ => childrenEq ▸ member
    placed := Or.inl ⟨rfl, fun _ member => built.covers_below wellFormed shifted member⟩ }

/-- Making the instance in the longer document leaves all there was as it was. -/
theorem Instantiated.tended (built : Instantiated document config template start slots rows)
    (other : Instantiated longer config template shared otherSlots otherRows)
    (wellFormed : document.WellFormed)
    (shifted : start.document.Shifted shared.document document.size offset)
    (size : longer.size = document.size + offset) (missing : ¬ longer.Has (start.graph.fragment.shift offset)) :
    shared.document.Tended longer (fun _ => False)
      (start.document.Covers document.size (NodeId.shift offset))
      (start.graph.fragment.shift offset) where
  kinds := other.spares.kinds
  owned := fun id => by rw [covers_shift shifted size, false_or]
  content := fun id has _ => other.spares.content_eq id has List.not_mem_nil
  parent? := fun id has _ => other.spares.parent?_eq id has List.not_mem_nil
  children := fun id has _ _ => other.spares.children_eq id has List.not_mem_nil
  kept := by
    intro stays none
    have nothing : longer.children (start.graph.fragment.shift offset) = [] :=
      congrArg Node.children (Document.node_of_not_has missing)
    rw [nothing, List.filter_nil, List.filter_eq_nil_iff]
    intro id member
    simp [none id (built.covers_below wellFormed shifted member)]

end

/-- A new instance in a document that grew since the first one is what it would be in the first. -/
theorem exists_hosted {document longer : Document} (wellFormed : document.WellFormed)
    (longerWellFormed : longer.WellFormed) {offset : Nat} (size : longer.size = document.size + offset)
    (config : Config) (template : NodeId) (same : longer.forest template = document.forest template) :
    let start := instantiate document config template
    let shared := instantiate longer config template
    let host := start.graph.fragment.shift offset
    ∃ rows, Hosted start shared start rows document.size (NodeId.shift offset) host ∧
      shared.document.Tended longer (fun _ => False)
        (start.document.Covers document.size (NodeId.shift offset)) host ∧
      ¬ longer.Has host ∧ shared.document.kind host = .fragment := by
  obtain ⟨slots, rows, built⟩ := exists_instantiated wellFormed config template
  obtain ⟨otherSlots, otherRows, other⟩ := exists_instantiated longerWellFormed config template
  have shifted := shifted_instantiate wellFormed size config template same
  have missing := ((covers_shift shifted.document size _).mp ⟨_, built.made_fragment, rfl⟩).1
  refine ⟨_, ⟨built.live, ?_, ?_, ?_, other.unwritten.toSound, shifted.graph,
    built.embedded wellFormed shifted.document⟩,
    built.tended other wellFormed shifted.document size missing, missing, ?_⟩
  · exact fun row member => Nat.not_lt.mp (built.new row member)
  · intro row member root
    rw [built.planned.row_eq member (List.mem_cons_self ..) root]
  · exact shifted.refers.mono fun id known => ⟨known.1, built.copied.has known.2⟩
  · exact (congrArg Content.kind (shifted.document.content built.made_fragment.1)).trans built.fragment

end LiveTemplate.Scene
