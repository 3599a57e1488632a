import LiveTemplate.Proofs.Registers

/-! Content that a part refuses leaves no trace, and content that it accepts is what it shows from
then on, whatever the document looks like and whether or not the region of the part is found. -/

namespace LiveTemplate

namespace Document

theorem StoresAll.contents_eq {document : Document} : ∀ (first : Nat) (parent? : Option NodeId)
    (trees : List (Tree Content)), document.StoresAll first parent? trees →
      (roots first trees).map document.content = trees.map Tree.label
  | _, _, [], _ => rfl
  | first, parent?, .node content children :: rest, ⟨head, later⟩ => by
      rw [roots, List.map_cons, List.map_cons, Document.content, head.1,
        StoresAll.contents_eq (first + (Tree.node content children).size) parent? rest later]
      rfl

theorem children_graft (document : Document) (trees : List (Tree Content)) :
    let result := (document.graft (.node .fragment trees)).2
    let top := result.children ⟨document.size⟩
    (∀ id ∈ top, ¬ document.Has id ∧ result.Has id) ∧ top.Nodup ∧
      top.map result.content = trees.map Tree.label := by
  intro result top
  obtain ⟨root, below⟩ := stores_graft document (.node .fragment trees)
  have ranged := StoresAll.ranged _ _ trees below
  have size := size_graft document (.node .fragment trees)
  have topEq : top = roots (document.size + 1) trees := congrArg Node.children root
  rw [topEq]
  refine ⟨fun id member => ?_, ranged.unique, StoresAll.contents_eq _ _ trees below⟩
  obtain ⟨lower, upper, _⟩ := ranged.top id member
  rw [Has, Has, size, Tree.size]
  omega

end Document

inductive Realizes (before after : Document) : Item → NodeId → Prop
  | text {data : String} {id : NodeId} : ¬ before.Has id → after.content id = .text data →
      Realizes before after (.text data) id
  | node {id : NodeId} : Realizes before after (.node id) id

namespace Scene

structure ReplacedBy (scene : Scene) (index region : Nat) (nested? : Option Nested)
    (items : List Item) (outcome : Except PartError Unit) (result : Scene) : Prop where
  fails_iff : outcome ≠ .ok () ↔ ∃ id, .node id ∈ items ∧
    (scene.document.kind id = .document ∨ scene.document.kind id = .doctype ∨
      scene.document.kind id = .fragment)
  error_iff : ∀ error, outcome = .error error ↔
    ∃ before id after, items = before ++ .node id :: after ∧
      (∀ other, .node other ∈ before → (scene.document.kind other).isContainer = false) ∧
      (scene.document.kind id).isContainer = true ∧
      error = .contentKind (scene.document.kind id)
  traceless : outcome ≠ .ok () → result = scene
  shown : outcome = .ok () → ∃ nodes,
    result.graph.parts[index]?.map Part.target = some (.nodes region nodes nested?) ∧
      List.Forall₂ (Realizes scene.document result.document) items nodes ∧
      nodes.Pairwise (fun first second => first = second → scene.document.Has first) ∧
      result.document.size = scene.document.size + items.countP fun item => item.node?.isNone

structure ReplacedByMarkup (scene : Scene) (index region : Nat) (nested? : Option Nested)
    (text : String) (outcome : Except PartError Unit) (result : Scene) : Prop where
  fails_iff : outcome ≠ .ok () ↔ Markup.read? text.toList = none
  error_eq : ∀ error, outcome = .error error → error = .markup
  traceless : outcome ≠ .ok () → result = scene
  shown : outcome = .ok () → ∃ trees fragment parsed, Markup.read? text.toList = some trees ∧
    scene.document.read? text = some (fragment, parsed) ∧
      result.graph.parts[index]?.map Part.target =
        some (.nodes region (parsed.children fragment) nested?) ∧
      (∀ id ∈ parsed.children fragment, ¬ scene.document.Has id ∧ result.document.Has id) ∧
      (parsed.children fragment).Nodup ∧
      (parsed.children fragment).map result.document.content = trees.map Tree.label ∧
      (scene.document.WellFormed → (parsed.children fragment).map parsed.tree = trees)

variable {scene : Scene} {index region : Nat} {content : List NodeId} {nested? : Option Nested}
  {items : List Item} {text : String}

/-- A part records its nodes even when its region is not found. -/
theorem target_setContent
    (found : scene.graph.parts[index]?.map Part.target = some (.nodes region content nested?))
    (nodes : List NodeId) :
    (scene.setContent index nodes).graph.parts[index]?.map Part.target =
      some (.nodes region nodes nested?) := by
  rw [setContent_eq found, parts_reconcileRegion]
  exact PartGraph.target_setTarget_self found _

theorem size_setContent
    (found : scene.graph.parts[index]?.map Part.target = some (.nodes region content nested?))
    (nodes : List NodeId) : (scene.setContent index nodes).document.size = scene.document.size := by
  rw [setContent_eq found, size_reconcileRegion]

theorem content_setContent
    (found : scene.graph.parts[index]?.map Part.target = some (.nodes region content nested?))
    (nodes : List NodeId) (id : NodeId) :
    (scene.setContent index nodes).document.content id = scene.document.content id := by
  rw [setContent_eq found, content_reconcileRegion]

theorem refused?_eq_none_iff {document : Document} {item : Item} :
    refused? document item = none ↔
      ∀ id, item = .node id → (document.kind id).isContainer = false := by
  cases item with
  | text data => simp [refused?]
  | node id => simp [refused?]

theorem refused?_eq_some_iff {document : Document} {item : Item} {kind : NodeKind} :
    refused? document item = some kind ↔
      ∃ id, item = .node id ∧ (document.kind id).isContainer = true ∧ kind = document.kind id := by
  cases item with
  | text data => simp [refused?]
  | node id =>
      simp only [refused?, Option.ite_none_right_eq_some, Option.some.injEq, Item.node.injEq]
      constructor
      · rintro ⟨container, rfl⟩
        exact ⟨id, rfl, container, rfl⟩
      · rintro ⟨other, rfl, container, rfl⟩
        exact ⟨container, rfl⟩

theorem isContainer_iff {kind : NodeKind} :
    kind.isContainer = true ↔ kind = .document ∨ kind = .doctype ∨ kind = .fragment := by
  cases kind <;> simp [NodeKind.isContainer]

theorem forall₂_realizeAll (scene : Scene) (items : List Item) :
    List.Forall₂ (Realizes scene.document (scene.realizeAll items).2.document) items
      (scene.realizeAll items).1 := by
  induction items generalizing scene with
  | nil => exact .nil
  | cons item rest ih =>
      cases item with
      | text data =>
          have extended := Document.extends_create scene.document (.text data)
          have later := extends_realizeAll (scene.addNode (.text data)).2 rest
          have held : (scene.document.create (.text data)).2.content
              (scene.document.create (.text data)).1 = .text data := by
            rw [Document.content_create, if_pos rfl]
          refine .cons (.text (not_has_create scene.document (.text data)) ?_) ((ih _).imp ?_)
          · exact (later.content_eq (has_create _ _)).trans held
          · intro item id shown
            cases shown with
            | text new held => exact .text (mt extended.has new) held
            | node => exact .node
      | node id => exact .cons .node (ih scene)

theorem pairwise_realizeAll {scene : Scene} {items : List Item}
    (bound : ∀ id, .node id ∈ items → scene.document.Has id) :
    (scene.realizeAll items).1.Pairwise fun first second =>
      first = second → scene.document.Has first := by
  induction items generalizing scene with
  | nil => exact .nil
  | cons item rest ih =>
      have restBound : ∀ id, .node id ∈ rest → scene.document.Has id :=
        fun id member => bound id (List.mem_cons_of_mem _ member)
      cases item with
      | text data =>
          have extended := Document.extends_create scene.document (.text data)
          have later := @ih (scene.addNode (.text data)).2
            fun id member => extended.has (restBound id member)
          refine .cons ?_ (later.imp_of_mem ?_)
          · rintro id member rfl
            rcases mem_realizeAll member with given | ⟨new, _⟩
            · exact restBound _ given
            · exact absurd (has_create _ _) new
          · rintro id _ member _ has rfl
            rcases mem_realizeAll member with given | ⟨new, _⟩
            · exact restBound _ given
            · exact absurd (has rfl) new
      | node id => exact .cons (fun _ _ _ => bound id List.mem_cons_self) (ih restBound)

theorem size_realizeAll (scene : Scene) (items : List Item) :
    (scene.realizeAll items).2.document.size =
      scene.document.size + items.countP fun item => item.node?.isNone := by
  induction items generalizing scene with
  | nil => rfl
  | cons item rest ih =>
      cases item with
      | text data =>
          have created : (scene.document.create (.text data)).2.size = scene.document.size + 1 :=
            Array.size_push _
          refine (ih (scene.addNode (.text data)).2).trans ?_
          rw [addNode, created, List.countP_cons_of_pos rfl]
          omega
      | node id =>
          rw [List.countP_cons_of_neg Bool.false_ne_true]
          exact ih scene

theorem refused_iff (document : Document) (items : List Item) :
    items.findSome? (refused? document) ≠ none ↔ ∃ id, .node id ∈ items ∧
      (document.kind id = .document ∨ document.kind id = .doctype ∨
        document.kind id = .fragment) := by
  simp only [ne_eq, List.findSome?_eq_none_iff, refused?_eq_none_iff, ← isContainer_iff]
  constructor
  · intro refused
    by_contra accepted
    refine refused fun item member id same => ?_
    rw [← Bool.not_eq_true]
    exact fun container => accepted ⟨id, same ▸ member, container⟩
  · rintro ⟨id, member, container⟩ accepted
    rw [accepted _ member id rfl] at container
    cases container

theorem first_refused_iff (document : Document) (items : List Item) (kind : NodeKind) :
    items.findSome? (refused? document) = some kind ↔
      ∃ before id after, items = before ++ .node id :: after ∧
        (∀ other, .node other ∈ before → (document.kind other).isContainer = false) ∧
        (document.kind id).isContainer = true ∧ kind = document.kind id := by
  rw [List.findSome?_eq_some_iff]
  constructor
  · rintro ⟨before, item, after, split, refused, earlier⟩
    obtain ⟨id, rfl, container, same⟩ := refused?_eq_some_iff.mp refused
    refine ⟨before, id, after, split, fun other member => ?_, container, same⟩
    exact refused?_eq_none_iff.mp (earlier _ member) other rfl
  · rintro ⟨before, id, after, split, earlier, container, same⟩
    refine ⟨before, .node id, after, split, refused?_eq_some_iff.mpr ⟨id, rfl, container, same⟩, ?_⟩
    intro item member
    exact refused?_eq_none_iff.mpr fun other same => earlier other (same ▸ member)

theorem replacedBy_of_refused {kind : NodeKind}
    (refusal : items.findSome? (refused? scene.document) = some kind) :
    scene.ReplacedBy index region nested? items (.error (.contentKind kind)) scene where
  fails_iff := by
    refine iff_of_true (by simp) ((refused_iff scene.document items).mp ?_)
    rw [refusal]
    exact Option.some_ne_none kind
  error_iff := by
    intro error
    rw [Except.error.injEq]
    constructor
    · rintro rfl
      obtain ⟨before, id, after, split, earlier, container, rfl⟩ :=
        (first_refused_iff _ items kind).mp refusal
      exact ⟨before, id, after, split, earlier, container, rfl⟩
    · rintro ⟨before, id, after, split, earlier, container, rfl⟩
      have first := (first_refused_iff _ items _).mpr
        ⟨before, id, after, split, earlier, container, rfl⟩
      rw [refusal, Option.some.injEq] at first
      rw [first]
  traceless := fun _ => rfl
  shown := fun accepted => by cases accepted

theorem replacedBy_of_accepted
    (found : scene.graph.parts[index]?.map Part.target = some (.nodes region content nested?))
    (accepted : items.findSome? (refused? scene.document) = none) :
    scene.ReplacedBy index region nested? items (.ok ())
      ((scene.realizeAll items).2.setContent index (scene.realizeAll items).1) where
  fails_iff := by
    refine iff_of_false (by simp) fun refused => ?_
    exact (refused_iff scene.document items).mpr refused accepted
  error_iff := by
    intro error
    refine iff_of_false (by simp) ?_
    rintro ⟨before, id, after, split, earlier, container, _⟩
    have first := (first_refused_iff _ items _).mpr
      ⟨before, id, after, split, earlier, container, rfl⟩
    rw [accepted] at first
    cases first
  traceless := fun refused => absurd rfl refused
  shown := by
    intro _
    have target : (scene.realizeAll items).2.graph.parts[index]?.map Part.target =
        some (.nodes region content nested?) := by rw [graph_realizeAll, found]
    have bound : ∀ id, .node id ∈ items → scene.document.Has id := by
      intro id member
      apply Document.has_of_kind
      intro isFragment
      have plain := refused?_eq_none_iff.mp (List.findSome?_eq_none_iff.mp accepted _ member) id rfl
      rw [isFragment] at plain
      cases plain
    refine ⟨_, target_setContent target _, (forall₂_realizeAll scene items).imp ?_,
      pairwise_realizeAll bound, (size_setContent target _).trans (size_realizeAll scene items)⟩
    intro item id realized
    cases realized with
    | text new held => exact .text new ((content_setContent target _ _).trans held)
    | node => exact .node

theorem replacedBy_replace
    (found : scene.graph.parts[index]?.map Part.target = some (.nodes region content nested?))
    (items : List Item) :
    scene.ReplacedBy index region nested? items (scene.replace index items).1
      (scene.replace index items).2 := by
  rw [replace]
  split
  · rename_i kind refusal
    exact replacedBy_of_refused refusal
  · rename_i accepted
    exact replacedBy_of_accepted found accepted

theorem replacedByMarkup_of_rejected (rejected : Markup.read? text.toList = none) :
    scene.ReplacedByMarkup index region nested? text (.error .markup) scene where
  fails_iff := iff_of_true (by simp) rejected
  error_eq := by
    rintro error ⟨⟩
    rfl
  traceless := fun _ => rfl
  shown := fun accepted => by cases accepted

theorem replacedByMarkup_of_read
    (found : scene.graph.parts[index]?.map Part.target = some (.nodes region content nested?))
    {fragment : NodeId} {parsed : Document}
    (read : scene.document.read? text = some (fragment, parsed)) :
    scene.ReplacedByMarkup index region nested? text (.ok ())
      ({ scene with document := parsed }.setContent index (parsed.children fragment)) := by
  obtain ⟨trees, treesRead, rfl, rfl⟩ := Prepares.exists_graft read
  obtain ⟨new, unique, contents⟩ := Document.children_graft scene.document trees
  have plantable := Markup.plantable_read treesRead
  have whole (wellFormed : scene.document.WellFormed) :=
    Document.tree_graft wellFormed plantable
  have formed (wellFormed : scene.document.WellFormed) :=
    Document.wellFormed_graft wellFormed plantable
  generalize (scene.document.graft (.node .fragment trees)).2 = parsed at *
  have target : (⟨parsed, scene.graph⟩ : Scene).graph.parts[index]?.map Part.target =
      some (.nodes region content nested?) := found
  refine ⟨iff_of_false (by simp) (by simp [treesRead]), by simp, fun refused => absurd rfl refused,
    fun _ => ⟨trees, _, parsed, treesRead, read, target_setContent target _, ?_, unique, ?_, ?_⟩⟩
  · intro id member
    refine ⟨(new id member).1, ?_⟩
    rw [Document.Has, size_setContent target]
    exact (new id member).2
  · rw [← contents]
    exact List.map_congr_left fun id _ => content_setContent target _ id
  · intro wellFormed
    rw [← (formed wellFormed).forest_eq]
    exact congrArg Tree.children (whole wellFormed)

theorem replacedByMarkup_replaceMarkup
    (found : scene.graph.parts[index]?.map Part.target = some (.nodes region content nested?))
    (text : String) :
    scene.ReplacedByMarkup index region nested? text (scene.replaceMarkup index text).1
      (scene.replaceMarkup index text).2 := by
  rw [replaceMarkup]
  split
  · rename_i rejected
    exact replacedByMarkup_of_rejected (Option.map_eq_none_iff.mp rejected)
  · rename_i fragment parsed read
    exact replacedByMarkup_of_read found read

/-- Whether content is refused is settled before anything changes. Accepted content is recorded in
the part, in order, even when its region is not found. -/
theorem traceless_of_refused
    (found : scene.graph.parts[index]?.map Part.target = some (.nodes region content nested?)) :
    (∀ items, scene.ReplacedBy index region nested? items (scene.replace index items).1
      (scene.replace index items).2) ∧
    ∀ text, scene.ReplacedByMarkup index region nested? text (scene.replaceMarkup index text).1
      (scene.replaceMarkup index text).2 :=
  ⟨replacedBy_replace found, replacedByMarkup_replaceMarkup found⟩

def looseScene : Scene where
  document := (Document.new.create (.text "a")).2
  graph :=
    { fragment := ⟨0⟩
      parts := #[⟨"x", .nodes 0 [] none⟩]
      bindings := #[]
      regions := #[⟨some ⟨0⟩, some ⟨1⟩, none, false, [.part 0], [], true⟩] }

theorem traceless_of_refused_loose :
    (∀ items, looseScene.ReplacedBy 0 0 none items (looseScene.replace 0 items).1
        (looseScene.replace 0 items).2) ∧
      (∀ text, looseScene.ReplacedByMarkup 0 0 none text (looseScene.replaceMarkup 0 text).1
        (looseScene.replaceMarkup 0 text).2) ∧
      (looseScene.replace 0 [.text "b", .node ⟨0⟩]).1 = .error (.contentKind .document) ∧
      (looseScene.replace 0 [.text "b", .node ⟨1⟩, .text "b"]).2.graph.contentOf 0 =
        [⟨2⟩, ⟨1⟩, ⟨3⟩] ∧
      (looseScene.replaceMarkup 0 "<b>").1 = .error .markup ∧
      (looseScene.replaceMarkup 0 "<b>c</b>d").2.graph.contentOf 0 = [⟨3⟩, ⟨5⟩] := by
  have known : looseScene.graph.parts[0]?.map Part.target = some (.nodes 0 [] none) := rfl
  obtain ⟨byItems, byMarkup⟩ := traceless_of_refused known
  exact ⟨byItems, byMarkup, by rfl, by decide +kernel, by rfl, by decide +kernel⟩

end Scene

end LiveTemplate
