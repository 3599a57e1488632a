import LiveTemplate.Proofs.Attributes
import LiveTemplate.Template.Write

/-! Writes to parts. A write to a part that shows nodes prepares the nodes and then reconciles the
part's region; any other write leaves the links between nodes alone. -/

namespace LiveTemplate

inductive Write where
  | value (value? : Option String)
  | boolean (present : Bool)
  | items (items : List Item)
  | markup (text : String)

def Item.node? : Item → Option NodeId
  | .text _ => none
  | .node id => some id

def Write.nodes : Write → List NodeId
  | .items given => given.filterMap Item.node?
  | _ => []

namespace Scene

def write (scene : Scene) (index : Nat) : Write → Except PartError Unit × Scene
  | .value value? => (.ok (), scene.setValue index value?)
  | .boolean present => scene.setBoolean index present
  | .items items => scene.replace index items
  | .markup text => scene.replaceMarkup index text

def isLive (scene : Scene) (region : Nat) : Bool :=
  (scene.graph.regions[region]?.map (·.isLive scene.document)).getD false

/-- What an accepted write makes of the document, and the nodes that it gives to a part of the region
that shows the given content. -/
inductive Prepares (scene : Scene) (region : Nat) (content : List NodeId) :
    Write → Document → List NodeId → Prop
  | overwrite {only : NodeId} {value? : Option String} : content = [only] →
      scene.document.kind only = .text → scene.isLive region = true →
      Prepares scene region content (.value value?)
        (scene.document.setData only (value?.getD "")) [only]
  | text {value? : Option String} :
      (∀ only, content = [only] → scene.document.kind only = .text → scene.isLive region = false) →
      Prepares scene region content (.value value?)
        (scene.document.create (.text (value?.getD ""))).2
        [(scene.document.create (.text (value?.getD ""))).1]
  | items {items : List Item} : (∀ item ∈ items, refused? scene.document item = none) →
      Prepares scene region content (.items items)
        (scene.realizeAll items).2.document (scene.realizeAll items).1
  | markup {text : String} {fragment : NodeId} {document : Document} :
      scene.document.read? text = some (fragment, document) →
      Prepares scene region content (.markup text) document (document.children fragment)

structure Quiet (result scene : Scene) : Prop where
  wellFormed : scene.document.WellFormed → result.document.WellFormed
  links : result.document.KeepsLinks scene.document
  kinds : result.document.KeepsKinds scene.document
  texts : ∀ {id text}, scene.document.content id = .text text →
    result.document.content id = .text text
  shape : result.graph.SameShape scene.graph
  regions : result.graph.regions = scene.graph.regions
  content : ∀ part, result.graph.contentOf part = scene.graph.contentOf part
  fragment : result.graph.fragment = scene.graph.fragment

theorem Quiet.refl (scene : Scene) : scene.Quiet scene where
  wellFormed := fun wellFormed => wellFormed
  links := (Document.Extends.refl _).keepsLinks
  kinds := Document.KeepsKinds.refl _
  texts := fun same => same
  shape := ⟨fun _ => rfl, fun _ _ => Iff.rfl⟩
  regions := rfl
  content := fun _ => rfl
  fragment := rfl

theorem Quiet.of_extends {scene : Scene} {document : Document}
    (wellFormed : scene.document.WellFormed → document.WellFormed)
    (extended : document.Extends scene.document) : Quiet { scene with document } scene where
  wellFormed := wellFormed
  links := extended.keepsLinks
  kinds := extended.keepsKinds
  texts := fun same => (extended.content_eq (Document.has_of_text same)).trans same
  shape := ⟨fun _ => rfl, fun _ _ => Iff.rfl⟩
  regions := rfl
  content := fun _ => rfl
  fragment := rfl

/-! Making the nodes of items. -/

theorem graph_realizeAll (scene : Scene) (items : List Item) :
    (scene.realizeAll items).2.graph = scene.graph := by
  induction items generalizing scene with
  | nil => rfl
  | cons item rest ih =>
      cases item with
      | text data => exact ih _
      | node id => exact ih _

theorem extends_realizeAll (scene : Scene) (items : List Item) :
    (scene.realizeAll items).2.document.Extends scene.document := by
  induction items generalizing scene with
  | nil => exact Document.Extends.refl _
  | cons item rest ih =>
      cases item with
      | text data => exact (ih _).trans (Document.extends_create _ _)
      | node id => exact ih _

theorem wellFormed_realizeAll {scene : Scene} (wellFormed : scene.document.WellFormed)
    (items : List Item) : (scene.realizeAll items).2.document.WellFormed := by
  induction items generalizing scene with
  | nil => exact wellFormed
  | cons item rest ih =>
      cases item with
      | text data =>
          have added : (scene.addNode (.text data)).2.document.WellFormed :=
            Document.wellFormed_create wellFormed rfl
          exact ih added
      | node id => exact ih wellFormed

theorem not_has_create (document : Document) (content : Content) :
    ¬ document.Has (document.create content).1 :=
  Nat.lt_irrefl _

theorem has_create (document : Document) (content : Content) :
    (document.create content).2.Has (document.create content).1 := by
  simp [Document.Has, Document.create, Document.size]

theorem mem_realizeAll {scene : Scene} {items : List Item} {id : NodeId}
    (member : id ∈ (scene.realizeAll items).1) : .node id ∈ items ∨
      ¬ scene.document.Has id ∧ (scene.realizeAll items).2.document.kind id = .text := by
  induction items generalizing scene with
  | nil => simp [realizeAll] at member
  | cons item rest ih =>
      cases item with
      | text data =>
          have created := Document.node_create scene.document (.text data)
          rcases List.mem_cons.mp member with rfl | later
          · right
            refine ⟨not_has_create scene.document (.text data), ?_⟩
            have later := extends_realizeAll (scene.addNode (.text data)).2 rest
            refine (later.kind_eq (has_create _ _)).trans ?_
            rw [Document.kind, Document.content, addNode, created]
            rfl
          · rcases ih later with given | ⟨new, kind⟩
            · exact Or.inl (List.mem_cons_of_mem _ given)
            · refine Or.inr ⟨?_, kind⟩
              exact fun old => new ((Document.extends_create _ _).has old)
      | node other =>
          rcases List.mem_cons.mp member with rfl | later
          · exact Or.inl (by simp)
          · exact (ih later).imp_left (List.mem_cons_of_mem _)

theorem nodup_realizeAll {scene : Scene} {items : List Item}
    (bound : ∀ id, .node id ∈ items → scene.document.Has id)
    (unique : (items.filterMap Item.node?).Nodup) : (scene.realizeAll items).1.Nodup := by
  induction items generalizing scene with
  | nil => exact List.nodup_nil
  | cons item rest ih =>
      have restBound : ∀ id, .node id ∈ rest → scene.document.Has id :=
        fun id member => bound id (List.mem_cons_of_mem _ member)
      cases item with
      | text data =>
          have extended := Document.extends_create scene.document (.text data)
          refine List.nodup_cons.mpr ⟨?_, ih (fun id member => extended.has (restBound id member))
            unique⟩
          intro member
          rcases mem_realizeAll member with given | ⟨new, _⟩
          · exact not_has_create scene.document (.text data) (restBound _ given)
          · exact new (has_create _ _)
      | node id =>
          have unique : (id :: rest.filterMap Item.node?).Nodup := unique
          rw [List.nodup_cons] at unique
          refine List.nodup_cons.mpr ⟨?_, ih restBound unique.2⟩
          intro member
          rcases mem_realizeAll member with given | ⟨new, _⟩
          · exact unique.1 (List.mem_filterMap.mpr ⟨_, given, rfl⟩)
          · exact new (bound id (by simp))

/-! What a write does. -/

theorem setTarget_self {graph : PartGraph} {index : Nat} {target : Target}
    (found : graph.parts[index]?.map Part.target = some target) :
    graph.setTarget index target = graph := by
  have same : (graph.parts.modify index fun part => { part with target }) = graph.parts := by
    apply Array.ext_getElem?
    intro other
    rw [Array.getElem?_modify]
    split
    · rename_i equal
      subst equal
      obtain ⟨part, partFound, targetEq⟩ := Option.map_eq_some_iff.mp found
      rw [partFound, ← targetEq]
      rfl
    · rfl
  rw [PartGraph.setTarget, same]

theorem setContent_eq {scene : Scene} {index region : Nat} {old : List NodeId}
    {nested? : Option Nested}
    (found : scene.graph.parts[index]?.map Part.target = some (.nodes region old nested?))
    (content : List NodeId) :
    scene.setContent index content = reconcileRegion
      { scene with graph := scene.graph.setTarget index (.nodes region content nested?) } region := by
  simp only [setContent, found]

theorem write_cases (scene : Scene) {index region : Nat} {content : List NodeId}
    {nested? : Option Nested}
    (found : scene.graph.parts[index]?.map Part.target = some (.nodes region content nested?))
    (write : Write) :
    (∃ error, scene.write index write = (.error error, scene)) ∨
      ∃ document nodes, scene.Prepares region content write document nodes ∧
        scene.write index write = (.ok (), reconcileRegion
          ⟨document, scene.graph.setTarget index (.nodes region nodes nested?)⟩ region) := by
  cases write with
  | value value? =>
      right
      have target : (scene.addNode (.text (value?.getD ""))).2.graph.parts[index]?.map Part.target =
          some (.nodes region content nested?) := found
      have fresh := setContent_eq target [(scene.addNode (.text (value?.getD ""))).1]
      -- A text that is all the part shows is written over; any other content gives way to a new one.
      by_cases reused : ∃ only, content = [only] ∧ scene.document.kind only = .text ∧
          scene.isLive region = true
      · obtain ⟨only, rfl, kind, live⟩ := reused
        refine ⟨_, _, .overwrite rfl kind live, ?_⟩
        have live : (scene.graph.regions[region]?.map (·.isLive scene.document)).getD false = true :=
          live
        simp only [Scene.write, setValue, setText, found, kind, live, and_self, if_true]
        rw [setTarget_self found]
      · refine ⟨_, _, .text (fun only single kind => ?_), ?_⟩
        · by_contra live
          exact reused ⟨only, single, kind, by simpa using live⟩
        · simp only [Scene.write, setValue, setText, found]
          split
          · rename_i only
            split
            · rename_i taken
              exact absurd ⟨only, rfl, taken⟩ reused
            · rw [fresh]
              rfl
          · rw [fresh]
            rfl
  | boolean present =>
      left
      exact ⟨.notWhole, by simp [Scene.write, setBoolean, isWhole, found]⟩
  | items items =>
      cases refusal : items.findSome? (refused? scene.document) with
      | some kind => exact Or.inl ⟨.contentKind kind, by simp [Scene.write, replace, refusal]⟩
      | none =>
          right
          refine ⟨_, _, .items (List.findSome?_eq_none_iff.mp refusal), ?_⟩
          have sameGraph := graph_realizeAll scene items
          have realized : (scene.realizeAll items).2.graph.parts[index]?.map Part.target =
              some (.nodes region content nested?) := by rw [sameGraph, found]
          simp only [Scene.write, replace, refusal]
          rw [setContent_eq realized, sameGraph]
  | markup text =>
      cases read : scene.document.read? text with
      | none => exact Or.inl ⟨.markup, by simp [Scene.write, replaceMarkup, read]⟩
      | some result =>
          obtain ⟨fragment, document⟩ := result
          right
          refine ⟨_, _, .markup read, ?_⟩
          have target : (⟨document, scene.graph⟩ : Scene).graph.parts[index]?.map Part.target =
              some (.nodes region content nested?) := found
          simp only [Scene.write, replaceMarkup, read]
          rw [setContent_eq target]

/-- A value is never refused by a part that shows nodes. -/
theorem exists_prepared (scene : Scene) {index region : Nat} {content : List NodeId}
    {nested? : Option Nested}
    (found : scene.graph.parts[index]?.map Part.target = some (.nodes region content nested?))
    (value? : Option String) :
    ∃ document nodes, scene.Prepares region content (.value value?) document nodes ∧
      scene.setValue index value? = reconcileRegion
        ⟨document, scene.graph.setTarget index (.nodes region nodes nested?)⟩ region := by
  rcases scene.write_cases found (.value value?) with ⟨error, refused⟩ |
    ⟨document, nodes, prepared, written⟩
  · cases refused
  · exact ⟨document, nodes, prepared, congrArg Prod.snd written⟩

theorem Prepares.exists_text {scene : Scene} {region : Nat} {content shown : List NodeId}
    {value? : Option String} {document : Document}
    (prepared : scene.Prepares region content (.value value?) document shown) :
    ∃ id, shown = [id] ∧ document.content id = .text (value?.getD "") ∧
      (content = [id] ∧ document.children id = scene.document.children id ∨
        ¬ scene.document.Has id ∧ document.children id = []) := by
  cases prepared with
  | @overwrite only _ single kind live =>
      have has : scene.document.Has only := Document.has_of_kind (by rw [kind]; decide)
      refine ⟨only, rfl, ?_, Or.inl ⟨single, Document.children_setContent _ _ _ _⟩⟩
      rw [Document.setData, Document.content_setContent has, if_pos rfl]
      obtain ⟨data, held⟩ := Content.exists_text kind
      rw [held]
      rfl
  | text _ =>
      refine ⟨_, rfl, ?_, Or.inr ⟨not_has_create scene.document _, ?_⟩⟩
      · rw [Document.content, Document.node_create]
      · rw [Document.children, Document.node_create]

theorem Prepares.unique {scene : Scene} {region : Nat} {content nodes others : List NodeId}
    {write : Write} {document other : Document}
    (first : scene.Prepares region content write document nodes)
    (second : scene.Prepares region content write other others) :
    document = other ∧ nodes = others := by
  cases first with
  | overwrite single kind live =>
      cases second with
      | overwrite otherSingle _ _ =>
          cases single.symm.trans otherSingle
          exact ⟨rfl, rfl⟩
      | text dead =>
          rw [dead _ single kind] at live
          cases live
  | text dead =>
      cases second with
      | overwrite single kind live =>
          rw [dead _ single kind] at live
          cases live
      | text _ => exact ⟨rfl, rfl⟩
  | items _ =>
      cases second with
      | items _ => exact ⟨rfl, rfl⟩
  | markup read =>
      cases second with
      | markup otherRead =>
          cases read.symm.trans otherRead
          exact ⟨rfl, rfl⟩

theorem write_of_prepares {scene result : Scene} {index region : Nat}
    {content nodes : List NodeId} {nested? : Option Nested} {write : Write} {document : Document}
    (found : scene.graph.parts[index]?.map Part.target = some (.nodes region content nested?))
    (prepared : scene.Prepares region content write document nodes)
    (written : scene.write index write = (.ok (), result)) :
    result = reconcileRegion ⟨document, scene.graph.setTarget index (.nodes region nodes nested?)⟩
      region := by
  rcases write_cases scene found write with ⟨error, refused⟩ | ⟨other, others, otherwise, accepted⟩
  · rw [refused] at written
    cases written
  · obtain ⟨rfl, rfl⟩ := prepared.unique otherwise
    rw [accepted] at written
    cases written
    rfl

theorem quiet_reconcileBinding (scene : Scene) (index : Nat) :
    (scene.reconcileBinding index).Quiet scene := by
  cases found : scene.graph.bindings[index]? with
  | none =>
      rw [reconcileBinding, found]
      exact Quiet.refl scene
  | some binding =>
      rw [reconcileBinding_eq scene found]
      exact ⟨Document.wellFormed_putAttribute, Document.keepsLinks_setContent _ _ _,
        Document.keepsKinds_putAttribute, Document.content_putAttribute_text,
        ⟨fun _ => rfl, fun _ _ => Iff.rfl⟩, rfl, fun _ => rfl, rfl⟩

theorem quiet_setAttributeValue (scene : Scene) (index : Nat) (value? : Option String) :
    (scene.setAttributeValue index value?).Quiet scene := by
  rw [setAttributeValue]
  split
  · rename_i binding old found
    have step := quiet_reconcileBinding
      { scene with graph := scene.graph.setTarget index (.attribute binding value?) } binding
    refine ⟨step.wellFormed, step.links, step.kinds, step.texts,
      step.shape.trans (PartGraph.sameShape_setTarget found (by simp)), step.regions, ?_,
      step.fragment⟩
    intro part
    rw [step.content, PartGraph.contentOf_setTarget found]
    split
    · rename_i same
      subst same
      rw [PartGraph.contentOf_of_target found]
      rfl
    · rfl
  · exact Quiet.refl scene

theorem quiet_write (scene : Scene) {index : Nat}
    (other : ∀ region content nested?,
      scene.graph.parts[index]?.map Part.target ≠ some (.nodes region content nested?))
    (write : Write) : (scene.write index write).2.Quiet scene := by
  have unshown (result : Scene) (same : result.graph = scene.graph) (content : List NodeId) :
      result.setContent index content = result := by
    rw [setContent]
    split
    · rename_i region old nested? found
      rw [same] at found
      exact absurd found (other region old nested?)
    · rfl
  cases write with
  | value value? =>
      simp only [Scene.write, setValue]
      split
      · exact quiet_setAttributeValue scene index _
      · rename_i region old nested? found
        exact absurd found (other region old nested?)
      · exact Quiet.refl scene
  | boolean present =>
      simp only [Scene.write, setBoolean]
      split
      · exact quiet_setAttributeValue scene index _
      · exact Quiet.refl scene
  | items items =>
      simp only [Scene.write, replace]
      split
      · exact Quiet.refl scene
      · rw [unshown _ (graph_realizeAll scene items)]
        have sameScene : (scene.realizeAll items).2 =
            { scene with document := (scene.realizeAll items).2.document } := by
          rw [← graph_realizeAll scene items]
        rw [sameScene]
        exact Quiet.of_extends (fun wellFormed => wellFormed_realizeAll wellFormed items)
          (extends_realizeAll scene items)
  | markup text =>
      simp only [Scene.write, replaceMarkup]
      split
      · exact Quiet.refl scene
      · rename_i fragment document read
        rw [unshown ⟨document, scene.graph⟩ rfl]
        obtain ⟨trees, treesRead, grafted⟩ := Option.map_eq_some_iff.mp read
        have documentEq : document = (scene.document.graft (.node .fragment trees)).2 := by
          rw [grafted]
        rw [documentEq]
        exact Quiet.of_extends
          (fun wellFormed => Document.wellFormed_graft wellFormed (Markup.plantable_read treesRead))
          (Document.extends_graft _ _)

/-! What is prepared. -/

namespace Prepares

variable {scene : Scene} {region : Nat} {content nodes : List NodeId} {write : Write}
  {document : Document}

theorem exists_graft {text : String} {fragment : NodeId} {start result : Document}
    (read : start.read? text = some (fragment, result)) :
    ∃ trees, Markup.read? text.toList = some trees ∧ fragment = ⟨start.size⟩ ∧
      result = (start.graft (.node .fragment trees)).2 := by
  obtain ⟨trees, treesRead, grafted⟩ := Option.map_eq_some_iff.mp read
  exact ⟨trees, treesRead, (congrArg Prod.fst grafted).symm, (congrArg Prod.snd grafted).symm⟩

theorem wellFormed (prepared : scene.Prepares region content write document nodes)
    (wellFormed : scene.document.WellFormed) : document.WellFormed := by
  cases prepared with
  | overwrite _ _ _ => exact Document.wellFormed_setData wellFormed _ _
  | text _ => exact Document.wellFormed_create wellFormed rfl
  | items _ => exact wellFormed_realizeAll wellFormed _
  | markup read =>
      obtain ⟨trees, treesRead, _, rfl⟩ := exists_graft read
      exact Document.wellFormed_graft wellFormed (Markup.plantable_read treesRead)

theorem links (prepared : scene.Prepares region content write document nodes) :
    document.KeepsLinks scene.document := by
  cases prepared with
  | overwrite _ _ _ => exact Document.keepsLinks_setContent _ _ _
  | text _ => exact (Document.extends_create _ _).keepsLinks
  | items _ => exact (extends_realizeAll _ _).keepsLinks
  | markup read =>
      obtain ⟨trees, _, _, rfl⟩ := exists_graft read
      exact (Document.extends_graft _ _).keepsLinks

theorem kinds (prepared : scene.Prepares region content write document nodes) :
    document.KeepsKinds scene.document := by
  cases prepared with
  | @overwrite only _ _ _ _ =>
      apply Document.keepsKinds_setContent
      rw [Document.kind]
      cases scene.document.content only <;> rfl
  | text _ => exact (Document.extends_create _ _).keepsKinds
  | items _ => exact (extends_realizeAll _ _).keepsKinds
  | markup read =>
      obtain ⟨trees, _, _, rfl⟩ := exists_graft read
      exact (Document.extends_graft _ _).keepsKinds

theorem new_of_markup {text : String} {fragment : NodeId} {start result : Document}
    (wellFormed : start.WellFormed) (read : start.read? text = some (fragment, result)) :
    ∀ id ∈ result.children fragment, ¬ start.Has id := by
  obtain ⟨trees, _, rfl, rfl⟩ := exists_graft read
  intro id member old
  rw [Document.linked_graft wellFormed, (Document.extends_graft _ _).parent?_eq old] at member
  exact Nat.lt_irrefl _ (wellFormed.has_parent member)

theorem kind_nodes (prepared : scene.Prepares region content write document nodes)
    (wellFormed : scene.document.WellFormed) : ∀ id ∈ nodes, document.kind id ≠ .fragment := by
  have resultWellFormed := prepared.wellFormed wellFormed
  have kinds := prepared.kinds
  intro id member
  cases prepared with
  | overwrite _ kind _ =>
      rw [List.mem_singleton.mp member,
        kinds.kind_eq (Document.has_of_kind (by rw [kind]; decide)), kind]
      decide
  | text _ =>
      rw [List.mem_singleton.mp member, Document.kind, Document.content, Document.node_create]
      simp [Content.kind]
  | items accepted =>
      rcases mem_realizeAll member with given | ⟨_, kind⟩
      · have allowed := accepted _ given
        simp only [refused?, ite_eq_right_iff, reduceCtorEq, imp_false] at allowed
        have notFragment : scene.document.kind id ≠ .fragment := by
          intro isFragment
          exact allowed (by rw [isFragment]; rfl)
        rwa [kinds.kind_eq (Document.has_of_kind notFragment)]
      · rw [kind]
        decide
  | markup read =>
      exact resultWellFormed.kind_of_parent? ((resultWellFormed.linked _ id).mp member)

theorem eq_or_new (prepared : scene.Prepares region content write document nodes)
    (wellFormed : scene.document.WellFormed) (unique : write.nodes.Nodup)
    (bound : ∀ id ∈ write.nodes, scene.document.Has id) :
    nodes = content ∨
      nodes.Nodup ∧ ∀ id ∈ nodes, id ∈ write.nodes ∨ ¬ scene.document.Has id := by
  have preparedWellFormed := prepared.wellFormed wellFormed
  cases prepared with
  | overwrite single _ _ => exact Or.inl single.symm
  | text _ =>
      refine Or.inr ⟨List.nodup_singleton _, ?_⟩
      intro id member
      rw [List.mem_singleton.mp member]
      exact Or.inr (not_has_create _ _)
  | @items items accepted =>
      have brought (id : NodeId) (member : .node id ∈ items) : id ∈ (Write.items items).nodes :=
        List.mem_filterMap.mpr ⟨.node id, member, rfl⟩
      refine Or.inr ⟨nodup_realizeAll (fun id member => bound id (brought id member)) unique, ?_⟩
      intro id member
      exact (mem_realizeAll member).imp (brought id) And.left
  | @markup text fragment _ read =>
      exact Or.inr ⟨preparedWellFormed.unique fragment,
        fun id member => Or.inr (new_of_markup wellFormed read id member)⟩

theorem content_eq (prepared : scene.Prepares region content write document nodes) {id : NodeId}
    (bound : scene.document.Has id) (other : id ∉ content) :
    document.content id = scene.document.content id := by
  cases prepared with
  | @overwrite only _ single kind _ =>
      have differ : id ≠ only := by
        rintro rfl
        exact other (by simp [single])
      exact Document.content_setContent_of_ne _ differ _
  | text _ => exact (Document.extends_create _ _).content_eq bound
  | items _ => exact (extends_realizeAll _ _).content_eq bound
  | markup read =>
      obtain ⟨trees, _, _, rfl⟩ := exists_graft read
      exact (Document.extends_graft _ _).content_eq bound

end Prepares

variable {scene : Scene}

theorem Sound.of_quiet {result : Scene} (sound : scene.Sound) (quiet : result.Quiet scene) :
    result.Sound where
  wellFormed := quiet.wellFormed sound.wellFormed
  linked := sound.linked.sameShape quiet.shape
  known := by
    intro index region found
    rw [quiet.regions] at found
    exact (sound.known found).keepsKinds quiet.kinds
  shown := by
    intro index region found id member
    rw [quiet.regions] at found
    rw [PartGraph.nodesOf_congr region (fun part _ => quiet.content part)] at member
    rw [quiet.kinds.kind_eq (sound.has_of_shown found id member)]
    exact sound.shown found id member

theorem Sound.of_prepares (sound : scene.Sound) {index region : Nat} {content nodes : List NodeId}
    {nested? : Option Nested} {write : Write} {document : Document}
    (found : scene.graph.parts[index]?.map Part.target = some (.nodes region content nested?))
    (prepared : scene.Prepares region content write document nodes) :
    Sound ⟨document, scene.graph.setTarget index (.nodes region nodes nested?)⟩ :=
  (sound.of_document (prepared.wellFormed sound.wellFormed) prepared.kinds).of_content found
    (prepared.kind_nodes sound.wellFormed)

theorem sound_write (sound : scene.Sound) (index : Nat) (write : Write) :
    (scene.write index write).2.Sound := by
  by_cases nodes : ∃ region content nested?,
      scene.graph.parts[index]?.map Part.target = some (.nodes region content nested?)
  · obtain ⟨region, content, nested?, found⟩ := nodes
    rcases scene.write_cases found write with ⟨error, refused⟩ | ⟨document, shown, prepared, written⟩
    · rw [refused]
      exact sound
    · rw [written]
      exact sound_reconcileRegion (sound.of_prepares found prepared) region
  · exact sound.of_quiet (quiet_write scene
      (fun region content nested? found => nodes ⟨region, content, nested?, found⟩) write)

end Scene

end LiveTemplate
