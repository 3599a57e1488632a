import LiveTemplate.Proofs.Embedding

/-! Writes to an instance in a document that it shares with others do what they do when the instance
is alone, and touch nothing but its own nodes and its place below its host. -/

namespace LiveTemplate.Scene

structure Hosted (alone shared start : Scene) (rows : List Row) (base : Nat)
    (image : NodeId → NodeId) (host : NodeId) : Prop where
  live : alone.Live start rows
  homes : ∀ row ∈ rows, base ≤ row.home.index
  outer : ∀ row ∈ rows, row.home = start.graph.fragment → row.parent? = none
  refers : alone.graph.Refers (alone.document.Made base)
  sound : shared.Sound
  graph : shared.graph = alone.graph.rename image
  embedded : alone.document.Embedded shared.document base image start.graph.fragment host

structure Advanced (alone shared aloneNow sharedNow start : Scene) (rows : List Row) (base : Nat)
    (image later : NodeId → NodeId) (host : NodeId) : Prop where
  hosted : Hosted aloneNow sharedNow start rows base later host
  root : later start.graph.fragment = image start.graph.fragment
  tended : sharedNow.document.Tended shared.document (alone.document.Covers base image)
    (aloneNow.document.Covers base later) host
  spaced : sharedNow.document.Spaced shared.document (alone.document.Covers base image) host

variable {alone shared start : Scene} {rows : List Row} {row : Row} {base index number : Nat}
  {image other : NodeId → NodeId} {host : NodeId} {lead trail content nodes : List NodeId}
  {nested? : Option Nested} {before after : List Slot} {source : Source} {region : Region}
  {value? : Option String} {document : Document}

theorem Advanced.trans {middle sharedMiddle last sharedLast : Scene} {between : NodeId → NodeId}
    (second : Advanced middle sharedMiddle last sharedLast start rows base between other host)
    (first : Advanced alone shared middle sharedMiddle start rows base image between host)
    (wellFormed : shared.document.WellFormed) :
    Advanced alone shared last sharedLast start rows base image other host where
  hosted := second.hosted
  root := second.root.trans first.root
  tended := second.tended.trans first.tended
  spaced := second.spaced.trans wellFormed first.spaced first.tended

namespace Hosted

theorem stays (hosted : Hosted alone shared start rows base image host) :
    Advanced alone shared alone shared start rows base image image host :=
  ⟨hosted, rfl, .refl _ _ _, fun _ inside _ => inside⟩

theorem congr (hosted : Hosted alone shared start rows base image host)
    (agree : ∀ id, alone.document.Has id → other id = image id) :
    Hosted alone shared start rows base other host := by
  refine ⟨hosted.live, hosted.homes, hosted.outer, hosted.refers, hosted.sound, ?_,
    hosted.embedded.congr agree hosted.live.wellFormed⟩
  rw [hosted.graph]
  exact hosted.live.toSound.rename_congr (hosted.refers.mono fun _ made => made.2)
    fun id has => (agree id has).symm

theorem shared_target (hosted : Hosted alone shared start rows base image host) {target? : Option Target}
    (target : alone.graph.parts[index]?.map Part.target = target?) :
    shared.graph.parts[index]?.map Part.target = target?.map (Target.rename image) := by
  rw [hosted.graph, PartGraph.target_rename, target]

theorem shared_region (hosted : Hosted alone shared start rows base image host)
    (found : alone.graph.regions[number]? = some region) :
    shared.graph.regions[number]? = some (region.rename image) := by
  rw [hosted.graph, PartGraph.regions_rename, found, Option.map_some]

theorem made_home (hosted : Hosted alone shared start rows base image host) (member : row ∈ rows) :
    alone.document.Made base row.home :=
  ⟨hosted.homes row member, hosted.live.planned.has row member⟩

/-- Every region is in place in the shared document, below the node that has the children there. -/
theorem exists_place (hosted : Hosted alone shared start rows base image host) (member : row ∈ rows)
    (split : row.slots = before ++ .region number source :: after)
    (found : alone.graph.regions[number]? = some region)
    (children : shared.document.children (Document.seat image start.graph.fragment host row.home) =
      lead ++ (alone.document.children row.home).map image ++ trail)
    (inside : row.home ≠ start.graph.fragment → lead = [] ∧ trail = []) :
    ∃ span : Span, (region.rename image).place? shared.document = some span ∧
      span.parent = Document.seat image start.graph.fragment host row.home ∧
      span.Cuts (shared.document.children span.parent)
        (lead ++ (alone.graph.expand before).map image) ((alone.graph.nodesOf region).map image)
        ((alone.graph.expand after).map image ++ trail) ∧
      (∀ nodes, (region.rename image).settle span nodes =
        { region.rename image with rendered := nodes, detached := false }) ∧
      (region.owning = false → ((region.rename image).span? shared.document).isSome = true) := by
  have embedded := hosted.embedded
  -- The shared document with the content of the instance gathered below the fragment again.
  let gathered := shared.document.setChildren (image start.graph.fragment)
    ((alone.document.children start.graph.fragment).map image)
  have gatheredChildren : ∀ row ∈ rows,
      gathered.children (image row.home) = (alone.document.children row.home).map image := by
    intro row member
    rw [Document.children_setChildren (embedded.has _ embedded.root)]
    split
    · rename_i same
      rw [embedded.injective _ _ (hosted.made_home member) embedded.root same]
    · rename_i differ
      exact embedded.children _ (hosted.made_home member) fun same => differ (congrArg image same)
  have planned : Planned ⟨gathered, alone.graph.rename image⟩ (rows.map (Row.rename image)) := by
    refine hosted.live.planned.rename gatheredChildren (fun row member => ?_) ?_
    · rw [Document.Has, Document.size_setChildren]
      exact embedded.has _ (hosted.made_home member)
    · exact fun row member other otherMember =>
        embedded.injective _ _ (hosted.made_home member) (hosted.made_home otherMember)
  have foundNow : (alone.graph.rename image).regions[number]? = some (region.rename image) := by
    rw [PartGraph.regions_rename, found, Option.map_some]
  have splitNow : (row.rename image).slots = before.map (Slot.rename image) ++
      .region number source :: after.map (Slot.rename image) := by
    rw [Row.rename, split, List.map_append, List.map_cons]
    rfl
  have rendered : (region.rename image).rendered =
      (alone.graph.rename image).nodesOf (region.rename image) := by
    rw [PartGraph.nodesOf_rename, ← (hosted.live.rendered found).1]
    rfl
  obtain ⟨span, placed, parentEq, cuts, settled, shared, _⟩ := planned.exists_place_beside
    hosted.sound.wellFormed (List.mem_map_of_mem member) splitNow foundNow rendered
    (children.trans (congrArg (lead ++ · ++ trail) (gatheredChildren row member).symm)) (by
      intro below
      have inner : row.home ≠ start.graph.fragment := by
        intro root
        rw [Row.rename, hosted.outer row member root] at below
        cases below
      exact ⟨if_neg inner, inside inner⟩)
  rw [PartGraph.expand_rename, PartGraph.expand_rename, PartGraph.nodesOf_rename] at cuts
  refine ⟨span, placed, parentEq, parentEq ▸ cuts, settled, fun apart => ?_⟩
  rw [shared apart]
  rfl

theorem of_attribute (hosted : Hosted alone shared start rows base image host) {old? : Option String}
    (target : alone.graph.parts[index]?.map Part.target = some (.attribute number old?))
    (value? : Option String) :
    Advanced alone shared (alone.setValue index value?) (shared.setValue index value?) start rows base
      image image host := by
  have sharedTarget : shared.graph.parts[index]?.map Part.target = some (.attribute number old?) :=
    hosted.shared_target target
  have whole : shared.isWhole index = alone.isWhole index := by
    simp only [isWhole, sharedTarget, target]
    rw [hosted.graph, PartGraph.bindings_rename, Option.map_map]
    rfl
  have kept : (shared.setValue index value?).Sound := sound_write hosted.sound index (.value value?)
  simp only [setValue, target, sharedTarget, whole] at kept ⊢
  generalize (if alone.isWhole index then value? else some (value?.getD "")) = new? at kept ⊢
  have live := hosted.live.of_quiet (quiet_setAttributeValue alone index new?)
  have refers := hosted.refers.setTarget index (.attribute number new?) (by rintro _ _ _ ⟨⟩)
  have graph : shared.graph.setTarget index (.attribute number new?) =
      (alone.graph.setTarget index (.attribute number new?)).rename image := by
    rw [hosted.graph, ← PartGraph.setTarget_rename]
    rfl
  simp only [setAttributeValue, target, sharedTarget, graph] at kept live ⊢
  generalize alone.graph.setTarget index (.attribute number new?) = next at kept live refers ⊢
  cases found : next.bindings[number]? with
  | none =>
      have sharedFound : (next.rename image).bindings[number]? = none := by
        rw [PartGraph.bindings_rename, found, Option.map_none]
      simp only [reconcileBinding, found, sharedFound] at kept live ⊢
      exact ⟨⟨live, hosted.homes, hosted.outer, refers, kept, rfl, hosted.embedded⟩, rfl,
        .refl _ _ _, fun _ inside _ => inside⟩
  | some binding =>
      have sharedFound : (next.rename image).bindings[number]? = some (binding.rename image) := by
        rw [PartGraph.bindings_rename, found, Option.map_some]
      have element := refers.element found
      -- The element is a node of the instance, so that both documents change what it holds alike.
      rw [reconcileBinding_eq ⟨alone.document, next⟩ found] at live ⊢
      rw [reconcileBinding_eq ⟨shared.document, next.rename image⟩ sharedFound] at kept ⊢
      dsimp only at kept live ⊢
      rw [PartGraph.valueOf_rename] at kept ⊢
      have size := Document.size_setContent alone.document binding.element
        ((alone.document.content binding.element).mapAttributes
          (Attribute.put binding.name (next.valueOf binding)))
      have sameContent := hosted.embedded.content _ element
      have kind : ((alone.document.content binding.element).mapAttributes
          (Attribute.put binding.name (next.valueOf binding))).kind =
            shared.document.kind (image binding.element) := by
        rw [Content.kind_mapAttributes, Document.kind, sameContent]
      have put : shared.document.putAttribute (binding.rename image).element
          (binding.rename image).name (next.valueOf binding) =
            shared.document.setContent (image binding.element)
              ((alone.document.content binding.element).mapAttributes
                (Attribute.put binding.name (next.valueOf binding))) := by
        rw [← sameContent]
        rfl
      obtain ⟨tended, spaced⟩ := Document.tended_setContent host
        (hosted.embedded.covers element) kind
      rw [put] at kept ⊢
      refine ⟨⟨live, hosted.homes, hosted.outer, ?_, kept, rfl,
        hosted.embedded.setContent element _⟩, rfl, ?_, spaced⟩
      · exact (Document.made_of_size size base).symm ▸ refers
      · exact (Document.covers_of_size size base image).symm ▸ tended

theorem isLive_eq (hosted : Hosted alone shared start rows base image host)
    (target : alone.graph.parts[index]?.map Part.target = some (.nodes number content nested?)) :
    alone.isLive number = true ∧ shared.isLive number = true := by
  obtain ⟨region, found, _⟩ := hosted.live.linked.part target
  obtain ⟨row, member, before, source, after, split, _, _⟩ := hosted.live.planned.exists_row found
  obtain ⟨lead, trail, children, _, inside⟩ := hosted.embedded.exists_beside hosted.sound.wellFormed
    (hosted.made_home member)
  obtain ⟨_, _, _, _, _, sharedSpan⟩ := hosted.exists_place member split found children inside
  obtain ⟨_, _, _, _, _, span, _⟩ := hosted.live.planned.exists_place hosted.live.toSound member split
    found (hosted.live.rendered found).1
  have sharedFound := hosted.shared_region found
  rw [isLive, isLive, found, sharedFound, Option.map_some, Option.map_some, Region.isLive_eq,
    Region.isLive_eq]
  have owning : (region.rename image).owning = region.owning := rfl
  cases shares : region.owning with
  | true => simp [owning, shares]
  | false => simp [owning, shares, span shares, sharedSpan shares]

theorem made_of_shown (hosted : Hosted alone shared start rows base image host)
    (found : alone.graph.regions[number]? = some region) {id : NodeId}
    (shown : id ∈ alone.graph.nodesOf region) : alone.document.Made base id := by
  obtain ⟨row, member, before, source, after, split, _, _⟩ := hosted.live.planned.exists_row found
  refine hosted.embedded.made_of_child hosted.live.wellFormed (hosted.made_home member) ?_
  rw [hosted.live.planned.children_split member split found]
  exact List.mem_append_left _ (List.mem_append_right _ shown)

theorem made_of_content (hosted : Hosted alone shared start rows base image host)
    (target : alone.graph.parts[index]?.map Part.target = some (.nodes number content nested?))
    {id : NodeId} (member : id ∈ content) : alone.document.Made base id := by
  obtain ⟨region, found, _⟩ := hosted.live.linked.part target
  obtain ⟨front, back, shown, _⟩ := hosted.live.linked.exists_split target found
  refine hosted.made_of_shown found ?_
  rw [shown]
  exact List.mem_append_left _ (List.mem_append_right _ member)

/-- What is prepared alone is also prepared in the shared document, where a new text gets a number of
its own. -/
theorem exists_prepares (hosted : Hosted alone shared start rows base image host)
    (target : alone.graph.parts[index]?.map Part.target = some (.nodes number content nested?))
    (prepared : alone.Prepares number content (.value value?) document nodes) :
    ∃ later sharedDocument, (∀ id, alone.document.Has id → later id = image id) ∧
      shared.Prepares number (content.map later) (.value value?) sharedDocument (nodes.map later) ∧
      document.Embedded sharedDocument base later start.graph.fragment host ∧
      sharedDocument.Tended shared.document (alone.document.Covers base image)
        (document.Covers base later) host ∧
      sharedDocument.Spaced shared.document (alone.document.Covers base image) host ∧
      ∀ id ∈ nodes, document.Made base id ∧ (id ∈ content ∨
        document.parent? id = none ∧ sharedDocument.parent? (later id) = none) := by
  have wellFormed := hosted.live.wellFormed
  obtain ⟨live, sharedLive⟩ := hosted.isLive_eq target
  have kind {id : NodeId} (member : id ∈ content) :
      shared.document.kind (image id) = alone.document.kind id := by
    rw [Document.kind, Document.kind, hosted.embedded.content id (hosted.made_of_content target member)]
  -- A text that is written over keeps its number, and a new one gets the next number of each document.
  cases prepared with
  | @overwrite only _ single isText _ =>
      subst single
      have inside : only ∈ [only] := List.mem_singleton_self only
      have made := hosted.made_of_content target inside
      have sameContent := hosted.embedded.content only made
      have set : shared.document.setData (image only) (value?.getD "") =
          shared.document.setContent (image only)
            ((alone.document.content only).withData (value?.getD "")) := by
        rw [Document.setData, sameContent]
      have kept : ((alone.document.content only).withData (value?.getD "")).kind =
          shared.document.kind (image only) := by
        rw [Document.kind, sameContent]
        cases alone.document.content only <;> rfl
      have size := Document.size_setContent alone.document only
        ((alone.document.content only).withData (value?.getD ""))
      obtain ⟨tended, spaced⟩ := Document.tended_setContent host
        (hosted.embedded.covers made) kept
      refine ⟨image, _, fun _ _ => rfl, .overwrite rfl ((kind inside).trans isText) sharedLive, ?_, ?_, ?_,
        ?_⟩
      · rw [set]
        exact hosted.embedded.setContent made _
      · rw [set]
        exact (Document.covers_of_size size base image).symm ▸ tended
      · rw [set]
        exact spaced
      · intro id member
        rw [List.mem_singleton.mp member]
        exact ⟨(Document.made_of_size size base).symm ▸ made, Or.inl inside⟩
  | text dead =>
      obtain ⟨embedded, covers, agree⟩ := hosted.embedded.create wellFormed hosted.sound.wellFormed
        (.text (value?.getD ""))
      obtain ⟨tended, spaced⟩ := Document.tended_create shared.document
        (alone.document.Covers base image) host (.text (value?.getD ""))
      have images : content.map (Function.update image
          (alone.document.create (.text (value?.getD ""))).1
          (shared.document.create (.text (value?.getD ""))).1) = content.map image :=
        List.map_congr_left fun id member => agree id (hosted.made_of_content target member).2
      have new : [(alone.document.create (.text (value?.getD ""))).1].map (Function.update image
          (alone.document.create (.text (value?.getD ""))).1
          (shared.document.create (.text (value?.getD ""))).1) =
            [(shared.document.create (.text (value?.getD ""))).1] := by
        rw [List.map_singleton, Function.update_self]
      refine ⟨_, _, agree, ?_, embedded, (funext fun id => propext (covers id)) ▸ tended, spaced, ?_⟩
      · rw [images, new]
        refine .text fun only single isText => ?_
        obtain ⟨own, rfl, rfl⟩ := List.map_eq_singleton_iff.mp single
        rw [kind (List.mem_singleton_self own)] at isText
        rw [dead own rfl isText] at live
        cases live
      · intro id member
        rw [List.mem_singleton.mp member, Function.update_self]
        refine ⟨⟨hosted.embedded.root.1.trans (Nat.le_of_lt hosted.embedded.root.2), has_create _ _⟩,
          Or.inr ⟨?_, ?_⟩⟩
        · rw [Document.parent?, Document.node_create]
        · rw [Document.parent?, Document.node_create]

/-- The content of the instance has anchors around each of its regions. -/
theorem children_ne_nil (hosted : Hosted alone shared start rows base image host) (member : row ∈ rows)
    (split : row.slots = before ++ .region number source :: after)
    (same : Document.seat image start.graph.fragment host row.home = host) :
    alone.document.children row.home ≠ [] := by
  have root : row.home = start.graph.fragment := by
    by_contra inner
    exact hosted.embedded.host_ne_seat (hosted.made_home member) inner same.symm
  have planned := hosted.live.planned
  have framed := planned.framed row member
  rw [split] at framed
  obtain ⟨region, found, fits⟩ := framed.fits
  obtain ⟨_, other, otherMember, otherRoot, previous, _, _, _, fixed, _⟩ :=
    planned.exists_outer found (fits.parent.trans (hosted.outer row member root))
  obtain rfl := planned.row_eq otherMember member
    (otherRoot.trans (hosted.live.fragment.trans root.symm))
  rw [planned.laid _ member]
  have first : previous ∈ alone.graph.expand other.slots :=
    PartGraph.mem_expand.mpr ⟨_, fixed, by simp [PartGraph.slotNodes]⟩
  exact List.ne_nil_of_mem first

theorem shown_shared (hosted : Hosted alone shared start rows base image host)
    (target : alone.graph.parts[index]?.map Part.target = some (.nodes number content nested?))
    (prepared : shared.Prepares number (content.map image) (.value value?) document (nodes.map image))
    (member : row ∈ rows) (split : row.slots = before ++ .region number source :: after)
    (found : alone.graph.regions[number]? = some region)
    (children : shared.document.children (Document.seat image start.graph.fragment host row.home) =
      lead ++ (alone.document.children row.home).map image ++ trail)
    (inside : row.home ≠ start.graph.fragment → lead = [] ∧ trail = []) :
    let graph := alone.graph.setTarget index (.nodes number nodes nested?)
    (shared.setValue index value?).graph = (graph.setRegion number
        { region with rendered := graph.nodesOf region, detached := false }).rename image ∧
      document.Regrouped (Document.seat image start.graph.fragment host row.home)
        (lead ++ (alone.graph.expand before ++ graph.nodesOf region ++
          alone.graph.expand after).map image ++ trail) (shared.setValue index value?).document := by
  intro graph
  obtain ⟨span, placed, parentEq, cuts, settled, _⟩ :=
    hosted.exists_place member split found children inside
  have sharedTarget : shared.graph.parts[index]?.map Part.target =
      some (.nodes number (content.map image) (nested?.map (Nested.rename image))) :=
    hosted.shared_target target
  have sharedFound := hosted.shared_region found
  have sharedGraph : shared.graph.setTarget index
      (.nodes number (nodes.map image) (nested?.map (Nested.rename image))) = graph.rename image := by
    rw [hosted.graph, ← PartGraph.setTarget_rename]
    rfl
  have bound := (Region.exists_cuts_of_place? hosted.sound.wellFormed
    (hosted.sound.known sharedFound) placed).1
  have apart := (prepared.apart rfl hosted.sound.wellFormed bound).imp_right
    (And.imp_right fun new id listed => (new id listed).2)
  have shownBefore : shared.graph.nodesOf (region.rename image) =
      (alone.graph.nodesOf region).map image := by
    rw [hosted.graph, PartGraph.nodesOf_rename]
  have reconciled :=
    (reconcileRegion_of_place hosted.sound sharedTarget prepared sharedFound placed).1
  have regrouped := regrouped_of_place hosted.sound sharedTarget prepared sharedFound placed
    (shownBefore.symm ▸ cuts) apart
  rw [write_of_prepares sharedTarget prepared rfl]
  dsimp only at regrouped reconciled
  rw [sharedGraph, PartGraph.nodesOf_rename] at regrouped reconciled
  rw [sharedGraph]
  constructor
  · rw [reconciled, settled, ← PartGraph.setRegion_rename]
    rfl
  · rw [parentEq] at regrouped
    simpa only [List.map_append, List.append_assoc] using regrouped

theorem known_of_listed (hosted : Hosted alone shared start rows base image host)
    (target : alone.graph.parts[index]?.map Part.target = some (.nodes number content nested?))
    (prepared : alone.Prepares number content (.value value?) document nodes)
    {sharedDocument : Document}
    (known : ∀ id ∈ nodes, document.Made base id ∧ (id ∈ content ∨
      document.parent? id = none ∧ sharedDocument.parent? (other id) = none))
    (member : row ∈ rows) (split : row.slots = before ++ .region number source :: after)
    (found : alone.graph.regions[number]? = some region) :
    ∀ id ∈ alone.graph.expand before ++
      (alone.graph.setTarget index (.nodes number nodes nested?)).nodesOf region ++
        alone.graph.expand after, document.Made base id ∧ (id ∈ document.children row.home ∨
          document.parent? id = none ∧ sharedDocument.parent? (other id) = none) := by
  have home := hosted.made_home member
  have children := prepared.links.children_eq row.home home.2
  intro id inside
  rcases hosted.live.mem_of_listed target member split found inside with old | new
  · have made := hosted.embedded.made_of_child hosted.live.wellFormed home old
    exact ⟨⟨made.1, prepared.links.has made.2⟩, Or.inl (children ▸ old)⟩
  · obtain ⟨made, origin⟩ := known id new
    refine ⟨made, origin.imp_left fun inContent => ?_⟩
    rw [children]
    exact hosted.live.mem_of_content target member split found inContent

theorem of_nodes (hosted : Hosted alone shared start rows base image host)
    (target : alone.graph.parts[index]?.map Part.target = some (.nodes number content nested?))
    (value? : Option String) : ∃ later, Advanced alone shared (alone.setValue index value?)
      (shared.setValue index value?) start rows base image later host := by
  have live := hosted.live
  have unique : (Write.value value?).nodes.Nodup := List.nodup_nil
  have brought : ∀ id ∈ (Write.value value?).nodes, alone.document.Has id ∧
      ¬ start.document.Has id ∧ alone.document.parent? id = none := by rintro _ ⟨⟩
  obtain ⟨document, nodes, prepared, set⟩ := alone.exists_prepared target value?
  obtain ⟨later, sharedDocument, agree, sharedPrepared, embedded, tended, spaced, known⟩ :=
    hosted.exists_prepares target prepared
  have coversEq := Document.covers_congr base agree
  -- The new number is none of the old ones, so that the new images serve from the start.
  have renumbered := hosted.congr agree
  obtain ⟨region, row, before, after, exchange⟩ := live.exists_exchange target prepared unique brought
  have nowLive := live.of_prepares target prepared unique brought
  have kept : (shared.setValue index value?).Sound := sound_write hosted.sound index (.value value?)
  obtain ⟨source, split⟩ := exchange.split
  have home := hosted.made_home exchange.member
  obtain ⟨lead, trail, children, beside, inside⟩ :=
    renumbered.embedded.exists_beside hosted.sound.wellFormed home
  obtain ⟨graph, regrouped⟩ := renumbered.shown_shared target sharedPrepared exchange.member split
    exchange.found children inside
  rw [set]
  generalize reconcileRegion ⟨document, alone.graph.setTarget index (.nodes number nodes nested?)⟩
    number = result at exchange nowLive ⊢
  generalize shared.setValue index value? = sharedNow at graph regrouped kept ⊢
  have wellFormed := prepared.wellFormed live.wellFormed
  have sharedWellFormed := sharedPrepared.wellFormed hosted.sound.wellFormed
  have homeNow : document.Made base row.home := ⟨home.1, prepared.links.has home.2⟩
  have childrenNow := prepared.links.children_eq row.home home.2
  have seatNow := sharedPrepared.links.children_eq _ (renumbered.embedded.has_seat home)
  rw [children, ← childrenNow] at seatNow
  -- What stands beside the instance is not its own, and preparing a write makes none of it its own.
  have besideNow : ∀ id ∈ lead ++ trail, ¬ document.Covers base later id := by
    intro id member covered
    have inSeat : id ∈ shared.document.children
        (Document.seat later start.graph.fragment host row.home) := by
      rw [children]
      simp only [List.mem_append] at member ⊢
      tauto
    have has := hosted.sound.wellFormed.has_child inSeat
    exact beside id member (coversEq ▸ tended.own_of_owned has covered)
  have listed := hosted.known_of_listed target prepared known exchange.member split exchange.found
  have embeddedNow := embedded.regrouped wellFormed sharedWellFormed homeNow seatNow besideNow inside
    (fun id member => (listed id member).1) (fun id member => (listed id member).2)
    exchange.regrouped regrouped
  have refersNow : result.graph.Refers (result.document.Made base) := by
    rw [exchange.graph, Document.made_of_size exchange.regrouped.size]
    have earlier := hosted.refers.mono fun id made =>
      (⟨made.1, prepared.links.has made.2⟩ : document.Made base id)
    refine (earlier.setTarget index (.nodes number nodes nested?) ?_).setRegion _ _
    rintro _ _ nested ⟨⟩
    exact earlier.template target
  have nonempty : Document.seat later start.graph.fragment host row.home = host →
      document.children row.home ≠ [] :=
    fun same => childrenNow ▸ renumbered.children_ne_nil exchange.member split same
  obtain ⟨tendedNow, spacedNow⟩ := embedded.tended_of_regrouped wellFormed sharedWellFormed homeNow
    seatNow (fun id member => (listed id member).1) (fun id member => (listed id member).2) nonempty
    regrouped
  have coversNow := Document.covers_of_size exchange.regrouped.size base later
  exact ⟨later, ⟨nowLive, hosted.homes, hosted.outer, refersNow, kept,
    graph.trans (congrArg _ exchange.graph.symm), embeddedNow⟩, agree _ hosted.embedded.root.2,
    coversNow ▸ tendedNow.trans tended, spacedNow.trans hosted.sound.wellFormed spaced tended⟩

theorem of_value (hosted : Hosted alone shared start rows base image host) (index : Nat)
    (value? : Option String) : ∃ later, Advanced alone shared (alone.setValue index value?)
      (shared.setValue index value?) start rows base image later host := by
  cases target : alone.graph.parts[index]?.map Part.target with
  | none =>
      have sharedTarget : shared.graph.parts[index]?.map Part.target = none :=
        hosted.shared_target target
      have unchanged : alone.setValue index value? = alone ∧ shared.setValue index value? = shared := by
        simp only [setValue, target, sharedTarget, and_self]
      rw [unchanged.1, unchanged.2]
      exact ⟨image, hosted.stays⟩
  | some known =>
      rcases known with ⟨number, old?⟩ | ⟨number, content, nested?⟩
      · exact ⟨image, hosted.of_attribute target value?⟩
      · exact hosted.of_nodes target value?

theorem assign (hosted : Hosted alone shared start rows base image host) (state : Json) (index : Nat) :
    ∃ later, Advanced alone shared (Scene.assign state alone index) (Scene.assign state shared index)
      start rows base image later host := by
  have same : shared.assigned? state index = alone.assigned? state index := by
    rw [assigned?, assigned?, hosted.graph, PartGraph.parts_rename]
    cases alone.graph.parts[index]? <;> rfl
  rw [Scene.assign, Scene.assign, same]
  cases alone.assigned? state index with
  | none => exact ⟨image, hosted.stays⟩
  | some value => exact hosted.of_value index value.shown

theorem foldl_assign (hosted : Hosted alone shared start rows base image host) (state : Json)
    (indices : List Nat) :
    ∃ later, Advanced alone shared (indices.foldl (Scene.assign state) alone)
      (indices.foldl (Scene.assign state) shared) start rows base image later host := by
  induction indices generalizing alone shared image with
  | nil => exact ⟨image, hosted.stays⟩
  | cons index rest ih =>
      obtain ⟨middle, next⟩ := hosted.assign state index
      obtain ⟨later, last⟩ := ih next.hosted
      exact ⟨later, last.trans next hosted.sound.wellFormed⟩

/-- Bringing the instance to a state does in the shared document what it does alone. -/
theorem assignAll (hosted : Hosted alone shared start rows base image host) (state : Json) :
    ∃ later, Advanced alone shared (alone.assignAll state) (shared.assignAll state) start rows base
      image later host := by
  have size : shared.graph.parts.size = alone.graph.parts.size := by
    rw [hosted.graph]
    exact Array.size_map
  rw [Scene.assignAll, Scene.assignAll, size]
  exact hosted.foldl_assign state _

end Hosted

end LiveTemplate.Scene
