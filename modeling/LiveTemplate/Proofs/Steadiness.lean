import LiveTemplate.Proofs.BoundAttributes
import LiveTemplate.Proofs.InPlace
import LiveTemplate.Proofs.OrderPreservation

/-! Instances whose parts are given values, texts and markup: as long as nothing else is done to them,
they show their parts everywhere, and what they were made of stays as it was. -/

namespace LiveTemplate

def Content.bare (content : Content) : Content :=
  content.mapAttributes fun _ => []

theorem Content.bare_mapAttributes (content : Content) (change : List Attribute → List Attribute) :
    (content.mapAttributes change).bare = content.bare := by
  cases content <;> rfl

theorem Document.bare_putAttribute (document : Document) (id other : NodeId) (name : AttributeName)
    (value? : Option String) :
    ((document.putAttribute id name value?).content other).bare = (document.content other).bare := by
  rw [content_putAttribute]
  split
  · rename_i same
    rw [same, Content.bare_mapAttributes]
  · rfl

namespace Scene

variable {scene start result : Scene} {rows : List Row} {index number : Nat}
  {content nodes : List NodeId} {nested? : Option Nested} {write : Write} {document : Document}

/-- An instance that stands by itself: regions are in place, attributes show their parts, and the nodes
that it was made of are no part's. These hold what they held but for attributes, and only those that
have a row of their own in the blueprint get other children. -/
structure Steady (scene start : Scene) (rows : List Row) : Prop extends scene.Live start rows where
  shows : ∃ given, Ledger.Shows start ⟨scene, given⟩
  kinds : scene.document.KeepsKinds start.document
  fresh : ∀ {index : Nat} {id : NodeId}, id ∈ scene.graph.contentOf index → ¬ start.document.Has id
  held : ∀ id, start.document.Has id →
    (scene.document.content id).bare = (start.document.content id).bare
  still : ∀ id, start.document.Has id → (∀ row ∈ rows, row.home ≠ id) →
    scene.document.children id = start.document.children id

namespace Steady

theorem of_prepares (steady : scene.Steady start rows)
    (target : scene.graph.parts[index]?.map Part.target = some (.nodes number content nested?))
    (prepared : scene.Prepares number content write document nodes) (textual : write.Textual)
    (overlooks : Overlooks
      (reconcileRegion ⟨document, scene.graph.setTarget index (.nodes number nodes nested?)⟩ number)
      scene) :
    (reconcileRegion ⟨document, scene.graph.setTarget index (.nodes number nodes nested?)⟩
      number).Steady start rows := by
  have live := steady.toLive
  have nothing : write.nodes = [] := textual
  have unique : write.nodes.Nodup := nothing ▸ List.nodup_nil
  have brought : ∀ id ∈ write.nodes, scene.document.Has id ∧ ¬ start.document.Has id ∧
      scene.document.parent? id = none := by
    rw [nothing]
    rintro _ ⟨⟩
  have contentEq : scene.graph.contentOf index = content := PartGraph.contentOf_of_target target
  have resultLive := live.of_prepares target prepared unique brought
  obtain ⟨region, row, before, after, exchange⟩ := live.exists_exchange target prepared unique brought
  refine ⟨resultLive, steady.shows.imp fun _ shows => shows.of_overlooks overlooks rfl,
    (keepsKinds_reconcileRegion _ number).trans (prepared.kinds.trans steady.kinds), ?_, ?_, ?_⟩
  · intro other id member
    rw [PartGraph.contentOf, parts_reconcileRegion] at member
    change id ∈ (scene.graph.setTarget index (.nodes number nodes nested?)).contentOf other at member
    rw [PartGraph.contentOf_setTarget target] at member
    split at member
    · rcases live.eq_or_new prepared unique brought with rfl | ⟨_, new⟩
      · exact steady.fresh (contentEq ▸ member)
      · exact (new id member).1
    · exact steady.fresh member
  · intro id old
    have apart : id ∉ content := fun member => steady.fresh (contentEq ▸ member) old
    rw [content_reconcileRegion, prepared.content_eq (live.has id old) apart]
    exact steady.held id old
  · intro id old apart
    have kept := prepared.links.children_eq id (live.has id old)
    have differ : id ≠ row.home := Ne.symm (apart row exchange.member)
    rw [exchange.regrouped.children_eq (prepared.wellFormed live.wellFormed) differ, kept]
    · exact steady.still id old apart
    · intro child listed linked
      rw [← (prepared.wellFormed live.wellFormed).linked, kept, live.wellFormed.linked] at linked
      rcases exchange.origin_listed live.planned live.wellFormed listed with home | ⟨none, _⟩
      · exact differ (Option.some.inj (linked.symm.trans home))
      · cases none.symm.trans linked

theorem of_write (steady : scene.Steady start rows)
    (target : scene.graph.parts[index]?.map Part.target = some (.nodes number content nested?))
    (textual : write.Textual) : (scene.write index write).2.Steady start rows := by
  have overlooks := overlooks_write target write
  rcases scene.write_cases target write with ⟨error, refused⟩ | ⟨document, nodes, prepared, written⟩
  · rw [refused]
    exact steady
  · rw [written] at overlooks ⊢
    exact steady.of_prepares target prepared textual overlooks

theorem of_value (steady : scene.Steady start rows) (index : Nat) (value? : Option String) :
    (scene.setValue index value?).Steady start rows := by
  cases target : scene.graph.parts[index]?.map Part.target with
  | none => rwa [setValue_of_none target]
  | some known =>
      rcases known with ⟨number, old?⟩ | ⟨number, content, nested?⟩
      · have quiet : (scene.setValue index value?).Quiet scene :=
          scene.quiet_write (by simp [target]) (.value value?)
        obtain ⟨given, shows⟩ := steady.shows
        obtain ⟨binding, found, _⟩ := shows.bound.part target
        have set := setValue_of_attribute target found value?
        refine ⟨steady.toLive.of_quiet quiet, ⟨_, shows.of_value target value?⟩,
          quiet.kinds.trans steady.kinds, ?_, ?_, ?_⟩
        · intro other id member
          rw [quiet.content] at member
          exact steady.fresh member
        · intro id old
          rw [set, Document.bare_putAttribute]
          exact steady.held id old
        · intro id old apart
          rw [quiet.links.children_eq id (steady.has id old)]
          exact steady.still id old apart
      · have kept : (scene.write index (.value value?)).2.Steady start rows :=
          steady.of_write target rfl
        exact kept

theorem of_boolean (steady : scene.Steady start rows) (index : Nat) (present : Bool) :
    (scene.setBoolean index present).2.Steady start rows := by
  rw [setBoolean_eq]
  split
  · exact steady.of_value index _
  · exact steady

theorem of_extends (steady : scene.Steady start rows) (wellFormed : document.WellFormed)
    (extended : document.Extends scene.document) : Steady { scene with document } start rows where
  toLive := steady.toLive.of_quiet (Quiet.of_extends (fun _ => wellFormed) extended)
  shows := by
    have overlooks : Overlooks { scene with document } scene := by
      refine ⟨fun id kind => ?_, rfl, fun _ _ _ => Iff.rfl⟩
      have has : scene.document.Has id := Document.has_of_kind (by rw [kind]; decide)
      exact ⟨(extended.kind_eq has).trans kind, by rw [extended.content_eq has]⟩
    exact steady.shows.imp fun _ shows => shows.of_overlooks overlooks rfl
  kinds := extended.keepsKinds.trans steady.kinds
  fresh := steady.fresh
  held := fun id old => by
    rw [extended.content_eq (steady.has id old)]
    exact steady.held id old
  still := fun id old apart => by
    rw [extended.children_eq (steady.has id old)]
    exact steady.still id old apart

theorem assign (steady : scene.Steady start rows) (state : Json) (index : Nat) :
    (Scene.assign state scene index).Steady start rows := by
  rw [Scene.assign]
  cases scene.assigned? state index with
  | none => exact steady
  | some value => exact steady.of_value index value.shown

theorem foldl_assign (steady : scene.Steady start rows) (state : Json) (indices : List Nat) :
    (indices.foldl (Scene.assign state) scene).Steady start rows := by
  induction indices generalizing scene with
  | nil => exact steady
  | cons next rest ih => exact ih (steady.assign state next)

theorem assignAll (steady : scene.Steady start rows) (state : Json) :
    (scene.assignAll state).Steady start rows :=
  steady.foldl_assign state _

end Steady

theorem Instantiated.steady {config : Config} {template : NodeId} {slots : List Slot}
    (made : Instantiated document config template (instantiate document config template) slots rows)
    (wellFormed : document.WellFormed) :
    (instantiate document config template).Steady (instantiate document config template)
      (⟨(instantiate document config template).graph.fragment, none, slots⟩ :: rows) where
  toLive := made.live
  shows := ⟨_, Ledger.shows_instantiate wellFormed config template⟩
  kinds := .refl _
  fresh := fun {index} id member => by
    rw [made.unwritten.empty] at member
    cases member
  held := fun _ _ => rfl
  still := fun _ _ _ => rfl

/-- The scenes that updates and writes lead to while nodes are made, and whether the fragment was
inserted somewhere on the way. -/
inductive Course (start : Scene) : Bool → Scene → Prop
  | start : Course start false start
  | edit {mounted : Bool} {scene : Scene} {edit : Edit} : Course start mounted scene → edit.Makes →
      scene.document.Allows edit →
      Course start mounted { scene with document := scene.document.edit edit }
  | update {mounted : Bool} {scene : Scene} (state : Json) : Course start mounted scene →
      Course start mounted (scene.assignAll state)
  | value {mounted : Bool} {scene : Scene} (index : Nat) (value? : Option String) :
      Course start mounted scene → Course start mounted (scene.setValue index value?)
  | boolean {mounted : Bool} {scene : Scene} (index : Nat) (present : Bool) :
      Course start mounted scene → Course start mounted (scene.setBoolean index present).2
  | write {mounted : Bool} {scene : Scene} {index number : Nat} {content : List NodeId}
      {nested? : Option Nested} {write : Write} : Course start mounted scene →
      scene.graph.parts[index]?.map Part.target = some (.nodes number content nested?) →
      write.Textual → Course start mounted (scene.write index write).2
  | mount {scene : Scene} {parent : NodeId} (reference? : Option NodeId) :
      Course start false scene → scene.document.Has parent →
      Course start true
        { scene with document := scene.document.insertBefore parent scene.graph.fragment reference? }

theorem Course.steady {base : Scene} {mounted : Bool} (course : Course base mounted scene)
    (free : mounted = false) (steady : base.Steady start rows) : scene.Steady start rows := by
  induction course with
  | start => exact steady
  | edit _ makes allowed ih =>
      exact (ih free).of_extends (Document.wellFormed_edit (ih free).wellFormed allowed)
        (Document.extends_edit makes)
  | update state _ ih => exact (ih free).assignAll state
  | value index value? _ ih => exact (ih free).of_value index value?
  | boolean index present _ ih => exact (ih free).of_boolean index present
  | write _ target textual ih => exact (ih free).of_write target textual
  | mount => cases free

theorem expression_setValue (scene : Scene) (index : Nat) (value? : Option String) (other : Nat) :
    (scene.setValue index value?).graph.parts[other]?.map Part.expression =
      scene.graph.parts[other]?.map Part.expression := by
  cases target : scene.graph.parts[index]?.map Part.target with
  | none => rw [setValue_of_none target]
  | some known =>
      rcases known with ⟨number, old?⟩ | ⟨number, content, nested?⟩
      · have reconciled (next : Scene) : (next.reconcileBinding number).graph = next.graph := by
          cases found : next.graph.bindings[number]? with
          | none => rw [reconcileBinding, found]
          | some binding => rw [reconcileBinding_eq next found]
        simp only [setValue, target, setAttributeValue]
        rw [reconciled]
        exact PartGraph.expression_setTarget ..
      · obtain ⟨document, shown, _, set⟩ := scene.exists_prepared target value?
        rw [set, parts_reconcileRegion]
        exact PartGraph.expression_setTarget ..

end Scene

end LiveTemplate
