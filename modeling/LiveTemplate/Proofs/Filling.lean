import LiveTemplate.Proofs.Planting
import LiveTemplate.Proofs.Reconciling

/-! What showing a region makes of a document: the children of the parent are its nodes between the
siblings that stay, what gave way to them stands nowhere, and all other nodes lose only those. -/

namespace LiveTemplate

namespace Tree

variable {α : Type}

mutual

def prune (drops : α → Bool) : Tree α → Tree α
  | node label children => node label (pruneForest drops children)

def pruneForest (drops : α → Bool) : List (Tree α) → List (Tree α)
  | [] => []
  | tree :: rest =>
    if drops tree.label then pruneForest drops rest else prune drops tree :: pruneForest drops rest

end

theorem pruneForest_eq (drops : α → Bool) (trees : List (Tree α)) :
    pruneForest drops trees = (trees.filter fun tree => !drops tree.label).map (prune drops) := by
  induction trees with
  | nil => rfl
  | cons tree rest ih =>
      rw [pruneForest, ih]
      cases dropped : drops tree.label <;> simp [dropped]

end Tree

namespace Document

/-- The document in which some children of a parent gave way to other nodes, taken from wherever they
were: the siblings before and after those stay around the new nodes, unless they are new nodes
themselves. -/
structure Replaced (document : Document) (parent : NodeId) (before between after nodes : List NodeId)
    (result : Document) : Prop where
  size : result.size = document.size
  content : ∀ id, result.content id = document.content id
  children : result.children parent =
    before.filter (fun id => id ∉ nodes) ++ nodes ++ after.filter (fun id => id ∉ nodes)
  others : ∀ id, id ≠ parent →
    result.children id = (document.children id).filter fun child => child ∉ nodes
  placed : ∀ id ∈ nodes, result.parent? id = some parent
  freed : ∀ id ∈ between, id ∉ nodes → result.parent? id = none ∧
    result.layout id = (document.layout id).prune fun other => other ∈ nodes
  kept : ∀ id, id ∉ nodes → id ∉ between → result.parent? id = document.parent? id

variable {document result : Document} {span : Span} {nodes before between after : List NodeId}

theorem label_layoutUpTo (document : Document) (limit : Nat) (id : NodeId) :
    (document.layoutUpTo limit id).label = id := by
  cases limit <;> rfl

/-- Below a node that is not above the parent, a tree loses the nodes that went to the parent. -/
theorem layoutUpTo_of_others {parent : NodeId} (wellFormed : document.WellFormed)
    (others : ∀ id, id ≠ parent →
      result.children id = (document.children id).filter fun child => child ∉ nodes)
    (limit : Nat) (id : NodeId) (notAbove : ¬ document.IsAbove id parent) :
    result.layoutUpTo limit id = (document.layoutUpTo limit id).prune fun other => other ∈ nodes := by
  induction limit generalizing id with
  | zero => rfl
  | succ limit ih =>
      -- The parent is the one node that gains children, and no node below `id` is the parent.
      have differ : id ≠ parent := by
        rintro rfl
        exact notAbove Relation.ReflTransGen.refl
      have labels : ((fun tree : Tree NodeId => !decide (tree.label ∈ nodes)) ∘
          document.layoutUpTo limit) = fun child => decide (child ∉ nodes) := by
        funext child
        simp [label_layoutUpTo]
      rw [layoutUpTo, layoutUpTo, Tree.prune, Tree.pruneForest_eq, List.filter_map, labels, others id differ,
        List.map_map]
      congr 1
      refine List.map_congr_left fun child member => ih child fun above => notAbove ?_
      exact Relation.ReflTransGen.head ((wellFormed.linked id child).mp (List.mem_filter.mp member).1) above

section
variable (wellFormed : document.WellFormed)
  (cuts : span.Cuts (document.children span.parent) before between after)
  (regrouped : document.Regrouped span.parent
    (before.filter (fun id => id ∉ nodes) ++ nodes ++ after.filter (fun id => id ∉ nodes)) result)

include wellFormed cuts

theorem parent?_of_cuts {id : NodeId} (member : id ∈ before ++ between ++ after) :
    document.parent? id = some span.parent :=
  (wellFormed.linked _ id).mp (cuts.split ▸ member)

include regrouped

theorem Regrouped.children_of_ne {id : NodeId} (differ : id ≠ span.parent) :
    result.children id = (document.children id).filter fun child => child ∉ nodes := by
  rw [regrouped.children, if_neg differ]
  refine List.filter_congr fun child member => ?_
  -- A child of another node is no sibling, so that of the regrouped nodes it can only be a new one.
  have away : child ∉ before ++ between ++ after := by
    intro listed
    have linked := (wellFormed.linked id child).mp member
    rw [parent?_of_cuts wellFormed cuts listed, Option.some.injEq] at linked
    exact differ linked.symm
  simp only [List.mem_append, not_or] at away
  simp [away]

theorem Regrouped.parent?_of_kept {id : NodeId} (unlisted : id ∉ nodes) (outside : id ∉ between) :
    result.parent? id = document.parent? id := by
  rw [regrouped.parent?]
  by_cases child : document.parent? id = some span.parent
  · have member := (wellFormed.linked _ id).mpr child
    rw [cuts.split] at member
    simp only [List.mem_append, outside, or_false] at member
    rw [if_pos (by simpa [unlisted] using member), child]
  · have away : id ∉ before ∧ id ∉ after :=
      ⟨fun left => child (parent?_of_cuts wellFormed cuts (by simp [left])),
        fun right => child (parent?_of_cuts wellFormed cuts (by simp [right]))⟩
    rw [if_neg (by simp [unlisted, away]), if_neg child]

theorem Regrouped.freed {id : NodeId} (member : id ∈ between) (unlisted : id ∉ nodes) :
    result.parent? id = none ∧
      result.layout id = (document.layout id).prune fun other => other ∈ nodes := by
  have linked : document.parent? id = some span.parent :=
    parent?_of_cuts wellFormed cuts (by simp [member])
  have unique := wellFormed.unique span.parent
  rw [cuts.split, List.append_assoc, List.nodup_append', List.nodup_append'] at unique
  obtain ⟨_, ⟨_, _, apartAfter⟩, apartBefore⟩ := unique
  have notBefore : id ∉ before := fun left => apartBefore left (by simp [member])
  have notAfter : id ∉ after := fun right => apartAfter member right
  constructor
  · rw [regrouped.parent?, if_neg (by simp [unlisted, notBefore, notAfter]), if_pos linked]
  · have notAbove : ¬ document.IsAbove id span.parent :=
      wellFormed.not_isAbove_of_child ((wellFormed.linked _ id).mpr linked)
    rw [layout, layout, regrouped.size]
    exact layoutUpTo_of_others wellFormed (fun _ => regrouped.children_of_ne wellFormed cuts) _ id notAbove

theorem Regrouped.replaced : document.Replaced span.parent before between after nodes result where
  size := regrouped.size
  content := regrouped.content
  children := by rw [regrouped.children, if_pos rfl]
  others := fun _ => regrouped.children_of_ne wellFormed cuts
  placed := fun id member => by rw [regrouped.parent?, if_pos (by simp [member])]
  freed := fun _ => regrouped.freed wellFormed cuts
  kept := fun _ => regrouped.parent?_of_kept wellFormed cuts

end

theorem replaced_fill (wellFormed : document.WellFormed) (bound : document.Has span.parent)
    (cuts : span.Cuts (document.children span.parent) before between after)
    (adoptable : document.Adoptable span.parent nodes)
    (apart : ∀ id, span.next? = some id → id ∉ nodes) :
    document.Replaced span.parent before between after nodes (document.fill span nodes) :=
  (regrouped_fill wellFormed bound cuts adoptable apart).replaced wellFormed cuts

end Document

namespace Scene

variable {scene : Scene} {index : Nat} {region : Region}

/-- A region that is found shows its nodes in order between its anchors, and a region that owns its
parent shows them as all of its content. -/
theorem replaced_reconcileRegion (wellFormed : scene.document.WellFormed)
    (found : scene.graph.regions[index]? = some region) (known : region.Known scene.document)
    (unique : (scene.graph.nodesOf region).Nodup)
    (kind : ∀ id ∈ scene.graph.nodesOf region, scene.document.kind id ≠ .fragment) :
    (region.owning = false → ∀ span, region.span? scene.document = some span →
      (∀ id ∈ scene.graph.nodesOf region, span.previous? ≠ some id ∧ span.next? ≠ some id ∧
        ¬ scene.document.IsAbove id span.parent) →
      ∃ before between after, span.Cuts (scene.document.children span.parent) before between after ∧
        scene.document.Replaced span.parent before between after (scene.graph.nodesOf region)
          (scene.reconcileRegion index).document ∧
        (scene.reconcileRegion index).graph = scene.graph.setRegion index
          { region with
            previous? := span.previous?
            next? := span.next?
            rendered := scene.graph.nodesOf region
            detached := false }) ∧
    (region.owning = true → ∀ parent, region.parent? = some parent →
      (∀ id ∈ scene.graph.nodesOf region, ¬ scene.document.IsAbove id parent) →
      scene.document.Replaced parent [] (scene.document.children parent) []
          (scene.graph.nodesOf region) (scene.reconcileRegion index).document ∧
        (scene.reconcileRegion index).graph = scene.graph.setRegion index
          { region with rendered := scene.graph.nodesOf region, detached := false }) := by
  have bound : ∀ id ∈ scene.graph.nodesOf region, scene.document.Has id :=
    fun id member => Document.has_of_kind (kind id member)
  constructor
  · intro partly span spanFound apart
    have placed : region.place? scene.document = some span := by
      rw [Region.place?, partly, if_neg Bool.false_ne_true, spanFound]
    obtain ⟨has, before, between, after, cuts⟩ := Region.exists_cuts_of_place? wellFormed known placed
    refine ⟨before, between, after, cuts, ?_, ?_⟩ <;> rw [reconcileRegion_eq scene found, placed]
    · exact Document.replaced_fill wellFormed has cuts
        ⟨unique, bound, kind, fun id member => (apart id member).2.2⟩
        fun id next member => (apart id member).2.1 next
    · simp only [Region.settle, partly, if_neg Bool.false_ne_true]
  · intro owning parent recorded notAbove
    have placed : region.place? scene.document = some ⟨parent, none, none⟩ := by
      rw [Region.place?, owning, if_pos rfl, recorded]
      rfl
    have cuts : Span.Cuts ⟨parent, none, none⟩ (scene.document.children parent) []
        (scene.document.children parent) [] := ⟨by simp, rfl, rfl⟩
    rw [reconcileRegion_eq scene found, placed]
    refine ⟨?_, by simp only [Region.settle, owning, if_true]⟩
    exact Document.replaced_fill wellFormed (known.parent parent recorded) cuts
      ⟨unique, bound, kind, notAbove⟩ (by simp)

def crowdedDocument : Document :=
  (Document.new.graft (.node (.element "p" []) [.node (.text "a") [], .node (.element "i" []) [],
    .node (.element "b" []) [.node (.text "q") [], .node (.text "u") []], .node (.text "d") [],
    .node (.comment "s") []])).2

def crowdedScene : Scene where
  document := crowdedDocument
  graph :=
    { fragment := ⟨1⟩
      parts := #[⟨"x", .nodes 0 [⟨7⟩] none⟩, ⟨"y", .nodes 1 [⟨8⟩] none⟩]
      bindings := #[]
      regions := #[⟨some ⟨1⟩, some ⟨3⟩, some ⟨8⟩, false, [.literal ⟨5⟩, .part 0, .literal ⟨2⟩], [], true⟩,
        ⟨some ⟨4⟩, none, none, true, [.literal ⟨6⟩, .part 1], [], true⟩] }

theorem replaced_crowded :
    (∃ before between after,
      Span.Cuts ⟨⟨1⟩, some ⟨3⟩, some ⟨8⟩⟩ (crowdedDocument.children ⟨1⟩) before between after ∧
      crowdedDocument.Replaced ⟨1⟩ before between after [⟨5⟩, ⟨7⟩, ⟨2⟩]
        (crowdedScene.reconcileRegion 0).document ∧
      (crowdedScene.reconcileRegion 0).graph = crowdedScene.graph.setRegion 0
        ⟨some ⟨1⟩, some ⟨3⟩, some ⟨8⟩, false, [.literal ⟨5⟩, .part 0, .literal ⟨2⟩],
          [⟨5⟩, ⟨7⟩, ⟨2⟩], false⟩) ∧
    crowdedDocument.Replaced ⟨4⟩ [] (crowdedDocument.children ⟨4⟩) [] [⟨6⟩, ⟨8⟩]
        (crowdedScene.reconcileRegion 1).document ∧
      (crowdedScene.reconcileRegion 1).graph = crowdedScene.graph.setRegion 1
        ⟨some ⟨4⟩, none, none, true, [.literal ⟨6⟩, .part 1], [⟨6⟩, ⟨8⟩], false⟩ := by
  have wellFormed : crowdedScene.document.WellFormed :=
    Document.wellFormed_graft Document.wellFormed_new
      ⟨by simp [Tree.preorder, Tree.preorderForest, Content.attributes],
        by simp [Tree.children, Tree.preorder, Tree.preorderForest, Content.kind]⟩
  have has (index : Nat) (bound : index < 9) : crowdedScene.document.Has ⟨index⟩ := by
    have size : crowdedScene.document.size = 9 := by decide +kernel
    rwa [Document.Has, size]
  have apart (id other : NodeId) (known : crowdedScene.document.isInclusiveAncestor id other = false) :
      ¬ crowdedScene.document.IsAbove id other := by
    rw [← wellFormed.isInclusiveAncestor_iff, known]
    exact Bool.false_ne_true
  constructor
  · refine (@replaced_reconcileRegion _ 0 _ wellFormed rfl ⟨?_, ?_, ?_, ?_⟩ (by decide +kernel)
      (by decide +kernel)).1 rfl ⟨⟨1⟩, some ⟨3⟩, some ⟨8⟩⟩ (by decide +kernel) ?_
    · rintro _ ⟨⟩
      exact has 1 (by decide)
    · rintro _ ⟨⟩
      exact has 3 (by decide)
    · rintro _ ⟨⟩
      exact has 8 (by decide)
    · rintro _ ⟨⟩
    · have free : ∀ id ∈ ([⟨5⟩, ⟨7⟩, ⟨2⟩] : List NodeId), some (⟨3⟩ : NodeId) ≠ some id ∧
          some (⟨8⟩ : NodeId) ≠ some id ∧ crowdedScene.document.isInclusiveAncestor id ⟨1⟩ = false := by
        decide +kernel
      exact fun id member => ⟨(free id member).1, (free id member).2.1, apart _ _ (free id member).2.2⟩
  · have free : ∀ id ∈ ([⟨6⟩, ⟨8⟩] : List NodeId),
        crowdedScene.document.isInclusiveAncestor id ⟨4⟩ = false := by decide +kernel
    refine (@replaced_reconcileRegion _ 1 _ wellFormed rfl ⟨?_, ?_, ?_, ?_⟩
      (by decide +kernel) (by decide +kernel)).2 rfl ⟨4⟩ rfl fun id member => apart _ _ (free id member)
    · rintro _ ⟨⟩
      exact has 4 (by decide)
    · rintro _ ⟨⟩
    · rintro _ ⟨⟩
    · rintro _ ⟨⟩

end Scene

end LiveTemplate
