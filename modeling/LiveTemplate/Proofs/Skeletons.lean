import LiveTemplate.Proofs.Engines
import LiveTemplate.Proofs.RoundTrip

/-! Skeletons: what is left of trees without their texts and attributes. Trees that look the same have
the same skeleton and are written as the same kind of markup, whatever values were filled in. -/

namespace LiveTemplate

namespace Tree

mutual

def skeleton : Tree Content → List (Tree Content)
  | .node (.text _) _ => []
  | .node content children => [.node (content.mapAttributes fun _ => []) (skeletonAll children)]

def skeletonAll : List (Tree Content) → List (Tree Content)
  | [] => []
  | tree :: rest => skeleton tree ++ skeletonAll rest

end

theorem skeleton_congr {content other : Content} {children others : List (Tree Content)}
    (plain : (content.mapAttributes fun _ => []) = other.mapAttributes fun _ => [])
    (below : skeletonAll children = skeletonAll others) :
    skeleton (.node content children) = skeleton (.node other others) := by
  cases content <;> cases other <;> simp_all [skeleton, Content.mapAttributes]

theorem skeletonAll_append (first second : List (Tree Content)) :
    skeletonAll (first ++ second) = skeletonAll first ++ skeletonAll second := by
  induction first with
  | nil => rfl
  | cons tree rest ih => rw [List.cons_append, skeletonAll, skeletonAll, ih, List.append_assoc]

end Tree

namespace Markup

theorem write_prepend (tree : Tree Content) (trees : List (Tree Content)) :
    writeAll (prepend tree trees) = write tree ++ writeAll trees := by
  obtain ⟨content, children⟩ := tree
  rw [prepend]
  split
  · rename_i data isText
    cases isText
    rw [write_text]
    fun_cases joinText data trees
    · rw [writeAll, writeAll, write_text, write_text, String.toList_append, Reference.escape,
        Reference.escape, Reference.escape, List.flatMap_append, List.append_assoc]
    · rename_i empty _
      rw [empty]
      rfl
    · rw [writeAll, write_text]
  · rw [writeAll]

mutual

theorem write_joined : ∀ tree : Tree Content, write (joined tree) = write tree
  | .node _ children => by
      rw [joined, write, write, writeAll_joinedAll children]

theorem writeAll_joinedAll : ∀ trees : List (Tree Content), writeAll (joinedAll trees) = writeAll trees
  | [] => rfl
  | tree :: rest => by
      rw [joinedAll, write_prepend, write_joined tree, writeAll_joinedAll rest, writeAll]

end

theorem skeletonAll_prepend (tree : Tree Content) (trees : List (Tree Content)) :
    Tree.skeletonAll (prepend tree trees) = tree.skeleton ++ Tree.skeletonAll trees := by
  obtain ⟨content, children⟩ := tree
  rw [prepend]
  split
  · rename_i data isText
    cases isText
    fun_cases joinText data trees <;> rfl
  · rfl

mutual

theorem skeleton_joined : ∀ tree : Tree Content, (joined tree).skeleton = tree.skeleton
  | .node _ children => Tree.skeleton_congr rfl (skeletonAll_joinedAll children)

theorem skeletonAll_joinedAll : ∀ trees : List (Tree Content),
    Tree.skeletonAll (joinedAll trees) = Tree.skeletonAll trees
  | [] => rfl
  | tree :: rest => by
      rw [joinedAll, skeletonAll_prepend, skeleton_joined tree, skeletonAll_joinedAll rest,
        Tree.skeletonAll]

end

end Markup

namespace Look

mutual

def skeleton : Look → List (Tree Content)
  | .text _ => []
  | .node (.text _) _ _ => []
  | .node content _ children => [.node content (skeletonAll children)]

def skeletonAll : List Look → List (Tree Content)
  | [] => []
  | look :: rest => skeleton look ++ skeletonAll rest

end

theorem skeletonAll_push (data : String) (rest : List Look) :
    skeletonAll (push data rest) = skeletonAll rest := by
  fun_cases push data rest <;> rfl

end Look

namespace Tree

mutual

theorem skeletonAll_look : ∀ (tree : Tree Content) (rest : List Look),
    Look.skeletonAll (tree.look rest) = tree.skeleton ++ Look.skeletonAll rest
  | .node content children, rest => by
      have below := skeletonAll_looks children
      rw [look]
      generalize looks children = shown at below ⊢
      fun_cases Look.put content shown rest
      · rw [Look.skeletonAll_push, skeleton, List.nil_append]
      · rw [Look.skeletonAll]
        cases content <;> simp [Look.skeleton, skeleton, Content.mapAttributes, below]

theorem skeletonAll_looks : ∀ trees : List (Tree Content),
    Look.skeletonAll (looks trees) = skeletonAll trees
  | [] => rfl
  | tree :: rest => by
      rw [looks, skeletonAll_look tree, skeletonAll_looks rest, skeletonAll]

end

end Tree

mutual

theorem Config.skeletonAll_fill (config : Config) (values others : String → Option (Option String))
    (owned : Bool) : ∀ tree : Tree Content,
      Tree.skeletonAll (config.fill values owned tree) = Tree.skeletonAll (config.fill others owned tree)
  | .node content children => by
      rw [fill, fill]
      split
      · rfl
      · split
        · rfl
        · have plain : ((content.filled values).mapAttributes fun _ => []) =
              (content.filled others).mapAttributes fun _ => [] := by
            rw [Content.filled, Content.filled, Content.mapAttributes_mapAttributes,
              Content.mapAttributes_mapAttributes]
          rw [Tree.skeletonAll, Tree.skeletonAll, Tree.skeleton_congr plain
            (skeletonAll_fillAll config values others _ children)]
          rfl

theorem Config.skeletonAll_fillAll (config : Config) (values others : String → Option (Option String))
    (owned : Bool) : ∀ trees : List (Tree Content),
      Tree.skeletonAll (config.fillAll values owned trees) =
        Tree.skeletonAll (config.fillAll others owned trees)
  | [] => rfl
  | tree :: rest => by
      rw [fillAll, fillAll, Tree.skeletonAll_append, Tree.skeletonAll_append,
        skeletonAll_fill config values others owned tree, skeletonAll_fillAll config values others owned rest]

end

namespace Markup

theorem expressibleAll_append {first second : List (Tree Content)} (start : ExpressibleAll first)
    (later : ExpressibleAll second) : ExpressibleAll (first ++ second) := by
  induction first with
  | nil => exact later
  | cons tree rest ih => exact ⟨start.1, ih start.2⟩

theorem expressibleAll_joinText (data : String) {trees : List (Tree Content)}
    (expressible : ExpressibleAll trees) : ExpressibleAll (joinText data trees) := by
  fun_cases joinText data trees
  · exact ⟨⟨trivial, expressible.1.2⟩, expressible.2⟩
  · exact expressible
  · exact ⟨⟨trivial, fun _ => rfl, trivial⟩, expressible⟩

theorem Writable.filled {content : Content} (writable : Writable content)
    (values : String → Option (Option String)) : Writable (content.filled values) := by
  cases content with
  | element tag entries =>
      obtain ⟨tagged, spelled, distinct⟩ := writable
      have name {entry result : Attribute} (filled : Attribute.filled? values entry = some result) :
          result.name = entry.name := by
        rw [Attribute.filled?] at filled
        split at filled
        · cases filled
          rfl
        · obtain ⟨value, _, rfl⟩ := Option.map_eq_some_iff.mp filled
          rfl
      refine ⟨tagged, fun result member => ?_, ?_⟩
      · obtain ⟨entry, entryMember, filled⟩ := List.mem_filterMap.mp member
        exact name filled ▸ spelled entry entryMember
      · refine distinct.filterMap _ fun first second apart result filled other otherFilled => ?_
        rw [name filled, name otherFilled]
        exact apart
  | _ => exact writable

theorem showsChildren_filled (content : Content) (values : String → Option (Option String)) :
    showsChildren (content.filled values) = showsChildren content := by
  cases content <;> rfl

mutual

theorem expressibleAll_fill (config : Config) (values : String → Option (Option String)) (owned : Bool) :
    ∀ tree : Tree Content, Expressible tree → ExpressibleAll (config.fill values owned tree)
  | .node content children, expressible => by
      rw [Expressible] at expressible
      obtain ⟨writable, childless, below⟩ := expressible
      rw [Config.fill]
      split
      · exact ⟨⟨trivial, fun _ => rfl, trivial⟩, trivial⟩
      · split
        · trivial
        · refine ⟨⟨writable.filled values, fun hidden => ?_, ?_⟩, trivial⟩
          · rw [childless (showsChildren_filled content values ▸ hidden)]
            rfl
          · exact expressibleAll_fillAll config values _ children below

theorem expressibleAll_fillAll (config : Config) (values : String → Option (Option String))
    (owned : Bool) : ∀ trees : List (Tree Content), ExpressibleAll trees →
      ExpressibleAll (config.fillAll values owned trees)
  | [], _ => trivial
  | tree :: rest, expressible => by
      rw [ExpressibleAll] at expressible
      exact expressibleAll_append (expressibleAll_fill config values owned tree expressible.1)
        (expressibleAll_fillAll config values owned rest expressible.2)

end

end Markup

namespace Look

mutual

def Expressible : Look → Prop
  | .text _ => True
  | .node content attribute? children =>
    Markup.Writable content ∧
      (∀ name entry, attribute? name = some entry → Markup.SpelledName entry.name) ∧
      (Markup.showsChildren content = false → children = []) ∧ ExpressibleAll children

def ExpressibleAll : List Look → Prop
  | [] => True
  | look :: rest => Expressible look ∧ ExpressibleAll rest

end

theorem push_eq_nil {data : String} {rest : List Look} : push data rest = [] ↔ data = "" ∧ rest = [] := by
  fun_cases push data rest <;> simp_all

theorem expressibleAll_push (data : String) (rest : List Look) :
    ExpressibleAll (push data rest) ↔ ExpressibleAll rest := by
  fun_cases push data rest <;> simp [ExpressibleAll, Expressible]

end Look

namespace Tree

mutual

theorem expressibleAll_look : ∀ (tree : Tree Content) (rest : List Look), Markup.Expressible tree →
    Look.ExpressibleAll rest → Look.ExpressibleAll (tree.look rest)
  | .node content children, rest, expressible, later => by
      rw [Markup.Expressible] at expressible
      obtain ⟨writable, childless, below⟩ := expressible
      have shown := expressibleAll_looks children below
      have hides : Markup.showsChildren content = false → looks children = [] := by
        intro hidden
        rw [childless hidden]
        rfl
      rw [look]
      generalize looks children = inside at shown hides
      fun_cases Look.put content inside rest
      · exact (Look.expressibleAll_push _ _).mpr later
      · refine ⟨⟨?_, fun name entry found => ?_, fun hidden => hides ?_, shown⟩, later⟩
        · cases content with
          | element tag entries => exact ⟨writable.1, by simp, List.Pairwise.nil⟩
          | _ => exact writable
        · have member := Attribute.mem_of_named? found
          cases content with
          | element tag entries => exact writable.2.1 entry member
          | _ => cases member
        · cases content <;> exact hidden

theorem expressibleAll_looks : ∀ trees : List (Tree Content), Markup.ExpressibleAll trees →
    Look.ExpressibleAll (looks trees)
  | [], _ => trivial
  | tree :: rest, expressible => by
      rw [Markup.ExpressibleAll] at expressible
      exact expressibleAll_look tree _ expressible.1 (expressibleAll_looks rest expressible.2)

end

theorem joinedAll_eq_nil : ∀ trees : List (Tree Content), looks trees = [] → Markup.joinedAll trees = []
  | [], _ => rfl
  | .node content children :: rest, unseen => by
      have later := joinedAll_eq_nil rest
      rw [looks, look] at unseen
      generalize looks children = inside at unseen
      revert unseen
      fun_cases Look.put content inside (looks rest)
      · rename_i data
        intro unseen
        obtain ⟨rfl, others⟩ := Look.push_eq_nil.mp unseen
        rw [Markup.joinedAll, later others]
        rfl
      · rintro ⟨⟩

mutual

theorem expressible_of_look : ∀ (tree : Tree Content) (rest : List Look),
    (∀ content ∈ tree.preorder, Attribute.Distinct content.attributes) →
    Look.ExpressibleAll (tree.look rest) → Look.ExpressibleAll rest ∧
      ∀ trees, Markup.ExpressibleAll trees →
        Markup.ExpressibleAll (Markup.prepend (Markup.joined tree) trees)
  | .node content children, rest, distinct, expressible => by
      have below := expressible_of_looks children fun label member =>
        distinct label (List.mem_cons_of_mem _ member)
      have hides := joinedAll_eq_nil children
      rw [look] at expressible
      generalize looks children = inside at expressible below hides
      revert expressible
      fun_cases Look.put content inside rest
      · rename_i data
        intro expressible
        refine ⟨(Look.expressibleAll_push _ _).mp expressible, fun trees known => ?_⟩
        rw [Markup.prepend]
        exact Markup.expressibleAll_joinText data known
      · rename_i apart
        rintro ⟨⟨writable, spelled, childless, shown⟩, later⟩
        refine ⟨later, fun trees known => ?_⟩
        cases content with
        | text data => exact (apart data rfl (childless rfl)).elim
        | element tag entries =>
            have entriesDistinct := distinct _ (List.mem_cons_self ..)
            refine ⟨⟨⟨writable.1, fun entry member => ?_, entriesDistinct⟩, fun hidden => ?_, below shown⟩,
              known⟩
            · exact spelled entry.name entry (Attribute.named?_of_mem entriesDistinct member)
            · exact hides (childless hidden)
        | _ => exact ⟨⟨writable, fun hidden => hides (childless hidden), below shown⟩, known⟩

/-- Trees whose looks markup can say can be said once their texts are joined. -/
theorem expressible_of_looks : ∀ trees : List (Tree Content),
    (∀ content ∈ preorderForest trees, Attribute.Distinct content.attributes) →
    Look.ExpressibleAll (looks trees) → Markup.ExpressibleAll (Markup.joinedAll trees)
  | [], _, _ => trivial
  | tree :: rest, distinct, expressible => by
      rw [preorderForest] at distinct
      obtain ⟨later, first⟩ := expressible_of_look tree (looks rest)
        (fun content member => distinct content (List.mem_append_left _ member)) expressible
      exact first _ (expressible_of_looks rest
        (fun content member => distinct content (List.mem_append_right _ member)) later)

end

end Tree

end LiveTemplate
