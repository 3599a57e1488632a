import LiveTemplate.Proofs.InPlace

/-! What a part tells about its neighbours against what the document has there. They agree but for
the anchors that a region keeps when it owns its parent. -/

namespace LiveTemplate

theorem eq_of_nodup_split {before after start rest : List NodeId} {id : NodeId}
    (unique : (before ++ id :: after).Nodup) (split : before ++ id :: after = start ++ id :: rest) :
    start = before ∧ rest = after := by
  have fresh := (List.nodup_cons.mp (List.nodup_append'.mp unique).2.1).1
  obtain ⟨same, _, rest⟩ :=
    (List.append_cons_inj_of_notMem (notMem_of_nodup_split unique) fresh).mp split
  exact ⟨same.symm, rest.symm⟩

/-- Where two runs of siblings meet, if there are any, is known by what is next to that place. -/
theorem eq_of_ends {left right before after : List NodeId} {previous? next? : Option NodeId}
    (unique : (left ++ right).Nodup) (split : left ++ right = before ++ after)
    (last : left.getLast?.or previous? = before.getLast?)
    (head : right.head?.or next? = after.head?) : before = left ∧ after = right := by
  cases right with
  | cons first rest =>
      obtain ⟨others, rfl⟩ := List.head?_eq_some_iff.mp head.symm
      obtain ⟨beforeEq, rfl⟩ := eq_of_nodup_split unique split
      exact ⟨beforeEq, rfl⟩
  | nil =>
      rw [List.append_nil] at unique split
      rcases List.eq_nil_or_concat left with rfl | ⟨start, final, rfl⟩
      · simpa using split.symm
      · rw [List.concat_eq_append, List.getLast?_concat, Option.some_or] at last
        rw [List.concat_eq_append] at unique split ⊢
        obtain ⟨others, rfl⟩ := List.getLast?_eq_some_iff.mp last.symm
        rw [List.append_assoc] at split
        obtain ⟨rfl, rfl⟩ := eq_of_nodup_split unique split
        exact ⟨rfl, rfl⟩

namespace Document

section
variable {document : Document} {parent : NodeId} {left content right : List NodeId}
  (wellFormed : document.WellFormed) (children : document.children parent = left ++ content ++ right)

include wellFormed children

theorem previous?_of_first {first : NodeId} (head : content.head? = some first) :
    document.previous? first = left.getLast? := by
  obtain ⟨rest, rfl⟩ := List.head?_eq_some_iff.mp head
  have split : document.children parent = left ++ first :: (rest ++ right) := by
    simp [children]
  have linked := (wellFormed.linked parent first).mp (by simp [split])
  exact previous?_of_split linked split (wellFormed.unique parent)

theorem next?_of_last {last : NodeId} (final : content.getLast? = some last) :
    document.next? last = right.head? := by
  obtain ⟨start, rfl⟩ := List.getLast?_eq_some_iff.mp final
  have split : document.children parent = (left ++ start) ++ last :: right := by
    simp [children]
  have linked := (wellFormed.linked parent last).mp (by simp [split])
  exact next?_of_split linked split (wellFormed.unique parent)

end

end Document

namespace PartGraph

variable {graph : PartGraph} {region : Region} {index number : Nat} {content : List NodeId}
  {nested? : Option Nested}

def earlier (graph : PartGraph) (region : Region) (index : Nat) : List NodeId :=
  (region.group.takeWhile (· != .part index)).flatMap graph.pieceNodes

def later (graph : PartGraph) (region : Region) (index : Nat) : List NodeId :=
  (region.group.dropWhile (· != .part index)).tail.flatMap graph.pieceNodes

section
variable {before after : List (Piece NodeId)} (split : region.group = before ++ .part index :: after)
  (fresh : .part index ∉ before)

include split fresh

theorem earlier_of_split : graph.earlier region index = before.flatMap graph.pieceNodes := by
  rw [earlier, split, List.takeWhile_append_of_pos (bne_of_notMem fresh)]
  simp

theorem later_of_split : graph.later region index = after.flatMap graph.pieceNodes := by
  rw [later, split, List.dropWhile_append_of_pos (bne_of_notMem fresh)]
  simp

end

theorem Linked.nodesOf_eq (linked : graph.Linked)
    (target : graph.parts[index]?.map Part.target = some (.nodes number content nested?))
    (found : graph.regions[number]? = some region) :
    graph.nodesOf region = graph.earlier region index ++ content ++ graph.later region index := by
  obtain ⟨recorded, recordedFound, member⟩ := linked.part target
  cases found.symm.trans recordedFound
  obtain ⟨before, after, split⟩ := List.append_of_mem member
  have unique := linked.unique found
  rw [split] at unique
  have fresh := notMem_of_nodup_split unique
  rw [earlier_of_split split fresh, later_of_split split fresh, nodesOf, split]
  simp [pieceNodes, contentOf_of_target target, Target.content]

end PartGraph

namespace Region

variable {region : Region} {document : Document} {parent : NodeId}

theorem currentParent?_of_recorded (wellFormed : document.WellFormed)
    (recorded : region.parent? = some parent) : region.currentParent? document = some parent := by
  have parents : region.parents document = [parent] := by
    rw [Region.parents, recorded]
  rw [currentParent?, parents]
  cases found : region.span? document with
  | none => rfl
  | some span =>
      rw [span?, parents, List.findSome?_singleton, spanUnder?_eq, Option.filter_eq_some_iff] at found
      exact congrArg some (linked_of_candidate? wellFormed found.1).1

end Region

namespace Scene

structure Navigates (scene : Scene) (index : Nat) (content : List NodeId) (parent : NodeId) : Prop where
  previous : ∀ first, content.head? = some first →
    scene.previousOf? index = scene.document.previous? first
  next : ∀ last, content.getLast? = some last → scene.nextOf? index = scene.document.next? last
  between : content = [] → ∃ before after, scene.document.children parent = before ++ after ∧
    scene.previousOf? index = before.getLast? ∧ scene.nextOf? index = after.head?

variable {scene : Scene} {region : Region} {index number : Nat} {parent : NodeId}
  {content lead trail : List NodeId} {nested? : Option Nested}

section
variable (target : scene.graph.parts[index]?.map Part.target = some (.nodes number content nested?))
  (found : scene.graph.regions[number]? = some region)

include target found

theorem regionOf?_of_target : scene.regionOf? index = some region := by
  rw [regionOf?, target]
  exact found

theorem previousOf?_eq :
    scene.previousOf? index = (scene.graph.earlier region index).getLast?.or region.previous? := by
  simp [previousOf?, regionOf?_of_target target found, PartGraph.earlier]

theorem nextOf?_eq :
    scene.nextOf? index = (scene.graph.later region index).head?.or region.next? := by
  simp [nextOf?, regionOf?_of_target target found, PartGraph.later]

variable (wellFormed : scene.document.WellFormed)

include wellFormed

/-- A region between two other runs of siblings has to know their ends only where it shows nothing
itself on that side of the part. -/
theorem navigates_of_ends
    (children : scene.document.children parent = (lead ++ scene.graph.earlier region index) ++
      content ++ (scene.graph.later region index ++ trail))
    (previous : scene.graph.earlier region index = [] → region.previous? = lead.getLast?)
    (next : scene.graph.later region index = [] → region.next? = trail.head?) :
    scene.Navigates index content parent := by
  have previousEq : scene.previousOf? index = (lead ++ scene.graph.earlier region index).getLast? := by
    rw [previousOf?_eq target found, List.getLast?_append]
    cases last : (scene.graph.earlier region index).getLast? with
    | none => rw [previous (List.getLast?_eq_none_iff.mp last)]
    | some id => rfl
  have nextEq : scene.nextOf? index = (scene.graph.later region index ++ trail).head? := by
    rw [nextOf?_eq target found, List.head?_append]
    cases head : (scene.graph.later region index).head? with
    | none => rw [next (List.head?_eq_none_iff.mp head)]
    | some id => rfl
  constructor
  · intro first head
    rw [previousEq, Document.previous?_of_first wellFormed children head]
  · intro last final
    rw [nextEq, Document.next?_of_last wellFormed children final]
  · rintro rfl
    exact ⟨_, _, by simpa using children, previousEq, nextEq⟩

theorem Navigates.ends (navigates : scene.Navigates index content parent)
    (children : scene.document.children parent =
      scene.graph.earlier region index ++ content ++ scene.graph.later region index) :
    (scene.graph.earlier region index = [] → region.previous? = none) ∧
      (scene.graph.later region index = [] → region.next? = none) := by
  have ends : scene.previousOf? index = (scene.graph.earlier region index).getLast? ∧
      scene.nextOf? index = (scene.graph.later region index).head? := by
    rcases List.eq_nil_or_concat content with rfl | ⟨start, last, contentEq⟩
    · -- Only the two neighbours are known here, and where they meet is known from them.
      obtain ⟨before, after, split, previous, next⟩ := navigates.between rfl
      rw [List.append_nil] at children
      have unique := wellFormed.unique parent
      rw [previousOf?_eq target found] at previous
      rw [nextOf?_eq target found] at next
      obtain ⟨rfl, rfl⟩ := eq_of_ends (children ▸ unique) (children.symm.trans split) previous next
      exact ⟨(previousOf?_eq target found).trans previous, (nextOf?_eq target found).trans next⟩
    · have final : content.getLast? = some last := by simp [contentEq]
      obtain ⟨first, head⟩ : ∃ first, content.head? = some first := by
        cases content with
        | nil => simp at final
        | cons first rest => exact ⟨first, rfl⟩
      rw [navigates.previous first head, navigates.next last final,
        Document.previous?_of_first wellFormed children head,
        Document.next?_of_last wellFormed children final]
      exact ⟨rfl, rfl⟩
  rw [previousOf?_eq target found, nextOf?_eq target found] at ends
  constructor
  · intro nothing
    simpa [nothing] using ends.1
  · intro nothing
    simpa [nothing] using ends.2

end

/-- As long as only parts are written to, a part tells its neighbours as the document has them,
exactly if its region does not own its parent or keeps no anchor on a side where it shows nothing
beyond the part. -/
theorem navigates_iff {document : Document} (wellFormed : document.WellFormed) (config : Config)
    (template : NodeId) (writing : Writing (instantiate document config template) scene)
    (target : scene.graph.parts[index]?.map Part.target = some (.nodes number content nested?))
    (found : scene.graph.regions[number]? = some region) :
    ∃ parent, scene.parentOf? index = some parent ∧ (scene.Navigates index content parent ↔
      (region.owning = true →
        (scene.graph.earlier region index = [] → region.previous? = none) ∧
          (scene.graph.later region index = [] → region.next? = none))) := by
  obtain ⟨slots, rows, made⟩ := exists_instantiated wellFormed config template
  have live := writing.live made.live
  obtain ⟨row, member, before, source, after, split, _, _⟩ := live.planned.exists_row found
  obtain ⟨span, placed, parentEq, cuts, _, spanFound, whole⟩ :=
    live.planned.exists_place live.toSound member split found (live.rendered found).1
  have children := live.planned.children_split member split found
  rw [live.linked.nodesOf_eq target found] at children
  refine ⟨row.home, ?_, ?_⟩
  · rw [parentOf?, regionOf?_of_target target found, Option.bind_some]
    cases owning : region.owning with
    | true => exact Region.currentParent?_of_recorded live.wellFormed (whole owning).1
    | false => rw [Region.currentParent?, spanFound owning]
  · cases owning : region.owning with
    | true =>
        obtain ⟨_, rfl, rfl⟩ := whole owning
        have around : scene.document.children row.home =
            ([] ++ scene.graph.earlier region index) ++ content ++
              (scene.graph.later region index ++ []) := by
          simpa using children
        refine ⟨fun navigates _ => ?_, fun ends => ?_⟩
        · exact navigates.ends target found live.wellFormed (by simpa using children)
        · exact navigates_of_ends target found live.wellFormed around (ends rfl).1 (ends rfl).2
    | false =>
        refine ⟨fun _ => Bool.noConfusion, fun _ => ?_⟩
        rw [Region.place?, owning] at placed
        cases placed.symm.trans (spanFound owning)
        refine navigates_of_ends target found live.wellFormed ?_ (fun _ => cuts.previous.symm)
          fun _ => cuts.next.symm
        simpa using children

def spacedSource : Document :=
  Document.new.edit (.read "<p> <template expression=x></template> </p>")

@[irreducible]
def spacedInstance : Scene :=
  instantiate spacedSource .standard ⟨1⟩

def namedInstance : Scene :=
  (spacedInstance.write 0 (.value (some "X"))).2

theorem not_navigates_of_spaced :
    Writing spacedInstance namedInstance ∧ ∃ parent, namedInstance.parentOf? 0 = some parent ∧
      namedInstance.previousOf? 0 = some ⟨8⟩ ∧ namedInstance.document.previous? ⟨11⟩ = none ∧
      ¬ namedInstance.Navigates 0 [⟨11⟩] parent := by
  have wellFormed : spacedSource.WellFormed :=
    Document.wellFormed_edit Document.wellFormed_new trivial
  have writing : Writing spacedInstance namedInstance :=
    Writing.of_textual .start 0 rfl
  have target : namedInstance.graph.parts[0]?.map Part.target =
      some (.nodes 0 [⟨11⟩] (some ⟨⟨9⟩, none⟩)) := by
    decide +kernel
  have found : namedInstance.graph.regions[0]? =
      some ⟨some ⟨7⟩, some ⟨8⟩, some ⟨10⟩, true, [.part 0], [⟨11⟩], false⟩ := by
    decide +kernel
  refine ⟨writing, ?_⟩
  rw [spacedInstance] at writing
  obtain ⟨parent, parentFound, navigates⟩ := navigates_iff wellFormed .standard ⟨1⟩ writing target found
  refine ⟨parent, parentFound, by decide +kernel, by decide +kernel, fun agrees => ?_⟩
  cases (navigates.mp agrees rfl).1 (by decide +kernel)

end Scene

end LiveTemplate
