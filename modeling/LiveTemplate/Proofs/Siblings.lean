import LiveTemplate.Document.Edit
import LiveTemplate.Template.Span
import Mathlib.Data.List.Nodup
import Mathlib.Data.List.TakeWhile

/-! Lists of siblings without repetitions: neighbours, the three runs into which two anchors cut
them, and what placing nodes among them gives. -/

namespace LiveTemplate

theorem notMem_of_nodup_split {α : Type} {before after : List α} {item : α}
    (unique : (before ++ item :: after).Nodup) : item ∉ before := by
  intro member
  rw [List.nodup_append] at unique
  exact unique.2.2 item member item (by simp) rfl

theorem bne_of_notMem {α : Type} [DecidableEq α] {before : List α} {item : α} (fresh : item ∉ before) :
    ∀ other ∈ before, (other != item) = true := by
  intro other member
  simp only [bne_iff_ne]
  rintro rfl
  exact fresh member

theorem nodup_exchange {before between nodes after : List NodeId}
    (unique : (before ++ between ++ after).Nodup) (nodesUnique : nodes.Nodup)
    (fresh : ∀ id ∈ nodes, id ∉ before ∧ id ∉ after) : (before ++ nodes ++ after).Nodup := by
  rw [List.append_assoc, List.nodup_append', List.nodup_append'] at unique
  obtain ⟨beforeUnique, ⟨_, afterUnique, _⟩, apart⟩ := unique
  refine List.nodup_append'.mpr ⟨List.nodup_append'.mpr ⟨beforeUnique, nodesUnique, ?_⟩, afterUnique, ?_⟩
  · exact fun id left member => (fresh id member).1 left
  · intro id member right
    rcases List.mem_append.mp member with left | inside
    · exact apart left (List.mem_append_right _ right)
    · exact (fresh id inside).2 right

namespace Document

theorem successor?_split {before after : List NodeId} {id : NodeId} (fresh : id ∉ before) :
    successor? id (before ++ id :: after) = after.head? := by
  rw [successor?, List.dropWhile_append_of_pos (bne_of_notMem fresh)]
  simp [List.head?_eq_getElem?]

theorem successor?_reverse_split {before after : List NodeId} {id : NodeId} (fresh : id ∉ after) :
    successor? id (before ++ id :: after).reverse = before.getLast? := by
  have turned : (before ++ id :: after).reverse = after.reverse ++ id :: before.reverse := by simp
  rw [turned, successor?_split (by simpa using fresh), List.head?_reverse]

section
variable {document : Document} {parent id : NodeId} {before after : List NodeId}
  (linked : document.parent? id = some parent)
  (split : document.children parent = before ++ id :: after)
  (unique : (document.children parent).Nodup)

include linked split unique

theorem next?_of_split : document.next? id = after.head? := by
  rw [split] at unique
  rw [next?, siblings, linked]
  dsimp only
  rw [split]
  exact successor?_split (notMem_of_nodup_split unique)

theorem previous?_of_split : document.previous? id = before.getLast? := by
  rw [split, List.nodup_append', List.nodup_cons] at unique
  rw [previous?, siblings, linked]
  dsimp only
  rw [split]
  exact successor?_reverse_split unique.2.1.1

end

theorem place_none (moved children : List NodeId) :
    place moved none children = children.filter (fun id => !moved.contains id) ++ moved := by
  rfl

theorem dropWhile_split {before after : List NodeId} {reference : NodeId} (fresh : reference ∉ before) :
    (before ++ reference :: after).dropWhile (· != reference) = reference :: after := by
  rw [List.dropWhile_append_of_pos (bne_of_notMem fresh)]
  simp

theorem dropWhile_absent {siblings : List NodeId} {reference : NodeId} (absent : reference ∉ siblings) :
    siblings.dropWhile (· != reference) = [] :=
  List.dropWhile_eq_nil_iff.mpr (bne_of_notMem absent)

theorem place_absent {siblings moved : List NodeId} {reference : NodeId} (absent : reference ∉ siblings) :
    place moved (some reference) siblings = place moved none siblings := by
  have passed : siblings.takeWhile (· != reference) = siblings :=
    List.takeWhile_eq_self_iff.mpr (bne_of_notMem absent)
  rw [place_none, place, passed, dropWhile_absent absent]
  simp

theorem insertBefore_of_notMem {document : Document} {parent reference : NodeId} (id : NodeId)
    (missing : reference ∉ document.children parent) :
    document.insertBefore parent id (some reference) = document.insertBefore parent id none := by
  simp only [insertBefore, place_absent missing]

/-- Nodes placed before the first of the last siblings stand between the two groups. -/
theorem place_split {before after moved : List NodeId} (unique : (before ++ after).Nodup) :
    place moved after.head? (before ++ after) =
      before.filter (fun id => !moved.contains id) ++ moved ++
        after.filter (fun id => !moved.contains id) := by
  cases after with
  | nil => simp [place_none]
  | cons next rest =>
      have passed := bne_of_notMem (notMem_of_nodup_split unique)
      simp only [List.head?_cons, place]
      rw [List.takeWhile_append_of_pos passed, List.dropWhile_append_of_pos passed]
      simp

theorem mem_place {moved children : List NodeId} {reference? : Option NodeId} {id : NodeId} :
    id ∈ place moved reference? children ↔ id ∈ moved ∨ id ∈ children := by
  cases reference? with
  | none =>
      rw [place_none]
      by_cases member : id ∈ moved <;> simp [member]
  | some reference =>
      have parts : id ∈ children ↔ id ∈ children.takeWhile (· != reference) ∨
          id ∈ children.dropWhile (· != reference) := by
        rw [← List.mem_append, List.takeWhile_append_dropWhile]
      simp only [place, List.mem_append, List.mem_filter, parts]
      by_cases member : id ∈ moved <;> simp [member]

theorem nodup_place {moved children : List NodeId} {reference? : Option NodeId}
    (movedUnique : moved.Nodup) (unique : children.Nodup) :
    (place moved reference? children).Nodup := by
  cases reference? with
  | none =>
      rw [place_none, List.nodup_append]
      refine ⟨unique.filter _, movedUnique, ?_⟩
      rintro first stays second member rfl
      simp [member] at stays
  | some reference =>
      have whole := unique
      rw [← List.takeWhile_append_dropWhile (p := (· != reference)) (l := children),
        List.nodup_append] at whole
      rw [place, List.nodup_append, List.nodup_append]
      refine ⟨⟨whole.1.filter _, movedUnique, ?_⟩, whole.2.1.filter _, ?_⟩
      · rintro first stays second member rfl
        simp [member] at stays
      · rintro first left second right rfl
        rcases List.mem_append.mp left with earlier | member
        · exact whole.2.2 first (List.mem_filter.mp earlier).1 first
            (List.mem_filter.mp right).1 rfl
        · simp [member] at right

end Document

namespace Span

/-- The siblings are those up to the first anchor, those between the anchors, and those from the
second anchor on. A missing anchor leaves nothing on its side. -/
structure Cuts (span : Span) (siblings before between after : List NodeId) : Prop where
  split : siblings = before ++ between ++ after
  previous : before.getLast? = span.previous?
  next : after.head? = span.next?

theorem nodes_eq_of_cuts {span : Span} {document : Document} {before between after : List NodeId}
    (cuts : span.Cuts (document.children span.parent) before between after)
    (unique : (document.children span.parent).Nodup) : span.nodes document = between := by
  obtain ⟨parent, previous?, next?⟩ := span
  obtain ⟨split, rfl, rfl⟩ := cuts
  have behind : nodes ⟨parent, before.getLast?, none⟩ document = between ++ after := by
    simp only [nodes]
    rcases List.eq_nil_or_concat before with rfl | ⟨start, previous, rfl⟩
    · simpa using split
    · have whole : document.children parent = start ++ previous :: (between ++ after) := by
        simpa using split
      have fresh : previous ∉ start := by
        rw [whole] at unique
        exact notMem_of_nodup_split unique
      simp only [List.concat_eq_append, List.getLast?_append, List.getLast?_singleton, Option.some_or]
      rw [whole, List.dropWhile_append_of_pos (bne_of_notMem fresh)]
      simp
  cases after with
  | nil => simpa using behind
  | cons next rest =>
      have fresh : next ∉ between := by
        rw [split] at unique
        exact fun member => notMem_of_nodup_split unique (List.mem_append_right _ member)
      calc nodes ⟨parent, before.getLast?, some next⟩ document
        _ = (nodes ⟨parent, before.getLast?, none⟩ document).takeWhile (· != next) := rfl
        _ = between := by
          rw [behind, List.takeWhile_append_of_pos (bne_of_notMem fresh)]
          simp

theorem exists_cuts {span : Span} {siblings : List NodeId} (unique : siblings.Nodup)
    (previous : ∀ id, span.previous? = some id → id ∈ siblings)
    (next : ∀ id, span.next? = some id → id ∈ siblings)
    (ordered : ∀ first second, span.previous? = some first → span.next? = some second →
      siblings.idxOf first < siblings.idxOf second) :
    ∃ before between after, span.Cuts siblings before between after := by
  cases previousEq : span.previous? with
  | none =>
      cases nextEq : span.next? with
      | none => exact ⟨[], siblings, [], by simp, by simp [previousEq], by simp [nextEq]⟩
      | some second =>
          obtain ⟨left, right, split⟩ := List.append_of_mem (next second nextEq)
          exact ⟨[], left, second :: right, by simp [split], by simp [previousEq], by simp [nextEq]⟩
  | some first =>
      obtain ⟨left, right, split⟩ := List.append_of_mem (previous first previousEq)
      cases nextEq : span.next? with
      | none =>
          exact ⟨left ++ [first], right, [], by simp [split], by simp [previousEq],
            by simp [nextEq]⟩
      | some second =>
          have order := ordered first second previousEq nextEq
          have fresh : first ∉ left := by
            rw [split] at unique
            exact notMem_of_nodup_split unique
          have firstIndex : siblings.idxOf first = left.length := by
            rw [split, List.idxOf_append_of_notMem fresh]
            simp
          have secondRight : second ∈ right := by
            have member := next second nextEq
            rw [split] at member
            rcases List.mem_append.mp member with earlier | later
            · have early : siblings.idxOf second < left.length := by
                rw [split, List.idxOf_append_of_mem earlier]
                exact List.idxOf_lt_length_of_mem earlier
              omega
            · rcases List.mem_cons.mp later with same | rest
              · subst same
                omega
              · exact rest
          obtain ⟨middle, rest, rightSplit⟩ := List.append_of_mem secondRight
          exact ⟨left ++ [first], middle, second :: rest, by simp [split, rightSplit],
            by simp [previousEq], by simp [nextEq]⟩

end Span

end LiveTemplate
