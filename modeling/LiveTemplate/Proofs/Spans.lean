import LiveTemplate.Proofs.Moves

/-! Where regions are found: a span that is found lies between two siblings in order, it only
depends on the links between known nodes, and when it is filled it shows its nodes exactly if none
of them is an anchor or stands above the parent. -/

namespace LiveTemplate

namespace Document

theorem mem_of_successor? {id other : NodeId} {siblings : List NodeId}
    (found : successor? id siblings = some other) : other ∈ siblings := by
  rw [successor?] at found
  exact (List.dropWhile_sublist _).subset (List.mem_of_getElem? found)

theorem parent?_of_mem_siblings {document : Document} (wellFormed : document.WellFormed)
    {id other : NodeId} (member : other ∈ document.siblings id) :
    document.parent? other = document.parent? id := by
  rw [siblings] at member
  cases linked : document.parent? id with
  | none => simp [linked] at member
  | some parent =>
      rw [linked] at member
      exact (wellFormed.linked parent other).mp member

theorem parent?_of_next? {document : Document} (wellFormed : document.WellFormed)
    {id other : NodeId} (found : document.next? id = some other) :
    document.parent? other = document.parent? id :=
  parent?_of_mem_siblings wellFormed (mem_of_successor? found)

theorem parent?_of_previous? {document : Document} (wellFormed : document.WellFormed)
    {id other : NodeId} (found : document.previous? id = some other) :
    document.parent? other = document.parent? id :=
  parent?_of_mem_siblings wellFormed (List.mem_reverse.mp (mem_of_successor? found))

theorem isChild_iff (document : Document) (id parent : NodeId) :
    document.isChild id parent = true ↔ document.parent? id = some parent := by
  simp [isChild]

end Document

namespace Region

structure Known (region : Region) (document : Document) : Prop where
  parent : ∀ id, region.parent? = some id → document.Has id
  previous : ∀ id, region.previous? = some id → document.Has id
  next : ∀ id, region.next? = some id → document.Has id
  rendered : ∀ id ∈ region.rendered, document.Has id

def candidate? (region : Region) (document : Document) (parent : NodeId) : Option Span :=
  match region.previous?.all (document.isChild · parent),
    region.next?.all (document.isChild · parent) with
  | true, true => some ⟨parent, region.previous?, region.next?⟩
  | true, false =>
    (region.rendered.getLast?.filter (document.isChild · parent)).map fun last =>
      ⟨parent, region.previous?, document.next? last⟩
  | false, true =>
    (region.rendered.head?.filter (document.isChild · parent)).map fun first =>
      ⟨parent, document.previous? first, region.next?⟩
  | false, false => none

theorem spanUnder?_eq (region : Region) (document : Document) (parent : NodeId) :
    region.spanUnder? document parent =
      (region.candidate? document parent).filter (Span.isOrdered · document) :=
  rfl

variable {region : Region} {document : Document} {parent : NodeId} {span : Span}

theorem linked_of_stays {anchor? : Option NodeId}
    (stays : anchor?.all (document.isChild · parent) = true) (id : NodeId)
    (anchor : anchor? = some id) : document.parent? id = some parent := by
  rw [anchor, Option.all_some] at stays
  exact (document.isChild_iff id parent).mp stays

theorem linked_of_candidate? (wellFormed : document.WellFormed)
    (found : region.candidate? document parent = some span) :
    span.parent = parent ∧
      (∀ id, span.previous? = some id → document.parent? id = some parent) ∧
      ∀ id, span.next? = some id → document.parent? id = some parent := by
  rw [candidate?] at found
  split at found
  · rename_i previousStays nextStays
    rw [← Option.some.inj found]
    exact ⟨rfl, linked_of_stays previousStays, linked_of_stays nextStays⟩
  · rename_i previousStays _
    obtain ⟨last, lastFound, rfl⟩ := Option.map_eq_some_iff.mp found
    have lastLinked := (document.isChild_iff last parent).mp (Option.filter_eq_some_iff.mp lastFound).2
    refine ⟨rfl, linked_of_stays previousStays, ?_⟩
    intro id next
    exact (Document.parent?_of_next? wellFormed next).trans lastLinked
  · rename_i _ nextStays
    obtain ⟨first, firstFound, rfl⟩ := Option.map_eq_some_iff.mp found
    have firstLinked :=
      (document.isChild_iff first parent).mp (Option.filter_eq_some_iff.mp firstFound).2
    refine ⟨rfl, ?_, linked_of_stays nextStays⟩
    intro id previous
    exact (Document.parent?_of_previous? wellFormed previous).trans firstLinked
  · exact absurd found (by simp)

theorem isOrdered_iff_of_linked (wellFormed : document.WellFormed) {first second : NodeId}
    (previous : span.previous? = some first) (next : span.next? = some second)
    (firstLinked : document.parent? first = some parent)
    (secondLinked : document.parent? second = some parent) :
    span.isOrdered document = true ↔
      (document.children parent).idxOf first < (document.children parent).idxOf second := by
  have firstMember := (wellFormed.linked parent first).mpr firstLinked
  rw [Span.isOrdered, previous, next]
  simp only [Bool.and_eq_true, bne_iff_ne, Bool.not_eq_true']
  rw [← Bool.not_eq_true, wellFormed.precedes_siblings_iff secondLinked firstLinked]
  constructor
  · rintro ⟨different, notBefore⟩
    have distinctPlaces : (document.children parent).idxOf first ≠
        (document.children parent).idxOf second := by
      intro same
      exact different ((List.idxOf_inj firstMember).mp same)
    omega
  · intro before
    refine ⟨?_, by omega⟩
    rintro rfl
    omega

theorem exists_cuts_of_span? (wellFormed : document.WellFormed) (known : region.Known document)
    (found : region.span? document = some span) :
    document.Has span.parent ∧ ∃ before between after,
      span.Cuts (document.children span.parent) before between after := by
  obtain ⟨parent, candidate, under⟩ := List.exists_of_findSome?_eq_some found
  rw [spanUnder?_eq, Option.filter_eq_some_iff] at under
  obtain ⟨parentEq, previousLinked, nextLinked⟩ := linked_of_candidate? wellFormed under.1
  rw [parentEq]
  constructor
  · rw [parents] at candidate
    split at candidate
    · rename_i recorded recordedEq
      rw [List.mem_singleton.mp candidate]
      exact known.parent recorded recordedEq
    · obtain ⟨child, _, linked⟩ := List.mem_filterMap.mp candidate
      exact wellFormed.has_parent linked
  · apply Span.exists_cuts (wellFormed.unique parent)
    · exact fun id previous => (wellFormed.linked parent id).mpr (previousLinked id previous)
    · exact fun id next => (wellFormed.linked parent id).mpr (nextLinked id next)
    · intro first second previous next
      exact (isOrdered_iff_of_linked wellFormed previous next (previousLinked first previous)
        (nextLinked second next)).mp under.2

section

variable {result : Document}

theorem isChild_eq (kept : result.KeepsLinks document) {id : NodeId} (bound : document.Has id)
    (parent : NodeId) : result.isChild id parent = document.isChild id parent := by
  rw [Document.isChild, Document.isChild, kept.parent?_eq id bound]

theorem stays_eq (kept : result.KeepsLinks document) {anchor? : Option NodeId}
    (bound : ∀ id, anchor? = some id → document.Has id) (parent : NodeId) :
    anchor?.all (result.isChild · parent) = anchor?.all (document.isChild · parent) := by
  cases anchor? with
  | none => rfl
  | some id => simp [isChild_eq kept (bound id rfl)]

theorem filter_isChild_eq (kept : result.KeepsLinks document) {known? : Option NodeId}
    (bound : ∀ id, known? = some id → document.Has id) (parent : NodeId) :
    known?.filter (result.isChild · parent) = known?.filter (document.isChild · parent) := by
  cases known? with
  | none => rfl
  | some id => simp [Option.filter, isChild_eq kept (bound id rfl)]

theorem candidate?_eq (kept : result.KeepsLinks document) (wellFormed : document.WellFormed)
    (known : region.Known document) (parent : NodeId) :
    region.candidate? result parent = region.candidate? document parent := by
  have lastBound : ∀ id, region.rendered.getLast? = some id → document.Has id :=
    fun id last => known.rendered id (List.mem_of_getLast? last)
  have firstBound : ∀ id, region.rendered.head? = some id → document.Has id :=
    fun id first => known.rendered id (List.mem_of_head? first)
  rw [candidate?, candidate?, stays_eq kept known.previous, stays_eq kept known.next,
    filter_isChild_eq kept lastBound, filter_isChild_eq kept firstBound]
  split
  · rfl
  · apply Option.map_congr
    intro last found
    rw [Document.next?, Document.next?,
      kept.siblings_eq wellFormed (lastBound last (Option.filter_eq_some_iff.mp found).1)]
  · apply Option.map_congr
    intro first found
    rw [Document.previous?, Document.previous?,
      kept.siblings_eq wellFormed (firstBound first (Option.filter_eq_some_iff.mp found).1)]
  · rfl

theorem spanUnder?_keepsLinks (kept : result.KeepsLinks document)
    (wellFormed : document.WellFormed) (resultWellFormed : result.WellFormed)
    (known : region.Known document) (parent : NodeId) :
    region.spanUnder? result parent = region.spanUnder? document parent := by
  rw [spanUnder?_eq, spanUnder?_eq, candidate?_eq kept wellFormed known]
  cases found : region.candidate? document parent with
  | none => rfl
  | some span =>
      obtain ⟨_, previousLinked, nextLinked⟩ := linked_of_candidate? wellFormed found
      have sameOrder : span.isOrdered result = span.isOrdered document := by
        rw [Span.isOrdered, Span.isOrdered]
        split
        · rename_i previous next previousEq nextEq
          rw [kept.precedes_eq wellFormed resultWellFormed
            (Document.has_of_parent? (nextLinked next nextEq))
            (Document.has_of_parent? (previousLinked previous previousEq))]
        · rfl
      simp [Option.filter, sameOrder]

theorem parents_keepsLinks (kept : result.KeepsLinks document) (known : region.Known document) :
    region.parents result = region.parents document := by
  rw [parents, parents]
  split
  · rfl
  · apply List.filterMap_congr
    intro id member
    apply kept.parent?_eq
    simp only [List.mem_append, Option.mem_toList] at member
    rcases member with (rendered | next) | previous
    · exact known.rendered id rendered
    · exact known.next id next
    · exact known.previous id previous

/-- A region is found in the same place as long as the known nodes keep their links. -/
theorem span?_keepsLinks (kept : result.KeepsLinks document) (wellFormed : document.WellFormed)
    (resultWellFormed : result.WellFormed) (known : region.Known document) :
    region.span? result = region.span? document := by
  rw [span?, span?, parents_keepsLinks kept known]
  congr 1
  funext parent
  exact spanUnder?_keepsLinks kept wellFormed resultWellFormed known parent

end

end Region

namespace Document

variable {document : Document} {span : Span} {nodes before between after : List NodeId}

/-- A filled span shows its nodes between its anchors exactly if no node is an anchor and none
stands above the parent. -/
theorem fill_cuts_iff (wellFormed : document.WellFormed) (parentBound : document.Has span.parent)
    (cuts : span.Cuts (document.children span.parent) before between after)
    (unique : nodes.Nodup) (kind : ∀ id ∈ nodes, document.kind id ≠ .fragment) :
    (∃ left right, span.Cuts ((document.fill span nodes).children span.parent) left nodes right) ↔
      (∀ id ∈ nodes, span.previous? ≠ some id) ∧ (∀ id ∈ nodes, span.next? ≠ some id) ∧
        ∀ id ∈ nodes, ¬ document.IsAbove id span.parent := by
  constructor
  -- Children are listed once, so that an anchor is none of the nodes between the anchors.
  · rintro ⟨left, right, shown⟩
    obtain ⟨listed, regrouped, adoptable, _⟩ := fill_regrouped wellFormed parentBound cuts kind
    rw [regrouped.children, if_pos rfl] at shown
    have listedUnique := adoptable.unique
    rw [shown.split, List.append_assoc, List.nodup_append, List.nodup_append] at listedUnique
    obtain ⟨_, ⟨_, _, apartRight⟩, apartLeft⟩ := listedUnique
    refine ⟨?_, ?_, ?_⟩
    · intro id member previous
      rw [← shown.previous] at previous
      exact apartLeft id (List.mem_of_getLast? previous) id (by simp [member]) rfl
    · intro id member next
      rw [← shown.next] at next
      exact apartRight id member id (List.mem_of_head? next) rfl
    · intro id member
      exact adoptable.notAbove id (by simp [shown.split, member])
  · rintro ⟨notPrevious, notNext, notAbove⟩
    have adoptable : document.Adoptable span.parent nodes :=
      ⟨unique, fun id member => has_of_kind (kind id member), kind, notAbove⟩
    refine ⟨before.filter (fun id => id ∉ nodes), after.filter (fun id => id ∉ nodes),
      children_fill wellFormed parentBound cuts adoptable
        (fun id next member => notNext id member next), ?_, ?_⟩
    · rw [← cuts.previous]
      rcases List.eq_nil_or_concat before with rfl | ⟨start, last, rfl⟩
      · rfl
      · have kept : last ∉ nodes := by
          intro member
          exact notPrevious last member (by simp [← cuts.previous])
        simp [kept]
    · rw [← cuts.next]
      cases after with
      | nil => rfl
      | cons head rest =>
          have kept : head ∉ nodes := by
            intro member
            exact notNext head member (by simp [← cuts.next])
          simp [kept]

end Document

end LiveTemplate
