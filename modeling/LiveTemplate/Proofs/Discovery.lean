import LiveTemplate.Command.Listing
import LiveTemplate.Proofs.Engines

/-! Which parts a template has: what its placeholders and nested templates say, in document order,
whatever making the parts does to the copy. -/

namespace LiveTemplate

namespace Glyph

def HasClosing (glyphs : List Glyph) : Prop :=
  ∃ inside first second after, glyphs = inside ++ first :: second :: after ∧
    first.closes = true ∧ second.closes = true

def Terminated (glyphs : List Glyph) : Prop :=
  ∃ before first second rest, glyphs = before ++ first :: second :: rest ∧
    first.opens = true ∧ second.opens = true ∧ HasClosing rest

variable {first second : Glyph} {glyphs rest : List Glyph}

theorem HasClosing.of_suffix (closing : HasClosing rest) (suffix : rest <:+ glyphs) :
    HasClosing glyphs := by
  obtain ⟨front, rfl⟩ := suffix
  obtain ⟨inside, third, fourth, after, rfl, closes⟩ := closing
  exact ⟨front ++ inside, third, fourth, after, (List.append_assoc ..).symm, closes⟩

theorem hasClosing_cons (apart : ¬ (first.closes && second.closes) = true) :
    HasClosing (first :: second :: rest) ↔ HasClosing (second :: rest) := by
  constructor
  · rintro ⟨inside, third, fourth, after, split, closes⟩
    cases inside with
    | nil =>
        cases split
        exact (apart ((Bool.and_eq_true _ _).mpr closes)).elim
    | cons _ inside =>
        rw [List.cons_append, List.cons.injEq] at split
        exact ⟨inside, third, fourth, after, split.2, closes⟩
  · exact fun closing => closing.of_suffix (List.suffix_cons _ _)

theorem terminated_cons (apart : ¬ (first.opens && second.opens) = true) :
    Terminated (first :: second :: rest) ↔ Terminated (second :: rest) := by
  constructor
  · rintro ⟨before, third, fourth, after, split, opens, alsoOpens, closing⟩
    cases before with
    | nil =>
        cases split
        exact (apart ((Bool.and_eq_true _ _).mpr ⟨opens, alsoOpens⟩)).elim
    | cons _ before =>
        rw [List.cons_append, List.cons.injEq] at split
        exact ⟨before, third, fourth, after, split.2, opens, alsoOpens, closing⟩
  · rintro ⟨before, third, fourth, after, split, closes⟩
    exact ⟨first :: before, third, fourth, after, by rw [split]; rfl, closes⟩

theorem terminated_of_opens (opened : (first.opens && second.opens) = true) :
    Terminated (first :: second :: rest) ↔ HasClosing rest := by
  constructor
  · rintro ⟨before, third, fourth, after, split, _, _, closing⟩
    have shorter : after.length ≤ rest.length := by
      have long := congrArg List.length split
      simp only [List.length_append, List.length_cons] at long
      omega
    have left : rest <:+ before ++ third :: fourth :: after := split ▸ ⟨[first, second], rfl⟩
    have right : after <:+ before ++ third :: fourth :: after :=
      ⟨before ++ [third, fourth], by simp⟩
    exact closing.of_suffix (List.suffix_of_suffix_length_le right left shorter)
  · intro closing
    rw [Bool.and_eq_true] at opened
    exact ⟨[], first, second, rest, rfl, opened.1, opened.2, closing⟩

end Glyph

namespace Token

def expression? : Token → Option String
  | literal _ => none
  | placeholder expression => some expression

def expressions (text : String) : List String :=
  (tokenize (trim text.toList)).filterMap expression?

/-- A placeholder follows a literal, so that it is never alone. -/
theorem several_of_placeholder {seen glyphs : List Glyph} {expression : String}
    (member : placeholder expression ∈ scanLiteral seen glyphs) :
    1 < (scanLiteral seen glyphs).length := by
  induction glyphs generalizing seen with
  | nil =>
      rw [scanLiteral] at member
      split at member <;> simp at member
  | cons first rest ih =>
      cases rest with
      | nil => simp [scanLiteral] at member
      | cons second rest =>
          rw [scanLiteral] at member ⊢
          split
          · rename_i opened
            rw [if_pos opened] at member
            have nonempty : scanExpression [] rest ≠ [] := by
              intro none
              simp [none] at member
            rw [List.length_cons]
            have := List.length_pos_iff.mpr nonempty
            omega
          · rename_i closed
            rw [if_neg closed] at member
            exact ih member

theorem scanExpression_ne_nil_iff (seen glyphs : List Glyph) :
    scanExpression seen glyphs ≠ [] ↔ Glyph.HasClosing glyphs := by
  induction glyphs generalizing seen with
  | nil => simp [scanExpression, Glyph.HasClosing]
  | cons first rest ih =>
      cases rest with
      | nil =>
          rw [scanExpression]
          · refine ⟨fun absurd => (absurd rfl).elim, ?_⟩
            rintro ⟨inside, third, fourth, after, split, _⟩
            have long := congrArg List.length split
            simp only [List.length_append, List.length_cons, List.length_nil] at long
            omega
          · simp
      | cons second rest =>
          rw [scanExpression]
          split
          · rename_i ends
            rw [Bool.and_eq_true] at ends
            exact ⟨fun _ => ⟨[], first, second, rest, rfl, ends⟩, fun _ => by simp⟩
          · rename_i runs
            rw [ih, Glyph.hasClosing_cons runs]

theorem exists_placeholder_iff_terminated (seen glyphs : List Glyph) :
    (∃ expression, placeholder expression ∈ scanLiteral seen glyphs) ↔ Glyph.Terminated glyphs := by
  have short (few : List Glyph) (length : few.length ≤ 1) : ¬ Glyph.Terminated few := by
    rintro ⟨before, first, second, rest, split, _⟩
    have long := congrArg List.length split
    simp only [List.length_append, List.length_cons] at long
    omega
  induction glyphs generalizing seen with
  | nil =>
      rw [iff_false_right (short [] (Nat.zero_le 1)), scanLiteral]
      split <;> simp
  | cons first rest ih =>
      cases rest with
      | nil =>
          rw [iff_false_right (short [first] (Nat.le_refl 1)), scanLiteral]
          simp
      | cons second rest =>
          rw [scanLiteral]
          split
          · rename_i opened
            rw [Glyph.terminated_of_opens opened, ← scanExpression_ne_nil_iff []]
            rcases scanExpression_cases [] rest with none | ⟨expression, later, found⟩
            · simp [none]
            · simp [found]
          · rename_i closed
            exact (ih (first :: seen)).trans (Glyph.terminated_cons closed).symm

theorem placeholder_mem_tokenize {text : List Char} {expression : String} :
    placeholder expression ∈ tokenize text ↔ placeholder expression ∈ scanLiteral [] (Glyph.read text) := by
  rw [tokenize]
  split
  · rename_i none
    simp [none]
  · rfl

theorem expressions_ne_nil {text : String} :
    expressions text ≠ [] ↔ ∃ expression, placeholder expression ∈ tokenize (trim text.toList) := by
  rw [expressions, ne_eq, List.filterMap_eq_nil_iff]
  constructor
  · intro some
    by_contra none
    refine some fun token member => ?_
    cases token with
    | literal text => rfl
    | placeholder expression => exact (none ⟨expression, member⟩).elim
  · rintro ⟨expression, member⟩ none
    cases none _ member

theorem expressions_ne_nil_iff (text : String) :
    expressions text ≠ [] ↔ Glyph.Terminated (Glyph.read (trim text.toList)) := by
  rw [expressions_ne_nil, ← exists_placeholder_iff_terminated []]
  exact exists_congr fun _ => placeholder_mem_tokenize

theorem templated?_eq_none {text : String} (none : templated? text = none) : expressions text = [] := by
  by_contra some
  obtain ⟨expression, member⟩ := expressions_ne_nil.mp some
  have several := several_of_placeholder (placeholder_mem_tokenize.mp member)
  have same : tokenize (trim text.toList) = scanLiteral [] (Glyph.read (trim text.toList)) := by
    rw [tokenize]
    split
    · rename_i empty
      simp [empty] at several
    · rfl
  rw [templated?, same] at none
  simp [several] at none

theorem templated?_eq_some {text : String} {tokens : List Token} (some : templated? text = some tokens) :
    tokens.filterMap expression? = expressions text := by
  rw [templated?] at some
  split at some <;> cases some
  rfl

end Token

section Listing

def Part.listing (part : Part) : PartKind × String :=
  (part.kind, part.expression)

def Content.listing : Content → List (PartKind × String)
  | .element _ attributes => attributes.flatMap fun entry =>
      (Token.expressions entry.value).map fun expression => (.attribute, expression)
  | .text data => (Token.expressions data).map fun expression => (.node, expression)
  | _ => []

def Config.expression (config : Config) (content : Content) : String :=
  let written? := Attribute.lookup content.attributes (.plain config.expressionAttribute)
  String.ofList (trim (written?.getD "").toList)

mutual

def Config.listing (config : Config) : Tree Content → List (PartKind × String)
  | .node content children =>
    if config.isTemplate content then [(.inner, config.expression content)]
    else content.listing ++ config.listingAll children

def Config.listingAll (config : Config) : List (Tree Content) → List (PartKind × String)
  | [] => []
  | tree :: rest => config.listing tree ++ config.listingAll rest

end

def Source.listing : Source → List (PartKind × String)
  | .inline tokens => (tokens.filterMap Token.expression?).map fun expression => (.node, expression)
  | .nested expression _ => [(.inner, expression)]

end Listing

namespace Scene

structure Lists (result scene : Scene) (changed : List NodeId) (listing : List (PartKind × String)) :
    Prop where
  listing : result.graph.parts.toList.map Part.listing =
    scene.graph.parts.toList.map Part.listing ++ listing
  has : ∀ id, scene.document.Has id → result.document.Has id
  content : ∀ id, scene.document.Has id → id ∉ changed →
    result.document.content id = scene.document.content id

namespace Lists

variable {start scene result : Scene} {changed later : List NodeId} {first second : List (PartKind × String)}

theorem refl (scene : Scene) : scene.Lists scene [] [] :=
  ⟨(List.append_nil _).symm, fun _ has => has, fun _ _ _ => rfl⟩

theorem trans (last : result.Lists scene later second) (before : scene.Lists start changed first) :
    result.Lists start (changed ++ later) (first ++ second) where
  listing := by rw [last.listing, before.listing, List.append_assoc]
  has := fun id has => last.has id (before.has id has)
  content := by
    intro id has outside
    rw [List.mem_append, not_or] at outside
    rw [last.content id (before.has id has) outside.2, before.content id has outside.1]

theorem weaken (lists : result.Lists scene changed first) (subset : ∀ id ∈ changed, id ∈ later) :
    result.Lists scene later first :=
  ⟨lists.listing, lists.has, fun id has outside => lists.content id has fun member =>
    outside (subset id member)⟩

end Lists

variable {scene : Scene} {config : Config}

theorem lists_addNode (scene : Scene) (content : Content) :
    (scene.addNode content).2.Lists scene [] [] where
  listing := (List.append_nil _).symm
  has := fun _ has => (Document.extends_create _ _).has has
  content := fun _ has _ => (Document.extends_create _ _).content_eq has

theorem lists_addPart (scene : Scene) (part : Part) :
    (scene.addPart part).2.Lists scene [] [part.listing] where
  listing := by simp [addPart]
  has := fun _ has => has
  content := fun _ _ _ => rfl

theorem lists_addAnchor (scene : Scene) (needed : Bool) : (scene.addAnchor needed).2.Lists scene [] [] := by
  cases needed with
  | false => exact .refl scene
  | true => exact lists_addNode scene _

theorem lists_addNodePieces (scene : Scene) (region : Nat) (tokens : List Token) :
    (scene.addNodePieces region tokens).2.Lists scene []
      ((tokens.filterMap Token.expression?).map fun expression => (.node, expression)) := by
  induction tokens generalizing scene with
  | nil => exact .refl scene
  | cons token rest ih =>
      cases token with
      | literal text =>
          rw [addNodePieces]
          split
          · exact ih scene
          · exact (ih _).trans (lists_addNode scene _)
      | placeholder expression => exact (ih _).trans (lists_addPart scene _)

theorem lists_addTextPieces (scene : Scene) (binding : Nat) (tokens : List Token) :
    (scene.addTextPieces binding tokens).2.Lists scene []
      ((tokens.filterMap Token.expression?).map fun expression => (.attribute, expression)) := by
  induction tokens generalizing scene with
  | nil => exact .refl scene
  | cons token rest ih =>
      cases token with
      | literal text =>
          rw [addTextPieces]
          split
          · exact ih scene
          · exact ih scene
      | placeholder expression => exact (ih _).trans (lists_addPart scene _)

theorem lists_addRegion (scene : Scene) (level : Level) (previous? next? : Option NodeId) (id : NodeId)
    (source : Source) :
    (scene.addRegion level previous? next? id source).2.Lists scene [] source.listing := by
  have pieces : (scene.addPieces id source).2.Lists scene [] source.listing := by
    cases source with
    | inline tokens => exact lists_addNodePieces scene _ tokens
    | nested expression directive? => exact lists_addPart scene _
  exact ⟨pieces.listing, pieces.has, pieces.content⟩

theorem lists_reconcileBinding (scene : Scene) {index : Nat} {binding : Binding}
    (found : scene.graph.bindings[index]? = some binding) :
    (scene.reconcileBinding index).Lists scene [binding.element] [] := by
  rw [reconcileBinding_eq _ found]
  refine ⟨(List.append_nil _).symm, fun _ has => Document.keepsKinds_putAttribute.has has, ?_⟩
  intro id _ outside
  rw [Document.content_putAttribute, if_neg (by simpa using outside)]

theorem lists_addBinding (scene : Scene) (id : NodeId) (entry : Attribute) :
    (scene.addBinding id entry).Lists scene [id]
      ((Token.expressions entry.value).map fun expression => (.attribute, expression)) := by
  rw [addBinding]
  split
  · rename_i none
    rw [Token.templated?_eq_none none]
    exact (Lists.refl scene).weaken (by simp)
  · rename_i tokens templated
    have pieces := lists_addTextPieces scene scene.graph.bindings.size tokens
    have bindings := (parted_addTextPieces scene scene.graph.bindings.size tokens).2.1.bindings_eq
    rw [← Token.templated?_eq_some templated]
    dsimp only
    generalize scene.addTextPieces scene.graph.bindings.size tokens = made at pieces bindings ⊢
    obtain ⟨group, later⟩ := made
    dsimp only at pieces bindings ⊢
    have pushed : (later.graph.bindings.push ⟨id, entry.name, group⟩)[scene.graph.bindings.size]? =
        some ⟨id, entry.name, group⟩ := by
      simp [bindings]
    have shown := lists_reconcileBinding ⟨later.document, { later.graph with
      bindings := later.graph.bindings.push ⟨id, entry.name, group⟩ }⟩ pushed
    have bound : Lists ⟨later.document, { later.graph with
        bindings := later.graph.bindings.push ⟨id, entry.name, group⟩ }⟩ scene [] _ :=
      ⟨pieces.listing, pieces.has, pieces.content⟩
    simpa using shown.trans bound

theorem lists_addBindings (scene : Scene) (id : NodeId) :
    (scene.addBindings id).Lists scene [id] ((scene.document.content id).attributes.flatMap fun entry =>
      (Token.expressions entry.value).map fun expression => (.attribute, expression)) := by
  rw [addBindings]
  generalize (scene.document.content id).attributes = entries
  induction entries generalizing scene with
  | nil => exact (Lists.refl scene).weaken (by simp)
  | cons entry rest ih => exact ((ih _).trans (lists_addBinding scene id entry)).weaken (by simp)

theorem lists_arrange (scene : Scene) (parent : NodeId) (ids : List NodeId) :
    Lists { scene with document := scene.document.arrange parent ids } scene [] [] where
  listing := (List.append_nil _).symm
  has := by
    intro id has
    rwa [Document.Has, Document.size_arrange]
  content := fun id _ _ => Document.content_arrange ..

theorem buildBelow_eq (config : Config) (parent : NodeId) (former : List NodeId)
    (fill : Level → Scene → List NodeId × Scene) (scene : Scene) :
    ∃ level kept, buildBelow config parent former fill scene =
      { (fill level scene).2 with document := (fill level scene).2.document.arrange parent kept } :=
  ⟨_, _, rfl⟩

theorem source?_eq_inline {content : Content} {tokens : List Token}
    (found : config.source? content = some (.inline tokens)) :
    config.isTemplate content = false ∧ (Source.inline tokens).listing = content.listing := by
  cases content with
  | text data =>
      obtain ⟨tokens, templated, same⟩ := Option.map_eq_some_iff.mp found
      cases same
      exact ⟨rfl, by rw [Source.listing, Token.templated?_eq_some templated, Content.listing]⟩
  | element tag attributes =>
      rw [Config.source?] at found
      split at found <;> cases found
  | _ => cases found

theorem source?_eq_nested {content : Content} {expression : String} {directive? : Option String}
    (found : config.source? content = some (.nested expression directive?)) :
    config.isTemplate content = true ∧ expression = config.expression content := by
  cases content with
  | text data =>
      obtain ⟨tokens, _, same⟩ := Option.map_eq_some_iff.mp found
      cases same
  | element tag attributes =>
      rw [Config.source?] at found
      split at found
      · rename_i template
        cases found
        exact ⟨template, rfl⟩
      · cases found
  | _ => cases found

theorem source?_eq_none {content : Content} (none : config.source? content = none) :
    config.isTemplate content = false ∧ content.listing = content.attributes.flatMap fun entry =>
      (Token.expressions entry.value).map fun expression => (.attribute, expression) := by
  cases content with
  | text data =>
      rw [Config.source?, Option.map_eq_none_iff] at none
      exact ⟨rfl, by rw [Content.listing, Token.templated?_eq_none none]; rfl⟩
  | element tag attributes =>
      rw [Config.source?] at none
      split at none
      · cases none
      · rename_i plain
        exact ⟨Bool.eq_false_iff.mpr plain, rfl⟩
  | _ => exact ⟨rfl, rfl⟩

mutual

theorem lists_build (config : Config) (level : Level) (previous? : Option NodeId) (framed : Bool)
    (following : List NodeId) (scene : Scene) : ∀ tree : Tree NodeId, tree.preorder.Nodup →
      (∀ id ∈ tree.preorder, scene.document.Has id) →
      (build config level previous? framed following scene tree).2.Lists scene tree.preorder
        (config.listing (tree.map scene.document.content))
  | .node id children, unique, has => by
      rw [Tree.preorder] at unique has
      obtain ⟨outside, childrenUnique⟩ := List.nodup_cons.mp unique
      -- Whatever was made of the node itself, the nodes below it still hold what they did.
      have below (middle : Scene) (own : List (PartKind × String)) (lists : middle.Lists scene [id] own) :
          (buildBelow config id (children.map Tree.label)
            (fun level scene => buildAll config level none false scene children) middle).Lists scene
            (id :: Tree.preorderForest children)
            (own ++ config.listingAll (Tree.mapForest scene.document.content children)) := by
        obtain ⟨level, kept, same⟩ := buildBelow_eq config id (children.map Tree.label)
          (fun level scene => buildAll config level none false scene children) middle
        have known (other : NodeId) (member : other ∈ Tree.preorderForest children) :=
          has other (List.mem_cons_of_mem _ member)
        have contents : Tree.mapForest middle.document.content children =
            Tree.mapForest scene.document.content children := by
          refine Tree.mapForest_congr children fun other member => ?_
          refine lists.content other (known other member) fun same => ?_
          exact outside (List.mem_singleton.mp same ▸ member)
        have inside := lists_buildAll config level none false middle children childrenUnique
          fun other member => lists.has other (known other member)
        rw [contents] at inside
        rw [same]
        simpa using (lists_arrange _ id kept).trans (inside.trans lists)
      rw [Tree.preorder, Tree.map, Config.listing]
      cases found : config.source? (scene.document.content id) with
      | none =>
          obtain ⟨plain, own⟩ := source?_eq_none found
          rw [build_of_plain found, plain, own]
          exact below _ _ (lists_addBindings scene id)
      | some source =>
          rw [build_of_source following found]
          dsimp only
          have leading := lists_addAnchor scene (level.isOuter && !framed)
          generalize scene.addAnchor (level.isOuter && !framed) = first at leading ⊢
          have trailing := lists_addAnchor first.2
            (level.isOuter || following.head?.any (first.2.isSource config))
          generalize first.2.addAnchor
            (level.isOuter || following.head?.any (first.2.isSource config)) = second at trailing ⊢
          have region := lists_addRegion second.2 level (first.1 <|> previous?)
            (second.1 <|> following.head?) id source
          generalize second.2.addRegion level (first.1 <|> previous?)
            (second.1 <|> following.head?) id source = third at region ⊢
          have made : third.2.Lists scene [] source.listing := region.trans (trailing.trans leading)
          cases source with
          | inline tokens =>
              obtain ⟨plain, own⟩ := source?_eq_inline found
              rw [own] at made
              rw [plain]
              exact below _ _ (made.weaken (by simp))
          | nested expression directive? =>
              obtain ⟨template, rfl⟩ := source?_eq_nested found
              rw [template]
              exact made.weaken (by simp)

theorem lists_buildAll (config : Config) (level : Level) (previous? : Option NodeId) (framed : Bool)
    (scene : Scene) : ∀ trees : List (Tree NodeId), (Tree.preorderForest trees).Nodup →
      (∀ id ∈ Tree.preorderForest trees, scene.document.Has id) →
      (buildAll config level previous? framed scene trees).2.Lists scene (Tree.preorderForest trees)
        (config.listingAll (Tree.mapForest scene.document.content trees))
  | [], _, _ => by
      rw [buildAll]
      exact .refl scene
  | tree :: rest, unique, has => by
      rw [Tree.preorderForest] at unique has
      obtain ⟨here, later, apart⟩ := List.nodup_append'.mp unique
      rw [buildAll]
      dsimp only
      have first := lists_build config level previous? framed (rest.map Tree.label) scene tree here
        fun id member => has id (List.mem_append_left _ member)
      generalize build config level previous? framed (rest.map Tree.label) scene tree = made at first ⊢
      have hasLater : ∀ id ∈ Tree.preorderForest rest, made.2.document.Has id :=
        fun id member => first.has id (has id (List.mem_append_right _ member))
      have next := lists_buildAll config level made.1.getLast? (scene.isSource config tree.label) made.2
        rest later hasLater
      have same : Tree.mapForest made.2.document.content rest =
          Tree.mapForest scene.document.content rest := by
        refine Tree.mapForest_congr rest fun id member => ?_
        exact first.content id (has id (List.mem_append_right _ member)) fun inside => apart inside member
      rw [same] at next
      exact next.trans first

end

theorem listing_instantiate {document : Document} (wellFormed : document.WellFormed) (config : Config)
    (template : NodeId) :
    (instantiate document config template).graph.parts.toList.map Part.listing =
      config.listingAll (document.forest template) := by
  obtain ⟨root, copy, trees, grafted, copied⟩ := wellFormed.exists_copied template
  have unique := copied.unique
  rw [Tree.preorder, List.nodup_cons] at unique
  have lists := lists_buildAll config .outer none false ⟨copy, .empty root⟩ trees unique.2
    copied.outlined.2.2.has
  rw [Tree.mapForest_eq_map, copied.below] at lists
  rw [instantiate, grafted]
  dsimp only
  rw [copied.layout, Tree.children]
  exact lists.listing

theorem assignAll_null (scene : Scene) : scene.assignAll .null = scene := by
  rw [assignAll]
  generalize List.range scene.graph.parts.size = indices
  induction indices with
  | nil => rfl
  | cons index rest ih => exact ih

theorem assignAllMarkup_null (scene : Scene) : scene.assignAllMarkup .null = (.ok (), scene) := by
  rw [assignAllMarkup]
  generalize List.range scene.graph.parts.size = indices
  induction indices with
  | nil => rfl
  | cons index rest ih => exact ih

end Scene

theorem CommandWorld.resolve_start (document : Document) (type? : Option String) :
    ((CommandWorld.start document).registry 0).resolve type? =
      ⟨if type? = some markupType then .markup else .keyMatching, none⟩ := by
  change (Registry.empty.register markupType ⟨.markup, none⟩).resolve type? = _
  cases type? with
  | none => rfl
  | some type =>
      rw [Registry.resolve, Registry.register]
      by_cases named : type = markupType
      · subst named
        rfl
      · have other : (type == markupType) = false := beq_eq_false_iff_ne.mpr named
        rw [if_neg fun same => named (Option.some.inj same)]
        cases kept : (some type).filter (· != "") with
        | none => rfl
        | some name =>
            obtain ⟨same, _⟩ := Option.filter_eq_some_iff.mp kept
            cases same
            rw [Option.bind_some, List.lookup_cons, other]
            rfl

namespace Document

variable {document : Document}

theorem exists_read {markup : String} {fragment : NodeId}
    (read : new.read? markup = some (fragment, document)) : ∃ trees,
      Markup.read? markup.toList = some trees ∧ document.WellFormed ∧ document.Has fragment ∧
        document.kind fragment = .fragment ∧ document.forest fragment = trees := by
  obtain ⟨trees, treesRead, rfl, rfl⟩ := Scene.Prepares.exists_graft read
  have plantable := Markup.plantable_read treesRead
  have wellFormed := wellFormed_graft wellFormed_new plantable
  have planted := tree_graft wellFormed_new plantable
  change (new.graft (.node .fragment trees)).2.tree ⟨new.size⟩ = _ at planted
  refine ⟨trees, treesRead, wellFormed, ?_, ?_, ?_⟩
  · rw [Has, size_graft]
    exact Nat.lt_add_of_pos_right (Tree.size_pos _)
  · rw [wellFormed.tree_eq] at planted
    rw [kind, (Tree.node.inj planted).1]
    rfl
  · rw [forest, planted]
    rfl

theorem wellFormed_chooseTemplate {fragment : NodeId} (wellFormed : document.WellFormed)
    (has : document.Has fragment) (config : Config) :
    (chooseTemplate document config fragment).2.WellFormed := by
  rw [chooseTemplate]
  split
  · exact wellFormed
  · exact wellFormed_insertBefore (wellFormed_create wellFormed rfl) (Scene.has_create _ _)
      ((extends_create _ _).has has) none

end Document

theorem Except.bind_eq_ok {ε α β : Type} {first : Except ε α} {next : α → Except ε β} {result : β} :
    first >>= next = .ok result ↔ ∃ middle, first = .ok middle ∧ next middle = .ok result := by
  cases first with
  | error error => simp [bind, Except.bind]
  | ok middle => simp [bind, Except.bind]

theorem wellFormed_readTemplate {files : Files} {path : String} {config : Config} {template : NodeId}
    {document : Document} (read : readTemplate files path config = .ok (template, document)) :
    document.WellFormed := by
  obtain ⟨markup, _, chosen⟩ := Except.bind_eq_ok.mp read
  split at chosen
  · cases chosen
  · rename_i fragment source found
    obtain ⟨_, _, wellFormed, has, _⟩ := Document.exists_read found
    have kept := Document.wellFormed_chooseTemplate wellFormed has config
    rw [Except.ok.injEq] at chosen
    rwa [chosen] at kept

def listedLine (index : Nat) (part : PartKind × String) : String :=
  s!"{index}\t{part.1.label}\t{part.2}"

/-- Without a state, no part of a new instance is given a value, neither as text nor as markup. -/
theorem Engine.instantiate_null {Script State : Type} {world : World Script State}
    (interpret : Interpreter Script State) (engine : Engine) (template : NodeId)
    {callback : Callback Script} (known : callback = .markup ∨ callback = .keyMatching)
    (resolved : (world.registry engine.registry).resolve
      (world.document.attribute? template (.plain engine.config.typeAttribute)) = ⟨callback, none⟩) :
    let start := Scene.instantiate world.document engine.config template
    let type? := world.document.attribute? template (.plain engine.config.typeAttribute)
    (engine.instantiate interpret template .null world).1 =
      if start.graph.parts.isEmpty then none else some ⟨type?, engine.registry, start.graph⟩ := by
  intro start type?
  have run : callback.run interpret .null ⟨type?, engine.registry, start.graph⟩
      { world with document := start.document } =
        (.ok (), ⟨type?, engine.registry, start.graph⟩, { world with document := start.document }) := by
    rcases known with rfl | rfl
    · rw [Callback.run, Scene.assignAllMarkup_null]
    · rw [Callback.run, Scene.assignAll_null]
  rw [engine.instantiate_of_run interpret template resolved run]
  exact apply_ite Prod.fst _ _ _

theorem listParts_eq (files : Files) (options : ListingOptions) :
    listParts files options = (do
      let config ← readConfig files options.config?
      let (template, document) ← readTemplate files options.template config
      match config.listingAll (document.forest template) with
      | [] => .error (.noParts options.template)
      | listing => .ok (listing.mapIdx listedLine)) := by
  rw [listParts]
  cases readConfig files options.config? with
  | error error => rfl
  | ok config =>
      cases read : readTemplate files options.template config with
      | error error =>
          simp [bind, Except.bind, read]
      | ok pair =>
          obtain ⟨template, document⟩ := pair
          have wellFormed := wellFormed_readTemplate read
          have listing := Scene.listing_instantiate wellFormed config template
          have made : (Engine.instantiate CommandWorld.noScripts ⟨config, 0⟩ template .null
              (CommandWorld.start document)).1 =
                if (Scene.instantiate document config template).graph.parts.isEmpty then none
                else some ⟨document.attribute? template (.plain config.typeAttribute), 0,
                  (Scene.instantiate document config template).graph⟩ :=
            Engine.instantiate_null CommandWorld.noScripts ⟨config, 0⟩ template (ite_eq_or_eq _ _ _)
              (CommandWorld.resolve_start document _)
          have lines : ∀ parts : List Part, parts.mapIdx listingLine =
              (parts.map Part.listing).mapIdx listedLine := by
            intro parts
            refine List.ext_getElem? fun index => ?_
            rw [List.getElem?_mapIdx, List.getElem?_mapIdx, List.getElem?_map, Option.map_map]
            rfl
          simp only [bind, Except.bind, read]
          rw [made, ← listing]
          generalize (Scene.instantiate document config template).graph = graph
          cases parts : graph.parts.toList with
          | nil =>
              have none : graph.parts.isEmpty = true := by
                rw [← Array.isEmpty_toList, parts]
                rfl
              rw [none]
              rfl
          | cons part rest =>
              have some : graph.parts.isEmpty = false := by
                rw [← Array.isEmpty_toList, parts]
                rfl
              rw [some]
              change Except.ok (graph.parts.toList.mapIdx listingLine) = _
              rw [parts, lines]
              rfl

/-- Under key matching there is an instance exactly if its template lists any parts. -/
theorem Engine.instantiate_eq_none {Script State : Type} {world : World Script State}
    (interpret : Interpreter Script State) (engine : Engine) (template : NodeId) (state : Json)
    (wellFormed : world.document.WellFormed)
    (matching : (world.registry engine.registry).resolve
      (world.document.attribute? template (.plain engine.config.typeAttribute)) =
        ⟨.keyMatching, none⟩) :
    (engine.instantiate interpret template state world).1 = none ↔
      engine.config.listingAll (world.document.forest template) = [] := by
  have parts := Scene.listing_instantiate wellFormed engine.config template
  have made := engine.instantiate_eq interpret template matching state
  dsimp only at made
  have empty : (Scene.instantiate world.document engine.config template).graph.parts.isEmpty = true ↔
      engine.config.listingAll (world.document.forest template) = [] := by
    rw [← Array.isEmpty_toList, List.isEmpty_iff, ← List.map_eq_nil_iff, parts]
  rw [made, ← empty]
  split
  · rename_i none
    exact iff_of_true rfl none
  · rename_i some
    exact iff_of_false (by rintro ⟨⟩) some

/-- The parts of an instance are those that its template lists: in document order, one for every
placeholder and every nested template. Under key matching there is an instance exactly if there are any,
and the command prints exactly these, numbered in order. A text has placeholders exactly if one of them
is terminated. -/
theorem Engine.parts_listed {Script State : Type} {world : World Script State}
    (interpret : Interpreter Script State) (engine : Engine) (template : NodeId) (state : Json)
    (wellFormed : world.document.WellFormed) :
    let listing := engine.config.listingAll (world.document.forest template)
    let type? := world.document.attribute? template (.plain engine.config.typeAttribute)
    (Scene.instantiate world.document engine.config template).graph.parts.toList.map Part.listing =
      listing ∧
    ((world.registry engine.registry).resolve type? = ⟨.keyMatching, none⟩ →
      ((engine.instantiate interpret template state world).1 = none ↔ listing = [])) ∧
    (∀ text, Token.expressions text ≠ [] ↔ Glyph.Terminated (Glyph.read (trim text.toList))) ∧
    ∀ files options, listParts files options = (do
      let config ← readConfig files options.config?
      let (template, document) ← readTemplate files options.template config
      match config.listingAll (document.forest template) with
      | [] => .error (.noParts options.template)
      | listing => .ok (listing.mapIdx listedLine)) := by
  intro listing type?
  exact ⟨Scene.listing_instantiate wellFormed engine.config template,
    engine.instantiate_eq_none interpret template state wellFormed, Token.expressions_ne_nil_iff,
    listParts_eq⟩

theorem Engine.parts_listed_titled :
    Config.standard.listingAll (titledWorld.document.forest ⟨1⟩) =
      [(.node, "x"), (.attribute, "y"), (.node, "x")] ∧
    (Scene.instantiate titledWorld.document .standard ⟨1⟩).graph.parts.toList.map Part.listing =
      Config.standard.listingAll (titledWorld.document.forest ⟨1⟩) ∧
    (Engine.instantiate idle ⟨.standard, 0⟩ ⟨1⟩ .null titledWorld).1 ≠ none := by
  have source : titledSource.WellFormed :=
    Document.wellFormed_edit Document.wellFormed_new trivial
  have wellFormed : titledWorld.document.WellFormed := by
    rw [titledWorld]
    exact source
  have matching (name? : Option String) :
      (titledWorld.registry 0).resolve name? = ⟨.keyMatching, none⟩ := by
    rw [titledWorld]
    exact Registry.resolve_empty name?
  have listing : Config.standard.listingAll (titledWorld.document.forest ⟨1⟩) =
      [(.node, "x"), (.attribute, "y"), (.node, "x")] := by decide +kernel
  have listed := Engine.parts_listed idle ⟨.standard, 0⟩ ⟨1⟩ .null wellFormed
  refine ⟨listing, listed.1, fun none => ?_⟩
  have empty := (listed.2.1 (matching _)).mp none
  rw [listing] at empty
  cases empty

end LiveTemplate
