import LiveTemplate.Proofs.Values

/-! What instances look like: their template with the values of its expressions filled in. -/

namespace LiveTemplate

namespace PartGraph

variable {graph : PartGraph} {tokens : List Token} {values : String → Option (Option String)}

def Stands {α : Type} (graph : PartGraph) : Token → Piece α → Prop
  | .literal _, .literal _ => True
  | .placeholder expression, .part index =>
    graph.parts[index]?.map Part.expression = some expression
  | _, _ => False

theorem Spelled.stands {α : Type} {reads : α → String → Prop} {pieces : List (Piece α)}
    (spelled : graph.Spelled reads tokens pieces) :
    List.Forall₂ graph.Stands (tokens.filter (· ≠ .literal "")) pieces := by
  induction spelled with
  | nil => exact .nil
  | empty _ ih => simpa using ih
  | literal shown _ _ ih =>
      rw [List.filter_cons_of_pos (by simpa using shown)]
      exact .cons trivial ih
  | part found _ ih =>
      rw [List.filter_cons_of_pos (by simp)]
      exact .cons found ih

theorem Spelled.textOf_eq {pieces : List (Piece String)} (spelled : graph.Spelled Eq tokens pieces)
    (reads : ∀ index expression, .part index ∈ pieces →
      graph.parts[index]?.map Part.expression = some expression →
        (graph.parts[index]?.bind Part.value?).getD "" = (values expression).join.getD "") :
    String.join (pieces.map graph.pieceText) = String.join (tokens.map (Token.filled values)) := by
  induction spelled with
  | nil => rfl
  | empty _ ih =>
      rw [ih reads, List.map_cons, Token.filled, String.join_cons, String.empty_append]
  | literal _ same _ ih =>
      have rest := ih fun index expression member => reads index expression (by simp [member])
      rw [List.map_cons, List.map_cons, String.join_cons, String.join_cons, rest, pieceText, Token.filled,
        same]
  | part found _ ih =>
      have rest := ih fun index expression member => reads index expression (by simp [member])
      rw [List.map_cons, List.map_cons, String.join_cons, String.join_cons, rest, pieceText, Token.filled,
        reads _ _ (List.mem_cons_self ..) found]

theorem Spelled.valueOf_eq {binding : Binding} (spelled : graph.Spelled Eq tokens binding.pieces)
    (reads : ∀ index expression, .part index ∈ binding.pieces →
      graph.parts[index]?.map Part.expression = some expression →
        (graph.parts[index]?.bind Part.value?).getD "" = (values expression).join.getD "" ∧
          (binding.isWhole = true →
            graph.parts[index]?.bind Part.value? = (values expression).getD (some ""))) :
    graph.valueOf binding = Attribute.filledValue? values tokens := by
  have text : graph.textOf binding = String.join (tokens.map (Token.filled values)) :=
    spelled.textOf_eq fun index expression member known => (reads index expression member known).1
  have stands := spelled.stands
  rw [valueOf, Attribute.filledValue?]
  split
  · rename_i index whole
    rw [whole] at stands
    obtain ⟨token, rest, stand, none, same⟩ := List.forall₂_cons_right_iff.mp stands
    cases none
    rw [same]
    cases token with
    | literal text => exact stand.elim
    | placeholder expression =>
        exact (reads index expression (by rw [whole]; exact List.mem_singleton_self _) stand).2
          (by rw [Binding.isWhole, whole])
  · rename_i several
    split
    · rename_i expression single
      rw [single] at stands
      obtain ⟨piece, rest, stand, none, same⟩ := List.forall₂_cons_left_iff.mp stands
      cases none
      cases piece with
      | literal text => exact stand.elim
      | part index => exact (several index same).elim
    · rw [text]

end PartGraph

namespace Scene

variable {scene start : Scene} {rows : List Row} {values : String → Option (Option String)}
  {given : Nat → Option (Option String)} {id : NodeId} {content : Content}

theorem Valued.gives_eq (valued : scene.Valued start rows given)
    (values : String → Option (Option String)) {index : Nat} {expression : String}
    (known : scene.graph.parts[index]?.map Part.expression = some expression) :
    start.gives values index = values expression := by
  rw [gives, ← valued.expressions, known, Option.bind_some]

theorem Valued.valueOf_eq (valued : scene.Valued start rows (start.gives values)) {index : Nat}
    {binding : Binding} {tokens : List Token} (found : scene.graph.bindings[index]? = some binding)
    (spelled : scene.graph.Spelled Eq tokens binding.pieces) :
    scene.graph.valueOf binding = Attribute.filledValue? values tokens := by
  refine spelled.valueOf_eq fun part expression member known => ?_
  obtain ⟨value?, target⟩ := valued.bound.piece found member
  obtain ⟨recorded, partFound, targetEq⟩ := Option.map_eq_some_iff.mp target
  have value : scene.graph.parts[part]?.bind Part.value? = value? := by
    rw [partFound, Option.bind_some, Part.value?, targetEq]
  rw [value, ← valued.gives_eq values known]
  obtain ⟨text, whole⟩ := valued.stored target
  exact ⟨text, whole binding found⟩

theorem Valued.named?_eq (valued : scene.Valued start rows (start.gives values))
    (displays : scene.Displays id content) (name : AttributeName) :
    Attribute.named? (scene.document.content id).attributes name =
      Attribute.named? (content.filled values).attributes name := by
  have attributes : (content.filled values).attributes =
      content.attributes.filterMap (Attribute.filled? values) := by
    cases content <;> rfl
  have keeps (entry result : Attribute) (filled : Attribute.filled? values entry = some result) :
      result.name = entry.name := by
    rw [Attribute.filled?] at filled
    split at filled
    · cases filled
      rfl
    · obtain ⟨value, _, rfl⟩ := Option.map_eq_some_iff.mp filled
      rfl
  rw [attributes, Attribute.named?_filterMap keeps displays.distinct]
  cases found : Attribute.named? content.attributes name with
  | none =>
      rw [displays.other name (Attribute.named?_eq_none.mp found)]
      rfl
  | some entry =>
      have member := Attribute.mem_of_named? found
      have agrees : entry.name.agrees name = true := Attribute.agrees_of_named? found
      rw [← Attribute.named?_congr agrees, Option.bind_some, Attribute.filled?]
      cases templated : Token.templated? entry.value with
      | none =>
          have bears := displays.entry entry member
          simp only [Bears, templated] at bears
          exact bears
      | some tokens =>
          obtain ⟨index, binding, known, tokensFound, bindingFound, _, _, spelled, shown⟩ :=
            (displays.entry entry member).exists_named (by rw [templated]; rfl)
          cases templated.symm.trans tokensFound
          rw [shown, valued.valueOf_eq bindingFound spelled]

/-- A fixed node looks like the template's with its values. -/
theorem Valued.look_eq (valued : scene.Valued start rows (start.gives values))
    (displays : scene.Displays id content) {children others : List (Tree Content)}
    (below : Tree.looks children = Tree.looks others) (rest : List Look) :
    Tree.look (.node (scene.document.content id) children) rest =
      Tree.look (.node (content.filled values) others) rest := by
  refine Tree.look_congr ?_ (valued.named?_eq displays) below rest
  obtain ⟨entries, same⟩ := displays.same
  rw [same, Content.mapAttributes_mapAttributes, Content.filled, Content.mapAttributes_mapAttributes]

theorem IsText.tree_eq {text : String} (known : scene.IsText id text)
    (wellFormed : scene.document.WellFormed) : scene.document.tree id = .node (.text text) [] := by
  rw [wellFormed.tree_eq, known.1, known.2]
  rfl

theorem Valued.looks_region (valued : scene.Valued start rows (start.gives values))
    {number : Nat} {region : Region} {tokens : List Token}
    (found : scene.graph.regions[number]? = some region)
    (spelled : scene.graph.Spelled scene.IsText tokens region.group) (rest : List Look) :
    ((scene.graph.nodesOf region).map scene.document.tree).foldr Tree.look rest =
      Look.push (String.join (tokens.map (Token.filled values))) rest := by
  have shown (index : Nat) (expression : String) (member : .part index ∈ region.group)
      (known : scene.graph.parts[index]?.map Part.expression = some expression) (rest : List Look) :
      ((scene.graph.contentOf index).map scene.document.tree).foldr Tree.look rest =
        Look.push ((values expression).join.getD "") rest := by
    obtain ⟨content, nested?, target⟩ := valued.linked.piece found member
    rw [PartGraph.contentOf_eq, target, ← valued.gives_eq values known]
    rcases valued.displayed target with ⟨rfl, none⟩ | ⟨id, rfl, text, _⟩
    · rw [none]
      rfl
    · have tree := text.tree_eq valued.wellFormed
      simp only [Option.map_some, Target.content, Option.getD_some, List.map_cons, List.map_nil,
        List.foldr_cons, List.foldr_nil, tree, Tree.look_text]
  rw [PartGraph.nodesOf, Look.push_join]
  generalize region.group = pieces at spelled shown
  induction spelled generalizing rest with
  | nil => rfl
  | empty _ ih =>
      rw [ih _ shown]
      rfl
  | literal _ text _ ih =>
      have later := ih rest fun index expression member => shown index expression (by simp [member])
      rw [List.flatMap_cons, List.map_append, List.foldr_append, later]
      simp only [PartGraph.pieceNodes, List.map_cons, List.map_nil, List.foldr_cons, List.foldr_nil,
        text.tree_eq valued.wellFormed, Tree.look_text, Token.filled]
  | part known _ ih =>
      have later := ih rest fun index expression member => shown index expression (by simp [member])
      rw [List.flatMap_cons, List.map_append, List.foldr_append, later, PartGraph.pieceNodes,
        shown _ _ (List.mem_cons_self ..) known]
      rfl

/-- The slots look like the trees that they stand for, with the values filled in. -/
theorem Valued.looks_eq {config : Config} {owning : Bool} {trees : List (Tree Content)}
    {below : List Row} {slots : List Slot} (valued : scene.Valued start rows (start.gives values))
    (known : ∀ row ∈ below, row ∈ rows) (mirrors : Mirrors config below owning trees slots)
    (shows : ∀ slot ∈ slots, scene.Shows slot) :
    Tree.looks ((scene.graph.expand slots).map scene.document.tree) =
      Tree.looks (config.fillAll values owning trees) := by
  induction mirrors with
  | nil => rfl
  | @anchor owning trees slots id member _ ih =>
      have displays : scene.Displays id (.text "") := shows _ (List.mem_cons_self ..)
      obtain ⟨entries, same⟩ := displays.same
      have text : scene.IsText id "" := ⟨same, valued.planned.laid _ (known _ member)⟩
      have later := ih fun slot slotMember => shows slot (List.mem_cons_of_mem _ slotMember)
      rw [PartGraph.expand_cons, List.map_append, Tree.looks_append, later, PartGraph.slotNodes]
      simp only [List.map_cons, List.map_nil, List.foldr_cons, List.foldr_nil,
        text.tree_eq valued.wellFormed, Tree.look_text, Look.push_empty]
  | @dropped content children rest slots plain blank _ ih =>
      rw [ih shows, Config.fillAll, Config.fill, plain, blank]
      rfl
  | @kept content children rest slots id inner plain member _ _ ihBelow ihRest =>
      have displays : scene.Displays id content := shows _ (List.mem_cons_self ..)
      have later := ihRest fun slot slotMember => shows slot (List.mem_cons_of_mem _ slotMember)
      have inside := ihBelow (valued.shows _ (known _ member))
      rw [← valued.planned.laid _ (known _ member)] at inside
      rw [PartGraph.expand_cons, List.map_append, Tree.looks_append, later, PartGraph.slotNodes,
        Config.fillAll, Tree.looks_append, Config.fill, plain]
      simp only [List.map_cons, List.map_nil, List.foldr_cons, List.foldr_nil, Bool.false_and,
        Bool.false_eq_true, if_false]
      rw [valued.wellFormed.tree_eq]
      exact valued.look_eq displays inside _
  | @source owning content children rest slots number source found _ ih =>
      obtain ⟨region, regionFound, spelled⟩ := shows _ (List.mem_cons_self ..)
      have later := ih fun slot slotMember => shows slot (List.mem_cons_of_mem _ slotMember)
      rw [PartGraph.expand_cons, List.map_append, Tree.looks_append, later,
        slotNodes_region regionFound, valued.looks_region regionFound spelled, Config.fillAll,
        Tree.looks_append, Config.fill, found]
      simp only [List.foldr_cons, List.foldr_nil, Tree.look_text]
      rfl

end Scene

end LiveTemplate
