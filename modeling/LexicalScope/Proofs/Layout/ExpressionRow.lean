import LexicalScope.Proofs.Layout.Occupation
import LexicalScope.Proofs.StatementTree.Nesting

/-!
# Expressions standing in a row

Expressions that stand one behind the other fill an interval of indexes with their parts. If no part
states a span, they fill an interval of offsets as well.
-/

namespace LexicalScope

/-- Expressions owned by `owner` and held by `parent` stand in a row with the names bound between
them: with their parts they are the expressions from `start` up to `stop`, and if the syntax is
`bare` of stated spans, they lie at the offsets from `next` up to `last`. -/
structure ExpressionRow (tree : StatementTree) (bare : Prop) (owner : StatementId)
    (parent : ExpressionRef) (heads : List ExpressionId) (bindings : List Binding)
    (start stop next last : Nat) : Prop where
  le : start ≤ stop
  next_le : bare → next ≤ last
  head : ∀ whole ∈ heads, start ≤ whole.index ∧ whole.index < stop
  lists : tree.Lists parent heads
  covered : ∀ id : ExpressionId, start ≤ id.index → id.index < stop →
    ∃ whole ∈ heads, tree.IsPart whole id
  node : ∀ id : ExpressionId, start ≤ id.index → id.index < stop →
    ∃ node, tree.expression? (some id) = some node ∧ node.statement = some owner ∧
      (∀ part ∈ node.content.children, id.index < part.index ∧ part.index < stop) ∧
      (bare → (next ≤ node.span.start ∧ node.span.start < last) ∧
        ∀ binding ∈ node.content.bindings,
          next ≤ binding.span.start ∧ binding.span.start < last)
  listed : ∀ id : ExpressionId, start ≤ id.index → id.index < stop →
    tree.Lists (some id) (tree.expressionChildren (some id))
  binding : bare → ∀ binding ∈ bindings, next ≤ binding.span.start ∧ binding.span.start < last

namespace ExpressionRow

variable {tree : StatementTree} {bare : Prop} {owner : StatementId} {parent : ExpressionRef}
  {heads others : List ExpressionId} {bindings names : List Binding}
  {start middle stop next between last : Nat}

theorem empty : ExpressionRow tree bare owner parent [] [] start start next next where
  le := Nat.le_refl _
  next_le _ := Nat.le_refl _
  head := by simp
  lists := ⟨.nil, by simp⟩
  covered _ lower upper := absurd upper (Nat.not_lt.mpr lower)
  node _ lower upper := absurd upper (Nat.not_lt.mpr lower)
  listed _ lower upper := absurd upper (Nat.not_lt.mpr lower)
  binding := by simp

/-- Rows are joined. -/
theorem append
    (left : ExpressionRow tree bare owner parent heads bindings start middle next between)
    (right : ExpressionRow tree bare owner parent others names middle stop between last) :
    ExpressionRow tree bare owner parent (heads ++ others) (bindings ++ names) start stop next
      last where
  le := Nat.le_trans left.le right.le
  next_le isBare := Nat.le_trans (left.next_le isBare) (right.next_le isBare)
  head whole member := by
    have leftLe := left.le
    have rightLe := right.le
    rcases List.mem_append.mp member with member | member
    · have := left.head whole member
      omega
    · have := right.head whole member
      omega
  lists := by
    refine ⟨List.pairwise_append.mpr ⟨left.lists.ascending, right.lists.ascending,
      fun first inLeft second inRight => ?_⟩, fun whole member => ?_⟩
    · have := (left.head first inLeft).2
      have := (right.head second inRight).1
      omega
    · rcases List.mem_append.mp member with member | member
      · exact left.lists.held whole member
      · exact right.lists.held whole member
  covered id lower upper := by
    by_cases inLeft : id.index < middle
    · obtain ⟨whole, member, isPart⟩ := left.covered id lower inLeft
      exact ⟨whole, List.mem_append_left _ member, isPart⟩
    · obtain ⟨whole, member, isPart⟩ := right.covered id (Nat.not_lt.mp inLeft) upper
      exact ⟨whole, List.mem_append_right _ member, isPart⟩
  node id lower upper := by
    have rightLe := right.le
    by_cases inLeft : id.index < middle
    · obtain ⟨node, found, owned, parts, offsets⟩ := left.node id lower inLeft
      refine ⟨node, found, owned, fun part member => ?_, fun isBare => ?_⟩
      · have := parts part member
        omega
      · have := right.next_le isBare
        refine ⟨by have := (offsets isBare).1; omega, fun binding member => ?_⟩
        have := (offsets isBare).2 binding member
        omega
    · obtain ⟨node, found, owned, parts, offsets⟩ :=
        right.node id (Nat.not_lt.mp inLeft) upper
      refine ⟨node, found, owned, parts, fun isBare => ?_⟩
      have := left.next_le isBare
      refine ⟨by have := (offsets isBare).1; omega, fun binding member => ?_⟩
      have := (offsets isBare).2 binding member
      omega
  listed id lower upper := by
    by_cases inLeft : id.index < middle
    · exact left.listed id lower inLeft
    · exact right.listed id (Nat.not_lt.mp inLeft) upper
  binding isBare binding member := by
    have leftLe := left.next_le isBare
    have rightLe := right.next_le isBare
    rcases List.mem_append.mp member with member | member
    · have := left.binding isBare binding member
      omega
    · have := right.binding isBare binding member
      omega

theorem widen {lower upper : Nat}
    (row : ExpressionRow tree bare owner parent heads bindings start stop next last)
    (lowerLe : lower ≤ next) (leUpper : last ≤ upper) :
    ExpressionRow tree bare owner parent heads bindings start stop lower upper where
  le := row.le
  next_le isBare := Nat.le_trans lowerLe (Nat.le_trans (row.next_le isBare) leUpper)
  head := row.head
  lists := row.lists
  covered := row.covered
  node id lowerId upperId := by
    obtain ⟨node, found, owned, parts, offsets⟩ := row.node id lowerId upperId
    refine ⟨node, found, owned, parts, fun isBare => ⟨?_, fun binding member => ?_⟩⟩
    · have := (offsets isBare).1
      omega
    · have := (offsets isBare).2 binding member
      omega
  listed := row.listed
  binding isBare binding member := by
    have := row.binding isBare binding member
    omega

theorem ofName {ident : Ident} (unstated : bare → ident.stated = []) :
    ExpressionRow tree bare owner parent [] [(ident.placed next).1.binding] start start next
      (ident.placed next).2 := by
  have placed : bare → (ident.placed next).1.binding.span.start = next ∧
      next + 1 < (ident.placed next).2 := by
    intro isBare
    obtain ⟨name, span⟩ := ident
    have none_span : span = none := by simpa [Ident.stated] using unstated isBare
    subst none_span
    simp [Ident.placed, Ident.binding, Placement.opening, Placement.opened, Placement.covered,
      Placement.closed]
  refine ⟨Nat.le_refl _, fun isBare => ?_, by simp, ⟨.nil, by simp⟩,
    fun _ lower upper => absurd upper (Nat.not_lt.mpr lower),
    fun _ lower upper => absurd upper (Nat.not_lt.mpr lower),
    fun _ lower upper => absurd upper (Nat.not_lt.mpr lower), fun isBare binding member => ?_⟩
  · have := placed isBare
    omega
  · obtain rfl := List.mem_singleton.mp member
    have := placed isBare
    omega

/-- An expression stands in a row alone once its parts do. -/
theorem ofParts {given : Option Span} {content : ExpressionContent}
    (unstated : bare → given = none)
    (found : tree.expression? (some ⟨start⟩) = some ⟨content,
      Placement.covered (Placement.opening given next) given between, some owner, parent⟩)
    (parts : ExpressionRow tree bare owner (some ⟨start⟩) content.children content.bindings
      (start + 1) stop (Placement.opened given next) between) :
    ExpressionRow tree bare owner parent [⟨start⟩] [] start stop next
      (Placement.closed (Placement.opening given next) given between) := by
  have partsLe := parts.le
  have offsets : bare → next + 1 ≤ between ∧
      (Placement.covered (Placement.opening given next) given between).start = next ∧
      between < Placement.closed (Placement.opening given next) given between := by
    intro isBare
    have le := parts.next_le isBare
    obtain rfl := unstated isBare
    simp only [Placement.opened] at le
    simp only [Placement.covered, Placement.opening, Placement.closed, true_and]
    omega
  have moved : bare → Placement.opened given next = next + 1 := by
    intro isBare
    obtain rfl := unstated isBare
    rfl
  refine ⟨by omega, fun isBare => by have := offsets isBare; omega, fun whole member => ?_,
    ⟨List.pairwise_singleton _ _, fun whole member => ?_⟩,
    fun id lower upper => ⟨⟨start⟩, List.mem_singleton_self _, ?_⟩, fun id lower upper => ?_,
    fun id lower upper => ?_, by simp⟩
  · obtain rfl := List.mem_singleton.mp member
    exact ⟨Nat.le_refl _, partsLe⟩
  · obtain rfl := List.mem_singleton.mp member
    simp [StatementTree.holder, found]
  · rcases Nat.eq_or_lt_of_le lower with same | behind
    · obtain ⟨index⟩ := id
      obtain rfl : start = index := same
      exact .refl
    · obtain ⟨whole, member, isPart⟩ := parts.covered id behind upper
      refine .head ?_ isPart
      simpa [StatementTree.expressionChildren, found] using member
  · rcases Nat.eq_or_lt_of_le lower with same | behind
    · obtain ⟨index⟩ := id
      obtain rfl : start = index := same
      refine ⟨_, found, rfl, fun part member => ?_, fun isBare => ⟨?_, fun binding member => ?_⟩⟩
      · have := parts.head part member
        dsimp only
        omega
      · have := offsets isBare
        dsimp only
        omega
      · have := offsets isBare
        have := moved isBare
        have := parts.binding isBare binding member
        omega
    · obtain ⟨node, found, owned, inside, nodeOffsets⟩ := parts.node id behind upper
      refine ⟨node, found, owned, inside, fun isBare => ?_⟩
      have := offsets isBare
      have := moved isBare
      refine ⟨by have := (nodeOffsets isBare).1; omega, fun binding member => ?_⟩
      have := (nodeOffsets isBare).2 binding member
      omega
  · rcases Nat.eq_or_lt_of_le lower with same | behind
    · obtain ⟨index⟩ := id
      obtain rfl : start = index := same
      simpa [StatementTree.expressionChildren, found] using parts.lists
    · exact parts.listed id behind upper

end ExpressionRow

section Rows

variable {tree : StatementTree} {bare : Prop} {owner : StatementId}

mutual

/-- An expression stands in a row alone. -/
theorem Expression.row : ∀ (value : Expression) {depth : Nat} {parent : ExpressionRef}
    {start stop next : Nat}, (bare → value.stated = []) →
      (value.placed next).1.Occupies tree owner depth parent start stop →
        ExpressionRow tree bare owner parent [⟨start⟩] [] start stop next (value.placed next).2
  | .mk given form, depth, parent, start, stop, next, unstated, occupied => by
    simp only [Expression.stated, List.append_eq_nil_iff, Option.toList_eq_nil_iff] at unstated
    simp only [Expression.placed, Expression.Occupies, Option.getD_some] at occupied
    obtain ⟨bound, content, found, parts⟩ := occupied
    exact .ofParts (fun isBare => (unstated isBare).1) found
      (ExpressionForm.row form (fun isBare => (unstated isBare).2) parts)

theorem ExpressionForm.row : ∀ (form : ExpressionForm) {depth : Nat} {id : ExpressionId}
    {content : ExpressionContent} {start stop next : Nat}, (bare → form.stated = []) →
      (form.placed next).1.Occupies tree owner depth id content start stop →
        ExpressionRow tree bare owner (some id) content.children content.bindings start stop next
          (form.placed next).2
  | .name name, depth, id, content, start, stop, next, unstated, occupied => by
    obtain ⟨rfl, rfl⟩ := occupied
    exact .empty
  | .literal value, depth, id, content, start, stop, next, unstated, occupied => by
    obtain ⟨rfl, rfl⟩ := occupied
    exact .empty
  | .unary operator operand, depth, id, content, start, stop, next, unstated, occupied => by
    obtain ⟨rfl, operandOccupied⟩ := occupied
    exact Expression.row operand unstated operandOccupied
  | .binary operator left right, depth, id, content, start, stop, next, unstated, occupied => by
    simp only [ExpressionForm.stated, List.append_eq_nil_iff] at unstated
    obtain ⟨middle, rfl, leftOccupied, rightOccupied⟩ := occupied
    have leftRow := Expression.row left (fun isBare => (unstated isBare).1) leftOccupied
    have rightRow := Expression.row right (fun isBare => (unstated isBare).2) rightOccupied
    exact leftRow.append rightRow
  | .choice condition whenTrue whenFalse, depth, id, content, start, stop, next, unstated,
      occupied => by
    simp only [ExpressionForm.stated, List.append_eq_nil_iff] at unstated
    obtain ⟨second, third, rfl, conditionOccupied, trueOccupied, falseOccupied⟩ := occupied
    have conditionRow := Expression.row condition (fun isBare => (unstated isBare).1.1)
      conditionOccupied
    have trueRow := Expression.row whenTrue (fun isBare => (unstated isBare).1.2) trueOccupied
    have falseRow := Expression.row whenFalse (fun isBare => (unstated isBare).2) falseOccupied
    exact conditionRow.append (trueRow.append falseRow)
  | .paren inner, depth, id, content, start, stop, next, unstated, occupied => by
    obtain ⟨rfl, innerOccupied⟩ := occupied
    exact Expression.row inner unstated innerOccupied
  | .call callee arguments, depth, id, content, start, stop, next, unstated, occupied => by
    simp only [ExpressionForm.stated, List.append_eq_nil_iff] at unstated
    obtain ⟨middle, refs, rfl, calleeOccupied, argumentsOccupied⟩ := occupied
    have calleeRow := Expression.row callee (fun isBare => (unstated isBare).1) calleeOccupied
    have argumentsRow := Expression.rowOfAll arguments (fun isBare => (unstated isBare).2)
      argumentsOccupied
    exact calleeRow.append argumentsRow
  | .member target member, depth, id, content, start, stop, next, unstated, occupied => by
    obtain ⟨rfl, targetOccupied⟩ := occupied
    exact Expression.row target unstated targetOccupied
  | .assign target value, depth, id, content, start, stop, next, unstated, occupied => by
    simp only [ExpressionForm.stated, List.append_eq_nil_iff] at unstated
    obtain ⟨middle, rfl, targetOccupied, valueOccupied⟩ := occupied
    have targetRow := Expression.row target (fun isBare => (unstated isBare).1) targetOccupied
    have valueRow := Expression.row value (fun isBare => (unstated isBare).2) valueOccupied
    exact targetRow.append valueRow
  | .test operand pattern, depth, id, content, start, stop, next, unstated, occupied => by
    simp only [ExpressionForm.stated, List.append_eq_nil_iff] at unstated
    obtain ⟨middle, node, rfl, operandOccupied, patternOccupied⟩ := occupied
    have operandRow := Expression.row operand (fun isBare => (unstated isBare).1) operandOccupied
    have patternRow := Pattern.row pattern (fun isBare => (unstated isBare).2) patternOccupied
    exact operandRow.append patternRow
  | .outVariable type name, depth, id, content, start, stop, next, unstated, occupied => by
    obtain ⟨rfl, rfl⟩ := occupied
    exact .ofName unstated
  | .out name, depth, id, content, start, stop, next, unstated, occupied => by
    obtain ⟨rfl, rfl⟩ := occupied
    exact .empty

theorem Expression.rowOfAll : ∀ (values : List Expression) {depth : Nat}
    {parent : ExpressionRef} {refs : List ExpressionRef} {start stop next : Nat},
      (bare → Expression.statedInAll values = []) →
        Expression.AllOccupy tree owner depth parent (Expression.placedAll values next).1 refs
          start stop →
          ExpressionRow tree bare owner parent (refs.filterMap id) [] start stop next
            (Expression.placedAll values next).2
  | [], depth, parent, refs, start, stop, next, unstated, occupied => by
    obtain ⟨rfl, rfl⟩ := occupied
    exact .empty
  | first :: rest, depth, parent, refs, start, stop, next, unstated, occupied => by
    simp only [Expression.statedInAll, List.append_eq_nil_iff] at unstated
    obtain ⟨others, middle, rfl, firstOccupied, restOccupied⟩ := occupied
    have firstRow := Expression.row first (fun isBare => (unstated isBare).1) firstOccupied
    have restRow := Expression.rowOfAll rest (fun isBare => (unstated isBare).2) restOccupied
    exact firstRow.append restRow

/-- The constants and names of a pattern stand in a row. -/
theorem Pattern.row : ∀ (value : Pattern) {depth : Nat} {parent : ExpressionRef}
    {node : PatternNode} {start stop next : Nat}, (bare → value.stated = []) →
      (value.placed next).1.Occupies tree owner depth parent node start stop →
        ExpressionRow tree bare owner parent (node.constants.filterMap id) node.bindings start stop
          next (value.placed next).2
  | .type type, depth, parent, node, start, stop, next, unstated, occupied => by
    obtain ⟨_, rfl, rfl⟩ := occupied
    exact .empty
  | .declaration type name, depth, parent, node, start, stop, next, unstated, occupied => by
    obtain ⟨_, rfl, rfl⟩ := occupied
    exact .ofName unstated
  | .anyValue name, depth, parent, node, start, stop, next, unstated, occupied => by
    obtain ⟨_, rfl, rfl⟩ := occupied
    exact .ofName unstated
  | .constant value, depth, parent, node, start, stop, next, unstated, occupied => by
    obtain ⟨_, rfl, valueOccupied⟩ := occupied
    exact Expression.row value unstated valueOccupied
  | .discard, depth, parent, node, start, stop, next, unstated, occupied => by
    obtain ⟨_, rfl, rfl⟩ := occupied
    exact .empty
  | .recursive type subpatterns none, depth, parent, node, start, stop, next, unstated,
      occupied => by
    simp only [Pattern.stated, List.append_eq_nil_iff] at unstated
    obtain ⟨_, nodes, rfl, subpatternsOccupied⟩ := occupied
    have subpatternsRow := Pattern.rowOfAll subpatterns (fun isBare => (unstated isBare).1)
      subpatternsOccupied
    simpa [PatternNode.constants, PatternNode.bindings, Placement.optional, Pattern.placed]
      using subpatternsRow
  | .recursive type subpatterns (some name), depth, parent, node, start, stop, next, unstated,
      occupied => by
    simp only [Pattern.stated, List.append_eq_nil_iff, Option.toList_some, List.flatMap_cons,
      List.flatMap_nil, and_true] at unstated
    obtain ⟨_, nodes, rfl, subpatternsOccupied⟩ := occupied
    have subpatternsRow := Pattern.rowOfAll subpatterns (fun isBare => (unstated isBare).1)
      subpatternsOccupied
    have nameRow : ExpressionRow tree bare owner parent [] _ stop stop
        (Pattern.placedAll subpatterns next).2 _ := .ofName fun isBare => (unstated isBare).2
    simpa [PatternNode.constants, PatternNode.bindings, Placement.optional, Pattern.placed]
      using subpatternsRow.append nameRow
  | .negated inner, depth, parent, node, start, stop, next, unstated, occupied => by
    obtain ⟨_, node, rfl, innerOccupied⟩ := occupied
    have innerRow := Pattern.row inner unstated innerOccupied
    exact innerRow

theorem Pattern.rowOfAll : ∀ (values : List Pattern) {depth : Nat} {parent : ExpressionRef}
    {nodes : List PatternNode} {start stop next : Nat},
      (bare → Pattern.statedInAll values = []) →
        Pattern.AllOccupy tree owner depth parent (Pattern.placedAll values next).1 nodes start
          stop →
          ExpressionRow tree bare owner parent ((PatternNode.constantsOfAll nodes).filterMap id)
            (PatternNode.bindingsOfAll nodes) start stop next (Pattern.placedAll values next).2
  | [], depth, parent, nodes, start, stop, next, unstated, occupied => by
    obtain ⟨rfl, rfl⟩ := occupied
    exact .empty
  | first :: rest, depth, parent, nodes, start, stop, next, unstated, occupied => by
    simp only [Pattern.statedInAll, List.append_eq_nil_iff] at unstated
    obtain ⟨node, others, middle, rfl, firstOccupied, restOccupied⟩ := occupied
    have firstRow := Pattern.row first (fun isBare => (unstated isBare).1) firstOccupied
    have restRow := Pattern.rowOfAll rest (fun isBare => (unstated isBare).2) restOccupied
    simpa [PatternNode.constantsOfAll, PatternNode.bindingsOfAll, Pattern.placedAll]
      using firstRow.append restRow

end

end Rows

end LexicalScope
