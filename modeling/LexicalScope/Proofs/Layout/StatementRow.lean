import LexicalScope.Proofs.Layout.ExpressionRow

/-!
# Statements standing in a row

Statements that stand one behind the other fill an interval of statements and an interval of
expressions. All references below them agree, and without stated spans their spans nest.
-/

namespace LexicalScope

/-- The references of a statement agree, and without stated spans its header and its children have
their places inside its span. -/
structure SettledStatement (tree : StatementTree) (bare : Prop) (id : StatementId)
    (node : StatementNode) : Prop where
  child : ∀ child ∈ node.content.children, ∃ below inner, child.1 = some below ∧
    tree.statement? (some below) = some inner ∧ inner.parent = some id ∧ id.index < below.index ∧
    (inner.kind = .switchSection ↔ node.kind = .switch)
  distinct : (node.content.children.map (·.1)).Nodup
  header : ∀ expression ∈ node.content.expressions,
    ∃ inner, tree.expression? (some expression) = some inner ∧ inner.statement = some id
  lists : tree.Lists none node.content.expressions
  nonempty : bare → node.span.start < node.span.stop
  inside : bare → ∀ child ∈ node.content.children,
    node.span.start < (tree.span child.1).start ∧ (tree.span child.1).stop < node.span.stop
  ordered : bare → (node.content.children.map (·.1)).Pairwise fun first second =>
    (tree.span first).stop < (tree.span second).start
  binding : bare → ∀ binding ∈ node.content.bindings, tree.IsHeaderOffset id binding.span.start

/-- The references of an expression agree, and without stated spans it has its place in the header
of its owner. -/
structure SettledExpression (tree : StatementTree) (bare : Prop) (id : ExpressionId)
    (node : ExpressionNode) : Prop where
  part : ∀ part ∈ node.content.children, id.index < part.index ∧
    ∃ inner, tree.expression? (some part) = some inner ∧ inner.statement = node.statement
  lists : tree.Lists (some id) node.content.children
  owned : ∃ owner outer, node.statement = some owner ∧ tree.statement? (some owner) = some outer ∧
    ∃ whole ∈ outer.content.expressions, tree.IsPart whole id
  offset : bare → ∀ owner, node.statement = some owner →
    tree.IsHeaderOffset owner node.span.start ∧
      ∀ binding ∈ node.content.bindings, tree.IsHeaderOffset owner binding.span.start

/-- Statements stand in a row below `parent`: with everything below them they are the statements and
expressions between two marks, and if the syntax is `bare` of stated spans, they lie at the offsets
from `next` up to `last`. They are `sections` of a switch or no sections at all; `depth` bounds the
statements around them, sections not counted. -/
structure StatementRow (tree : StatementTree) (bare : Prop) (sections : Bool) (depth : Nat)
    (parent : StatementRef) (children : List StatementId) (start stop : Mark) (next last : Nat) :
    Prop where
  statements_le : start.statements ≤ stop.statements
  expressions_le : start.expressions ≤ stop.expressions
  next_le : bare → next ≤ last
  child : ∀ child ∈ children, start.statements ≤ child.index ∧ child.index < stop.statements ∧
    ∃ node, tree.statement? (some child) = some node ∧ node.parent = parent ∧
      (node.kind = .switchSection ↔ sections = true) ∧
      (bare → next ≤ node.span.start ∧ node.span.stop < last)
  ascending : children.Pairwise fun first second => first.index < second.index
  ordered : bare → children.Pairwise fun first second =>
    (tree.span (some first)).stop < (tree.span (some second)).start
  statement : ∀ id : StatementId, start.statements ≤ id.index → id.index < stop.statements →
    ∃ node, tree.statement? (some id) = some node ∧ SettledStatement tree bare id node ∧
      (id ∈ children ∨ ∃ above outer, node.parent = some above ∧
        tree.statement? (some above) = some outer ∧ some id ∈ outer.content.children.map (·.1))
  expression : ∀ id : ExpressionId, start.expressions ≤ id.index → id.index < stop.expressions →
    ∃ node, tree.expression? (some id) = some node ∧ SettledExpression tree bare id node
  level : ∀ around, (∀ child ∈ children, tree.IsLevel child around) →
    around + sections.toNat ≤ 2 * depth → ∀ id : StatementId, start.statements ≤ id.index →
      id.index < stop.statements →
        ∃ level, level < 2 * Limit.statementNesting ∧ tree.IsLevel id level

/-- How the header of a statement and its children follow each other: the expressions and offsets of
the whole come first, then those of the header and those of the children. -/
inductive Follows (kind : StatementKind) : (whole header children : Nat × Nat) →
    (wholeNext headerNext childrenNext : Nat × Nat) → Prop
  /-- The header stands before the children. -/
  | headerFirst {i j k a b c : Nat} : Follows kind (i, k) (i, j) (j, k) (a, c) (a, b) (b, c)
  /-- The header stands behind the children. -/
  | childrenFirst {i j k a b c : Nat} : kind ≠ .branch →
      Follows kind (i, k) (j, k) (i, j) (a, c) (b, c) (a, b)

/-- The offsets of a header and of children lie inside a span, apart from each other. -/
structure PartOffsets (kind : StatementKind) (span : Span)
    (headerNext headerLast childrenNext childrenLast : Nat) : Prop where
  nonempty : span.start < span.stop
  header : span.start < headerNext ∧ headerLast ≤ span.stop
  children : span.start < childrenNext ∧ childrenLast ≤ span.stop
  apart : headerLast ≤ childrenNext ∨ childrenLast ≤ headerNext ∧ kind ≠ .branch

namespace Follows

variable {kind : StatementKind} {start stop headerStart headerStop childrenStart childrenStop : Nat}
  {whole header children : Nat × Nat} {next last headerNext headerLast : Nat}
  {childrenNext childrenLast : Nat}

/-- The span of a statement that states none has room for its parts. -/
theorem partOffsets (follows : Follows kind whole header children (next + 1, last)
      (headerNext, headerLast) (childrenNext, childrenLast))
    (headerLe : headerNext ≤ headerLast) (childrenLe : childrenNext ≤ childrenLast) :
    PartOffsets kind ⟨next, max last (next + 1)⟩ headerNext headerLast childrenNext
      childrenLast := by
  have room : last ≤ max last (next + 1) := Nat.le_max_left ..
  have nonempty : next < max last (next + 1) := Nat.le_max_right ..
  cases follows with
  | headerFirst =>
      exact ⟨nonempty, ⟨Nat.lt_succ_self _, Nat.le_trans childrenLe room⟩, ⟨headerLe, room⟩,
        .inl (Nat.le_refl _)⟩
  | childrenFirst noBranch =>
      exact ⟨nonempty, ⟨childrenLe, room⟩, ⟨Nat.lt_succ_self _, Nat.le_trans headerLe room⟩,
        .inr ⟨Nat.le_refl _, noBranch⟩⟩

private theorem expressions {nexts headerNexts childrenNexts : Nat × Nat}
    (follows : Follows kind (start, stop) (headerStart, headerStop) (childrenStart, childrenStop)
      nexts headerNexts childrenNexts)
    (headerLe : headerStart ≤ headerStop) (childrenLe : childrenStart ≤ childrenStop) :
    start ≤ stop ∧ ∀ index, start ≤ index → index < stop →
      headerStart ≤ index ∧ index < headerStop ∨
        childrenStart ≤ index ∧ index < childrenStop := by
  cases follows with
  | headerFirst => exact ⟨by omega, fun index _ _ => by omega⟩
  | childrenFirst _ => exact ⟨by omega, fun index _ _ => by omega⟩

end Follows

/-- The header and the children of the statement `id` fill together what is between two marks. -/
inductive StatementParts (tree : StatementTree) (bare : Prop) (depth : Nat) (id : StatementId)
    (content : StatementContent) (start stop : Mark) (next last : Nat) : Prop
  | intro {sections : Bool} {children : List StatementId}
      {headerStart headerStop childrenStart childrenStop : Nat}
      {headerNext headerLast childrenNext childrenLast : Nat}
      (header : ExpressionRow tree bare id none content.expressions content.bindings headerStart
        headerStop headerNext headerLast)
      (below : StatementRow tree bare sections depth (some id) children
        ⟨start.statements, childrenStart⟩ ⟨stop.statements, childrenStop⟩ childrenNext childrenLast)
      (lists : content.children.map (·.1) = children.map some)
      (kinds : sections = true ↔ content.kind = .switch)
      (follows : Follows content.kind (start.expressions, stop.expressions)
        (headerStart, headerStop) (childrenStart, childrenStop) (next, last)
        (headerNext, headerLast) (childrenNext, childrenLast))

namespace StatementRow

variable {tree : StatementTree} {bare : Prop} {sections : Bool} {depth : Nat}
  {parent : StatementRef} {children others : List StatementId} {start middle stop : Mark}
  {next between last : Nat}

theorem empty : StatementRow tree bare sections depth parent [] start start next next where
  statements_le := Nat.le_refl _
  expressions_le := Nat.le_refl _
  next_le _ := Nat.le_refl _
  child := by simp
  ascending := .nil
  ordered _ := .nil
  statement _ lower upper := absurd upper (Nat.not_lt.mpr lower)
  expression _ lower upper := absurd upper (Nat.not_lt.mpr lower)
  level _ _ _ _ lower upper := absurd upper (Nat.not_lt.mpr lower)

theorem span_eq {id : StatementId} {node : StatementNode}
    (found : tree.statement? (some id) = some node) : tree.span (some id) = node.span := by
  simp [StatementTree.span, found]

theorem append (left : StatementRow tree bare sections depth parent children start middle next
      between)
    (right : StatementRow tree bare sections depth parent others middle stop between last) :
    StatementRow tree bare sections depth parent (children ++ others) start stop next last where
  statements_le := Nat.le_trans left.statements_le right.statements_le
  expressions_le := Nat.le_trans left.expressions_le right.expressions_le
  next_le isBare := Nat.le_trans (left.next_le isBare) (right.next_le isBare)
  child child member := by
    have leftLe := left.statements_le
    have rightLe := right.statements_le
    rcases List.mem_append.mp member with member | member
    · obtain ⟨lower, upper, node, found, above, kind, offsets⟩ := left.child child member
      refine ⟨lower, by omega, node, found, above, kind, fun isBare => ?_⟩
      have := right.next_le isBare
      have := offsets isBare
      omega
    · obtain ⟨lower, upper, node, found, above, kind, offsets⟩ := right.child child member
      refine ⟨by omega, upper, node, found, above, kind, fun isBare => ?_⟩
      have := left.next_le isBare
      have := offsets isBare
      omega
  ascending := by
    refine List.pairwise_append.mpr ⟨left.ascending, right.ascending, fun first inLeft second
      inRight => ?_⟩
    have := (left.child first inLeft).2.1
    have := (right.child second inRight).1
    omega
  ordered isBare := by
    refine List.pairwise_append.mpr ⟨left.ordered isBare, right.ordered isBare, fun first inLeft
      second inRight => ?_⟩
    obtain ⟨_, _, _, firstFound, _, _, firstOffsets⟩ := left.child first inLeft
    obtain ⟨_, _, _, secondFound, _, _, secondOffsets⟩ := right.child second inRight
    rw [span_eq firstFound, span_eq secondFound]
    have := firstOffsets isBare
    have := secondOffsets isBare
    omega
  statement id lower upper := by
    by_cases inLeft : id.index < middle.statements
    · obtain ⟨node, found, settled, listed⟩ := left.statement id lower inLeft
      exact ⟨node, found, settled, listed.imp_left (List.mem_append_left _)⟩
    · obtain ⟨node, found, settled, listed⟩ := right.statement id (Nat.not_lt.mp inLeft) upper
      exact ⟨node, found, settled, listed.imp_left (List.mem_append_right _)⟩
  expression id lower upper := by
    by_cases inLeft : id.index < middle.expressions
    · exact left.expression id lower inLeft
    · exact right.expression id (Nat.not_lt.mp inLeft) upper
  level around levels room id lower upper := by
    by_cases inLeft : id.index < middle.statements
    · exact left.level around (fun child member => levels child (List.mem_append_left _ member))
        room id lower inLeft
    · exact right.level around (fun child member => levels child (List.mem_append_right _ member))
        room id (Nat.not_lt.mp inLeft) upper

/-! ## Statements and their parts -/

section Parts

variable {content : StatementContent} {id : StatementId} {span : Span} {inner upper : Nat}
  {childSections : Bool} {headerStart headerStop childrenStart childrenStop : Nat}
  {headerNext headerLast childrenNext childrenLast : Nat}

theorem exists_of_lists (lists : content.children.map (·.1) = children.map some)
    {child : StatementRef × Position} (member : child ∈ content.children) :
    ∃ id ∈ children, child.1 = some id := by
  have mapped : child.1 ∈ children.map some := lists ▸ List.mem_map_of_mem member
  obtain ⟨id, listed, same⟩ := List.mem_map.mp mapped
  exact ⟨id, listed, same.symm⟩

variable (found : tree.statement? (some id) = some ⟨content, span, parent⟩)
  (header : ExpressionRow tree bare id none content.expressions content.bindings headerStart
    headerStop headerNext headerLast)
  (below : StatementRow tree bare childSections inner (some id) children
    ⟨id.index + 1, childrenStart⟩ ⟨upper, childrenStop⟩ childrenNext childrenLast)
  (lists : content.children.map (·.1) = children.map some)
  (offsets : bare → PartOffsets content.kind span headerNext headerLast childrenNext childrenLast)

include found below lists offsets

theorem isHeaderOffset (isBare : bare) {offset : Nat} (lower : headerNext ≤ offset)
    (upper : offset < headerLast) : tree.IsHeaderOffset id offset := by
  obtain ⟨_, ⟨headerLower, headerUpper⟩, _, apart⟩ := offsets isBare
  refine ⟨_, found, Nat.lt_of_lt_of_le headerLower lower,
    Nat.lt_of_lt_of_le upper headerUpper, fun child member => ?_⟩
  obtain ⟨id, listed, same⟩ := exists_of_lists lists member
  obtain ⟨_, _, node, childFound, _, _, childOffsets⟩ := below.child id listed
  have := childOffsets isBare
  rw [same, span_eq childFound]
  rcases apart with apart | ⟨apart, noBranch⟩
  · exact ⟨.inl (by omega), fun _ => by omega⟩
  · exact ⟨.inr (by omega), fun isBranch => absurd isBranch noBranch⟩

include header

private theorem settledStatement (kinds : childSections = true ↔ content.kind = .switch) :
    SettledStatement tree bare id ⟨content, span, parent⟩ where
  child child member := by
    obtain ⟨inside, listed, same⟩ := exists_of_lists lists member
    obtain ⟨behind, _, node, childFound, above, kind, _⟩ := below.child inside listed
    exact ⟨inside, node, same, childFound, above, behind, kind.trans kinds⟩
  distinct := by
    change (content.children.map (·.1)).Nodup
    rw [lists]
    refine List.pairwise_map.mpr (below.ascending.imp fun less same => ?_)
    rw [Option.some.inj same] at less
    exact Nat.lt_irrefl _ less
  header expression member := by
    obtain ⟨lower, upper⟩ := header.head expression member
    obtain ⟨node, headFound, owned, _⟩ := header.node expression lower upper
    exact ⟨node, headFound, owned⟩
  lists := header.lists
  nonempty isBare := (offsets isBare).nonempty
  inside isBare child member := by
    obtain ⟨id, listed, same⟩ := exists_of_lists lists member
    obtain ⟨_, _, node, childFound, _, _, childOffsets⟩ := below.child id listed
    obtain ⟨childLower, childUpper⟩ := childOffsets isBare
    obtain ⟨lower, upper⟩ := (offsets isBare).children
    rw [same, span_eq childFound]
    exact ⟨Nat.lt_of_lt_of_le lower childLower, Nat.lt_of_lt_of_le childUpper upper⟩
  ordered isBare := by
    change (content.children.map (·.1)).Pairwise _
    rw [lists]
    exact List.pairwise_map.mpr (below.ordered isBare)
  binding isBare binding member := by
    obtain ⟨lower, upper⟩ := header.binding isBare binding member
    exact isHeaderOffset found below lists offsets isBare lower upper

private theorem settledExpression {expression : ExpressionId}
    (lower : headerStart ≤ expression.index) (upper : expression.index < headerStop) :
    ∃ node, tree.expression? (some expression) = some node ∧
      SettledExpression tree bare expression node := by
  have inHeader : bare → ∀ {offset : Nat}, headerNext ≤ offset ∧ offset < headerLast →
      tree.IsHeaderOffset id offset := fun isBare _ bounds =>
    isHeaderOffset found below lists offsets isBare bounds.1 bounds.2
  obtain ⟨node, nodeFound, owned, parts, nodeOffsets⟩ := header.node expression lower upper
  refine ⟨node, nodeFound, ⟨fun part member => ?_, ?_, ?_, fun isBare owner owns => ?_⟩⟩
  · obtain ⟨behind, upperPart⟩ := parts part member
    obtain ⟨inner, partFound, partOwned, _⟩ :=
      header.node part (Nat.le_of_lt (Nat.lt_of_le_of_lt lower behind)) upperPart
    exact ⟨behind, inner, partFound, partOwned.trans owned.symm⟩
  · simpa [StatementTree.expressionChildren, nodeFound] using
      header.listed expression lower upper
  · exact ⟨_, _, owned, found, header.covered expression lower upper⟩
  · obtain rfl := Option.some.inj (owned.symm.trans owns)
    obtain ⟨own, bound⟩ := nodeOffsets isBare
    exact ⟨inHeader isBare own, fun binding member => inHeader isBare (bound binding member)⟩

omit found header offsets lists

/-- The children of a statement lie one level deeper than the statement; a switch and its sections
count as one statement. -/
theorem level_below {around : Nat} (own : content.kind = .switchSection ↔ sections = true)
    (kinds : childSections = true ↔ content.kind = .switch)
    (deeper : inner + sections.toNat = depth + 1) (room : around + sections.toNat ≤ 2 * depth)
    (isLevel : tree.IsLevel id around) {deep : StatementId} (behind : id.index < deep.index)
    (bound : deep.index < upper) :
    ∃ level, level < 2 * Limit.statementNesting ∧ tree.IsLevel deep level := by
  have roomBelow : around + 1 + childSections.toNat ≤ 2 * inner := by
    have := Bool.toNat_le childSections
    cases sections with
    | false =>
        simp only [Bool.toNat_false] at deeper room
        omega
    | true =>
        have notSwitch : childSections = false := by
          rw [← Bool.not_eq_true, kinds, own.mpr rfl]
          exact StatementKind.noConfusion
        simp only [Bool.toNat_true, notSwitch, Bool.toNat_false] at deeper room ⊢
        omega
  refine below.level (around + 1) (fun child member => ?_) roomBelow deep behind bound
  obtain ⟨_, _, node, childFound, above, _⟩ := below.child child member
  exact .nested (by simp [StatementTree.parent, childFound, above]) isLevel

end Parts

/-- A statement stands in a row alone once its header and its children do. -/
theorem ofParts {given : Option Span} {content : StatementContent} {inner : Nat}
    (unstated : bare → given = none)
    (found : tree.statement? (some ⟨start.statements⟩) = some ⟨content,
      Placement.covered (Placement.opening given next) given between, parent⟩)
    (parts : StatementParts tree bare inner ⟨start.statements⟩ content
      ⟨start.statements + 1, start.expressions⟩ stop (Placement.opened given next) between)
    (own : content.kind = .switchSection ↔ sections = true)
    (deeper : inner + sections.toNat = depth + 1)
    (shallow : depth < Limit.statementNesting + sections.toNat) :
    StatementRow tree bare sections depth parent [⟨start.statements⟩] start stop next
      (Placement.closed (Placement.opening given next) given between) := by
  obtain ⟨upper, lower⟩ := stop
  obtain @⟨childSections, children, headerStart, headerStop, childrenStart, childrenStop,
    headerNext, headerLast, childrenNext, childrenLast, header, below, lists, kinds, follows⟩ :=
    parts
  have expressions := follows.expressions header.le below.expressions_le
  have offsets : bare → PartOffsets content.kind
      (Placement.covered (Placement.opening given next) given between)
      headerNext headerLast childrenNext childrenLast := by
    intro isBare
    obtain rfl := unstated isBare
    exact follows.partOffsets (header.next_le isBare) (below.next_le isBare)
  refine ⟨Nat.le_of_succ_le below.statements_le, expressions.1, fun isBare => ?_,
    fun child member => ?_, List.pairwise_singleton _ _, fun _ => List.pairwise_singleton _ _,
    fun id lowerId upperId => ?_, fun id lowerId upperId => ?_,
    fun around levels room id lowerId upperId => ?_⟩
  · obtain rfl := unstated isBare
    simp only [Placement.closed, Placement.opening]
    omega
  · obtain rfl := List.mem_singleton.mp member
    refine ⟨Nat.le_refl _, below.statements_le, _, found, rfl, own, fun isBare => ?_⟩
    obtain rfl := unstated isBare
    simp [Placement.closed, Placement.opening, Placement.covered]
  · rcases Nat.eq_or_lt_of_le lowerId with same | behind
    · obtain ⟨index⟩ := id
      obtain rfl : start.statements = index := same
      exact ⟨_, found, settledStatement found header below lists offsets kinds,
        .inl (List.mem_singleton_self _)⟩
    · obtain ⟨node, nodeFound, nodeSettled, listed⟩ := below.statement id behind upperId
      refine ⟨node, nodeFound, nodeSettled, .inr ?_⟩
      rcases listed with member | listed
      · obtain ⟨_, _, childNode, childFound, above, _⟩ := below.child id member
        obtain rfl := Option.some.inj (nodeFound.symm.trans childFound)
        exact ⟨_, _, above, found, lists ▸ List.mem_map_of_mem member⟩
      · exact listed
  · rcases expressions.2 id.index lowerId upperId with ⟨lowerHead, upperHead⟩ | ⟨lowerIn, upperIn⟩
    · exact settledExpression found header below lists offsets lowerHead upperHead
    · exact below.expression id lowerIn upperIn
  · have ownLevel := levels ⟨start.statements⟩ (List.mem_singleton_self _)
    rcases Nat.eq_or_lt_of_le lowerId with same | behind
    · obtain ⟨index⟩ := id
      obtain rfl : start.statements = index := same
      have := Bool.toNat_le sections
      exact ⟨around, by omega, ownLevel⟩
    · exact level_below below own kinds deeper room ownLevel behind upperId

end StatementRow

end LexicalScope
