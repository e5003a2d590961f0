import LexicalScope.Proofs.Layout.Nesting
import LexicalScope.Proofs.StatementTree.Descent

/-!
# Statements in the order of their indexes

What lies within a statement of a procedure fills an interval of indexes, and the intervals of its
children stand one behind the other. So of two children everything within the first comes before
everything within the second.
-/

namespace LexicalScope

namespace StatementTree

/-- All that lies within one statement comes before all that lies within another. -/
def Precedes (tree : StatementTree) (first second : StatementRef) : Prop :=
  ∀ left right, tree.IsAmong [first] left → tree.IsAmong [second] right → left.index < right.index

/-- The children of every statement come one behind the other, each with all that lies within. -/
def Preordered (tree : StatementTree) : Prop :=
  ∀ {id node}, tree.statement? (some id) = some node →
    (node.content.children.map (·.1)).Pairwise tree.Precedes

/-- Statements that stand one behind the other keep within an interval of indexes, and so do the
children of each statement there. -/
structure Keeps (tree : StatementTree) (refs : List StatementRef) (start stop : Nat) : Prop where
  le : start ≤ stop
  inside : ∀ inner, tree.IsAmong refs inner → start ≤ inner.index ∧ inner.index < stop
  ordered : refs.Pairwise tree.Precedes
  below : ∀ {id node}, start ≤ id.index → id.index < stop → tree.statement? (some id) = some node →
    (node.content.children.map (·.1)).Pairwise tree.Precedes

namespace Keeps

variable {tree : StatementTree} {left right refs : List StatementRef} {start middle stop : Nat}

theorem nothing (tree : StatementTree) (index : Nat) : tree.Keeps [] index index where
  le := Nat.le_refl index
  inside _ among := absurd among isAmong_nil
  ordered := .nil
  below lower upper := absurd lower (Nat.not_le.mpr upper)

theorem append (first : tree.Keeps left start middle) (second : tree.Keeps right middle stop) :
    tree.Keeps (left ++ right) start stop where
  le := Nat.le_trans first.le second.le
  inside := by
    rintro inner ⟨statement, member, within⟩
    rcases List.mem_append.mp member with member | member
    · obtain ⟨lower, upper⟩ := first.inside inner ⟨statement, member, within⟩
      exact ⟨lower, Nat.lt_of_lt_of_le upper second.le⟩
    · obtain ⟨lower, upper⟩ := second.inside inner ⟨statement, member, within⟩
      exact ⟨Nat.le_trans first.le lower, upper⟩
  ordered := by
    refine List.pairwise_append.mpr ⟨first.ordered, second.ordered, ?_⟩
    rintro one inLeft other inRight lower upper ⟨_, isOne, inOne⟩ ⟨_, isOther, inOther⟩
    rw [List.mem_singleton] at isOne isOther
    subst isOne isOther
    exact Nat.lt_of_lt_of_le (first.inside lower ⟨_, inLeft, inOne⟩).2
      (second.inside upper ⟨_, inRight, inOther⟩).1
  below {id node} lower upper found := by
    by_cases inLeft : id.index < middle
    · exact first.below lower inLeft found
    · exact second.below (Nat.not_lt.mp inLeft) upper found

theorem around (proper : tree.Proper) {node : StatementNode}
    (found : tree.statement? (some ⟨start⟩) = some node)
    (children : tree.Keeps (node.content.children.map (·.1)) (start + 1) stop) :
    tree.Keeps [some ⟨start⟩] start stop where
  le := Nat.le_of_succ_le children.le
  inside inner among := by
    rcases (proper.within_iff found).mp (isAmong_singleton.mp among) with rfl | below
    · exact ⟨Nat.le_refl start, children.le⟩
    · obtain ⟨lower, upper⟩ := children.inside inner below
      exact ⟨Nat.le_of_succ_le lower, upper⟩
  ordered := List.pairwise_singleton _ _
  below {id known} lower upper isKnown := by
    rcases Nat.eq_or_lt_of_le lower with same | behind
    · obtain ⟨index⟩ := id
      obtain rfl : start = index := same
      obtain rfl := Option.some.inj (found.symm.trans isKnown)
      exact children.ordered
    · exact children.below behind upper isKnown

end Keeps

end StatementTree

/-! ## Occupied intervals -/

section Occupied

variable {tree : StatementTree}

mutual

theorem Statement.keeps (proper : tree.Proper) : ∀ (statement : Statement) {depth : Nat}
    {parent : StatementRef} {start stop : Mark}, statement.Occupies tree depth parent start stop →
      tree.Keeps [some ⟨start.statements⟩] start.statements stop.statements
  | .mk span form, _, _, _, _, occupied => by
    obtain ⟨_, content, found, formOccupied⟩ := occupied
    exact .around proper found (form.keeps proper formOccupied)

theorem StatementForm.keeps (proper : tree.Proper) : ∀ (form : StatementForm) {depth : Nat}
    {id : StatementId} {content : StatementContent} {start stop : Mark},
      form.Occupies tree depth id content start stop →
        tree.Keeps (content.children.map (·.1)) start.statements stop.statements
  | .block members, _, _, _, _, _, occupied => by
    obtain ⟨refs, rfl, membersOccupied⟩ := occupied
    simpa [StatementContent.children, Function.comp_def] using
      Statement.keepsAll proper members membersOccupied
  | .branch condition thenBody none, _, _, _, _, _, occupied => by
    obtain ⟨_, rfl, _, thenOccupied⟩ := occupied
    exact (thenBody.keeps proper thenOccupied :)
  | .branch condition thenBody (some elseBody), _, _, _, _, _, occupied => by
    obtain ⟨_, _, rfl, _, thenOccupied, elseOccupied⟩ := occupied
    exact (thenBody.keeps proper thenOccupied :).append (elseBody.keeps proper elseOccupied)
  | .whileLoop condition body, _, _, _, _, _, occupied
  | .forEachLoop element collection body, _, _, _, _, _, occupied => by
    obtain ⟨_, rfl, _, bodyOccupied⟩ := occupied
    exact (body.keeps proper bodyOccupied :)
  | .doLoop body condition, _, _, _, _, _, occupied => by
    obtain ⟨_, rfl, bodyOccupied, _⟩ := occupied
    exact (body.keeps proper bodyOccupied :)
  | .forLoop declarators initializers condition incrementors body, _, _, _, _, _, occupied => by
    obtain ⟨_, _, _, _, _, _, _, _, rfl, _, _, _, _, bodyOccupied⟩ := occupied
    exact (body.keeps proper bodyOccupied :)
  | .resource declarators held body, _, _, _, _, _, occupied => by
    obtain ⟨_, _, _, _, rfl, _, _, bodyOccupied⟩ := occupied
    exact (body.keeps proper bodyOccupied :)
  | .switch subject sections, _, _, _, _, _, occupied => by
    obtain ⟨_, refs, rfl, _, sectionsOccupied⟩ := occupied
    simpa [StatementContent.children, Function.comp_def] using
      Section.keepsAll proper sections sectionsOccupied
  | .localDeclaration declarators, _, _, _, _, _, occupied => by
    obtain ⟨_, rfl, _, same⟩ := occupied
    exact same ▸ .nothing tree _
  | .evaluation expression, _, _, _, _, _, occupied => by
    obtain ⟨rfl, _, same⟩ := occupied
    exact same ▸ .nothing tree _
  | .returning value, _, _, _, _, _, occupied | .throwing value, _, _, _, _, _, occupied => by
    obtain ⟨_, rfl, _, same⟩ := occupied
    exact same ▸ .nothing tree _
  | .breaking, _, _, _, _, _, occupied | .continuing, _, _, _, _, _, occupied
  | .empty, _, _, _, _, _, occupied => by
    obtain ⟨rfl, rfl⟩ := occupied
    exact .nothing tree _
  | .labeled label body, _, _, _, _, _, occupied => by
    obtain ⟨rfl, bodyOccupied⟩ := occupied
    exact (body.keeps proper bodyOccupied :)

theorem Statement.keepsAll (proper : tree.Proper) : ∀ (statements : List Statement) {depth : Nat}
    {parent : StatementRef} {refs : List StatementRef} {start stop : Mark},
      Statement.AllOccupy tree depth parent statements refs start stop →
        tree.Keeps refs start.statements stop.statements
  | [], _, _, _, _, _, occupied => by
    obtain ⟨rfl, rfl⟩ := occupied
    exact .nothing tree _
  | first :: rest, _, _, _, _, _, occupied => by
    obtain ⟨_, _, rfl, firstOccupied, restOccupied⟩ := occupied
    exact (first.keeps proper firstOccupied).append (Statement.keepsAll proper rest restOccupied)

theorem Section.keeps (proper : tree.Proper) : ∀ (switchSection : Section) {depth : Nat}
    {parent : StatementRef} {start stop : Mark},
      switchSection.Occupies tree depth parent start stop →
        tree.Keeps [some ⟨start.statements⟩] start.statements stop.statements
  | .mk span labels members, _, _, _, _, occupied => by
    obtain ⟨_, refs, _, found, _, membersOccupied⟩ := occupied
    refine .around proper found ?_
    simpa [StatementContent.children, Function.comp_def] using
      Statement.keepsAll proper members membersOccupied

theorem Section.keepsAll (proper : tree.Proper) : ∀ (sections : List Section) {depth : Nat}
    {parent : StatementRef} {refs : List StatementRef} {start stop : Mark},
      Section.AllOccupy tree depth parent sections refs start stop →
        tree.Keeps refs start.statements stop.statements
  | [], _, _, _, _, _, occupied => by
    obtain ⟨rfl, rfl⟩ := occupied
    exact .nothing tree _
  | first :: rest, _, _, _, _, _, occupied => by
    obtain ⟨_, _, rfl, firstOccupied, restOccupied⟩ := occupied
    exact (first.keeps proper firstOccupied).append (Section.keepsAll proper rest restOccupied)

end

end Occupied

/-- The statements of a procedure are numbered in preorder. -/
theorem StatementTree.preordered_of_ofProcedure {procedure : Procedure} {tree : StatementTree}
    (laidOut : ofProcedure procedure = .ok tree) : tree.Preordered := fun found =>
  (procedure.placed.body.keeps (proper_of_ofProcedure laidOut)
    (occupies_of_ofProcedure laidOut).body).below (Nat.zero_le _) (index_lt_of_statement found)
      found

end LexicalScope
