import LexicalScope.Proofs.Layout.Statements
import LexicalScope.Proofs.StatementTree.Descent

/-!
# Nesting without sections

Laying a procedure out counts the statements around a statement, but not the sections of switches
among them. Around any statement are fewer of the others than the limit, around a section at most as
many.
-/

namespace LexicalScope

namespace StatementTree

/-- A statement has `depth` statements other than sections around it, and `sections` sections. -/
inductive IsNested (tree : StatementTree) : StatementId → Nat → Nat → Prop
  | root {statement} : tree.parent (some statement) = none → IsNested tree statement 0 0
  | inStatement {statement above depth sections} : tree.parent (some statement) = some above →
      tree.kind? (some above) ≠ some .switchSection → IsNested tree above depth sections →
        IsNested tree statement (depth + 1) sections
  | inSection {statement above depth sections} : tree.parent (some statement) = some above →
      tree.kind? (some above) = some .switchSection → IsNested tree above depth sections →
        IsNested tree statement depth (sections + 1)

variable {tree : StatementTree} {statement : StatementId} {depth sections : Nat}

theorem IsNested.isLevel (nested : tree.IsNested statement depth sections) :
    tree.IsLevel statement (depth + sections) := by
  induction nested with
  | root noParent => exact .root noParent
  | inStatement isParent _ _ induction =>
      rw [Nat.add_right_comm]
      exact .nested isParent induction
  | inSection isParent _ _ induction => exact .nested isParent induction

/-- What is below `parent` has `depth` statements other than sections around it. -/
def Encloses (tree : StatementTree) (parent : StatementRef) (depth : Nat) : Prop :=
  ∃ sections, ∀ id, tree.parent (some id) = parent → tree.IsNested id depth sections

/-- The statements from an index up to another one have few statements other than sections around
them. -/
def Shallow (tree : StatementTree) (start stop : Nat) : Prop :=
  ∀ id : StatementId, start ≤ id.index → id.index < stop → ∃ depth sections,
    tree.IsNested id depth sections ∧ depth ≤ Limit.statementNesting ∧
      (tree.kind? (some id) ≠ some .switchSection → depth < Limit.statementNesting)

theorem Shallow.nothing (tree : StatementTree) (index : Nat) : tree.Shallow index index :=
  fun _ lower upper => absurd lower (Nat.not_le.mpr upper)

theorem Shallow.append {start middle stop : Nat} (left : tree.Shallow start middle)
    (right : tree.Shallow middle stop) : tree.Shallow start stop := fun id lower upper =>
  (Nat.lt_or_ge id.index middle).elim (left id lower) fun behind => right id behind upper

theorem Shallow.cons {start stop : Nat} {node : StatementNode}
    (found : tree.statement? (some ⟨start⟩) = some node)
    (encloses : tree.Encloses node.parent depth) (few : depth ≤ Limit.statementNesting)
    (fewer : node.kind ≠ .switchSection → depth < Limit.statementNesting)
    (below : tree.Shallow (start + 1) stop) : tree.Shallow start stop := by
  intro id lower upper
  rcases Nat.eq_or_lt_of_le lower with rfl | behind
  · obtain ⟨sections, nested⟩ := encloses
    refine ⟨depth, sections, nested id (parent_eq found), few, fun notSection => fewer ?_⟩
    rintro isSection
    exact notSection ((kind?_eq found).trans (congrArg some isSection))
  · exact below id behind upper

private theorem Encloses.inStatement {id : StatementId} {node : StatementNode}
    (encloses : tree.Encloses node.parent depth) (found : tree.statement? (some id) = some node)
    (notSection : node.kind ≠ .switchSection) : tree.Encloses (some id) (depth + 1) := by
  obtain ⟨sections, nested⟩ := encloses
  refine ⟨sections, fun inner isParent => .inStatement isParent ?_ (nested id (parent_eq found))⟩
  rw [kind?_eq found]
  exact fun isSection => notSection (Option.some.inj isSection)

private theorem Encloses.inSection {id : StatementId} {node : StatementNode}
    (encloses : tree.Encloses node.parent depth) (found : tree.statement? (some id) = some node)
    (isSection : node.kind = .switchSection) : tree.Encloses (some id) depth := by
  obtain ⟨sections, nested⟩ := encloses
  exact ⟨sections + 1, fun inner isParent =>
    .inSection isParent ((kind?_eq found).trans (congrArg some isSection))
      (nested id (parent_eq found))⟩

end StatementTree

/-! ## Laid out syntax -/

open StatementTree (Shallow)

variable {tree : StatementTree}

mutual

theorem Statement.shallow : ∀ (statement : Statement) {depth : Nat} {parent : StatementRef}
    {start stop : Mark}, tree.Encloses parent depth →
      statement.Occupies tree depth parent start stop →
        tree.Shallow start.statements stop.statements
  | .mk span form, _, _, _, _, encloses, occupied => by
    obtain ⟨bound, content, found, formOccupied⟩ := occupied
    obtain ⟨notSection, shallow⟩ := form.shallow formOccupied
    have below := shallow (encloses.inStatement found notSection) bound
    exact .cons found encloses (Nat.le_of_lt bound) (fun _ => bound) below

/-- What a statement consists of is no section, and what is below it is shallow. -/
theorem StatementForm.shallow : ∀ (form : StatementForm) {depth : Nat} {id : StatementId}
    {content : StatementContent} {start stop : Mark},
      form.Occupies tree depth id content start stop → content.kind ≠ .switchSection ∧
        (tree.Encloses (some id) depth → depth ≤ Limit.statementNesting →
          tree.Shallow start.statements stop.statements)
  | .block members, _, _, _, _, _, occupied => by
    obtain ⟨_, rfl, membersOccupied⟩ := occupied
    exact ⟨nofun, fun encloses _ => Statement.shallowAll members encloses membersOccupied⟩
  | .branch condition thenBody none, _, _, _, _, _, occupied => by
    obtain ⟨_, rfl, _, thenOccupied⟩ := occupied
    exact ⟨nofun, fun encloses _ => (thenBody.shallow encloses thenOccupied :)⟩
  | .branch condition thenBody (some elseBody), _, _, _, _, _, occupied => by
    obtain ⟨_, _, rfl, _, thenOccupied, elseOccupied⟩ := occupied
    exact ⟨nofun, fun encloses _ => (thenBody.shallow encloses thenOccupied :).append
      (elseBody.shallow encloses elseOccupied)⟩
  | .whileLoop condition body, _, _, _, _, _, occupied
  | .forEachLoop element collection body, _, _, _, _, _, occupied => by
    obtain ⟨_, rfl, _, bodyOccupied⟩ := occupied
    exact ⟨nofun, fun encloses _ => (body.shallow encloses bodyOccupied :)⟩
  | .doLoop body condition, _, _, _, _, _, occupied => by
    obtain ⟨_, rfl, bodyOccupied, _⟩ := occupied
    exact ⟨nofun, fun encloses _ => (body.shallow encloses bodyOccupied :)⟩
  | .forLoop declarators initializers condition incrementors body, _, _, _, _, _, occupied => by
    obtain ⟨_, _, _, _, _, _, _, _, rfl, _, _, _, _, bodyOccupied⟩ := occupied
    exact ⟨nofun, fun encloses _ => (body.shallow encloses bodyOccupied :)⟩
  | .resource declarators held body, _, _, _, _, _, occupied => by
    obtain ⟨_, _, _, _, rfl, _, _, bodyOccupied⟩ := occupied
    exact ⟨nofun, fun encloses _ => (body.shallow encloses bodyOccupied :)⟩
  | .switch subject sections, _, _, _, _, _, occupied => by
    obtain ⟨_, _, rfl, _, sectionsOccupied⟩ := occupied
    exact ⟨nofun, fun encloses few => (Section.shallowAll sections encloses few sectionsOccupied :)⟩
  | .localDeclaration declarators, _, _, _, _, _, occupied => by
    obtain ⟨_, rfl, _, same⟩ := occupied
    exact ⟨nofun, fun _ _ => same ▸ .nothing tree _⟩
  | .evaluation expression, _, _, _, _, _, occupied => by
    obtain ⟨rfl, _, same⟩ := occupied
    exact ⟨nofun, fun _ _ => same ▸ .nothing tree _⟩
  | .returning value, _, _, _, _, _, occupied | .throwing value, _, _, _, _, _, occupied => by
    obtain ⟨_, rfl, _, same⟩ := occupied
    exact ⟨nofun, fun _ _ => same ▸ .nothing tree _⟩
  | .breaking, _, _, _, _, _, occupied | .continuing, _, _, _, _, _, occupied
  | .empty, _, _, _, _, _, occupied => by
    obtain ⟨rfl, rfl⟩ := occupied
    exact ⟨nofun, fun _ _ => .nothing tree _⟩
  | .labeled label body, _, _, _, _, _, occupied => by
    obtain ⟨rfl, bodyOccupied⟩ := occupied
    exact ⟨nofun, fun encloses _ => body.shallow encloses bodyOccupied⟩

theorem Statement.shallowAll : ∀ (statements : List Statement) {depth : Nat}
    {parent : StatementRef} {refs : List StatementRef} {start stop : Mark},
      tree.Encloses parent depth →
        Statement.AllOccupy tree depth parent statements refs start stop →
          tree.Shallow start.statements stop.statements
  | [], _, _, _, _, _, _, occupied => by
    obtain ⟨rfl, rfl⟩ := occupied
    exact .nothing tree _
  | first :: rest, _, _, _, _, _, encloses, occupied => by
    obtain ⟨_, _, rfl, firstOccupied, restOccupied⟩ := occupied
    exact (first.shallow encloses firstOccupied).append
      (Statement.shallowAll rest encloses restOccupied)

theorem Section.shallow : ∀ (switchSection : Section) {depth : Nat} {parent : StatementRef}
    {start stop : Mark}, tree.Encloses parent depth → depth ≤ Limit.statementNesting →
      switchSection.Occupies tree depth parent start stop →
        tree.Shallow start.statements stop.statements
  | .mk span labels members, _, _, _, _, encloses, few, occupied => by
    obtain ⟨_, _, _, found, _, membersOccupied⟩ := occupied
    have below := Statement.shallowAll members (encloses.inSection found rfl) membersOccupied
    exact .cons found encloses few (fun notSection => absurd rfl notSection) below

theorem Section.shallowAll : ∀ (sections : List Section) {depth : Nat} {parent : StatementRef}
    {refs : List StatementRef} {start stop : Mark}, tree.Encloses parent depth →
      depth ≤ Limit.statementNesting →
        Section.AllOccupy tree depth parent sections refs start stop →
          tree.Shallow start.statements stop.statements
  | [], _, _, _, _, _, _, _, occupied => by
    obtain ⟨rfl, rfl⟩ := occupied
    exact .nothing tree _
  | first :: rest, _, _, _, _, _, encloses, few, occupied => by
    obtain ⟨_, _, rfl, firstOccupied, restOccupied⟩ := occupied
    exact (first.shallow encloses few firstOccupied).append
      (Section.shallowAll rest encloses few restOccupied)

end

/-- In the tree of a procedure every statement is shallow. -/
theorem StatementTree.shallow_of_ofProcedure {procedure : Procedure}
    (laidOut : ofProcedure procedure = .ok tree) : tree.Shallow 0 tree.statements.size :=
  procedure.placed.body.shallow ⟨0, fun _ noParent => .root noParent⟩
    (occupies_of_ofProcedure laidOut).body

end LexicalScope
