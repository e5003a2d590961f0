import LexicalScope.Proofs.Layout.Links
import LexicalScope.Proofs.Layout.Room
import LexicalScope.Proofs.Layout.Sections
import LexicalScope.Proofs.Scope.Success

/-!
# What the usual nesting limit admits

Laying a procedure out does not count the sections around a statement, binding it does. Below the
usual limit every procedure is bound whose switches are not nested, and below twice the limit any
procedure is. Switches nested in one another reach the usual limit with half as many statements.
-/

namespace LexicalScope

namespace StatementTree

variable {tree : StatementTree} {id : StatementId} {depth sections : Nat}

/-! ## Nested switches -/

/-- No section lies below another one. -/
def Flat (tree : StatementTree) : Prop :=
  ∀ inner outer, tree.kind? (some inner) = some .switchSection →
    tree.kind? (some outer) = some .switchSection → ¬ tree.IsBelow inner outer

private theorem IsNested.exists_section (proper : tree.Proper)
    (nested : tree.IsNested id depth (sections + 1)) :
    ∃ outer around, tree.kind? (some outer) = some .switchSection ∧ tree.IsBelow id outer ∧
      tree.IsNested outer around sections := by
  generalize count : sections + 1 = all at nested
  induction nested with
  | root _ => cases count
  | inStatement isParent _ _ induction =>
      obtain ⟨outer, around, isSection, ⟨_, within⟩, nested⟩ := induction count
      refine ⟨outer, around, isSection, ⟨?_, (Under.ofParent isParent).trans within⟩, nested⟩
      rintro rfl
      exact Under.not_under_child proper.ranked isParent within
  | inSection isParent isSection nested _ =>
      cases count
      refine ⟨_, _, isSection, ⟨?_, .ofParent isParent⟩, nested⟩
      rintro rfl
      exact Nat.lt_irrefl _ (proper.ranked isParent)

/-- Where switches are not nested, a statement that is laid out is shallow with its section. -/
theorem Flat.add_le (flat : tree.Flat) (proper : tree.Proper)
    (nested : tree.IsNested id depth sections) (few : depth ≤ Limit.statementNesting)
    (fewer : tree.kind? (some id) ≠ some .switchSection → depth < Limit.statementNesting) :
    depth + sections ≤ Limit.statementNesting := by
  match sections with
  | 0 => exact few
  | 1 =>
    refine fewer fun isSection => ?_
    obtain ⟨outer, _, isOuter, below, _⟩ := nested.exists_section proper
    exact flat id outer isSection isOuter below
  | sections + 2 =>
    obtain ⟨inner, _, isInner, _, innerNested⟩ := nested.exists_section proper
    obtain ⟨outer, _, isOuter, below, _⟩ := innerNested.exists_section proper
    exact absurd below (flat inner outer isInner isOuter)

end StatementTree

namespace ScopeTree

variable {procedure : Procedure} {tree : StatementTree}

/-- A tree that has been laid out is bound when no statement has more statements around it than the
limit. -/
theorem exists_ofStatementTree_iff_level (laidOut : StatementTree.ofProcedure procedure = .ok tree)
    (settings : ScopeSettings) :
    (∃ scopes, ofStatementTree settings tree = .ok scopes) ↔
      ∀ id : StatementId, id.index < tree.statements.size → ∀ level, tree.IsLevel id level →
        level ≤ settings.nestingLimit := by
  have proper := StatementTree.proper_of_ofProcedure laidOut
  obtain ⟨node, found, _⟩ := proper.body
  rw [← proper.root] at found
  rw [exists_ofStatementTree_iff settings (StatementTree.checkLinks_eq_ok laidOut) found,
    proper.fits_root_iff]
  constructor
  · intro shallow id bound
    obtain ⟨node, found⟩ := StatementTree.exists_statement bound
    exact shallow id node found
  · exact fun shallow id node found => shallow id (StatementTree.index_lt_of_statement found)

/-- Of the statements around a statement, laying out bounds those that are no sections. Below the
usual limit a procedure is bound just if the same bound holds of all of them together, as it does
where switches are not nested. Twice the limit is enough for any procedure. -/
theorem capacity_of_ofProcedure (laidOut : StatementTree.ofProcedure procedure = .ok tree) :
    tree.Shallow 0 tree.statements.size ∧
    ((∃ scopes, ofStatementTree .default tree = .ok scopes) ↔
      ∀ id : StatementId, id.index < tree.statements.size → ∀ depth sections,
        tree.IsNested id depth sections → depth + sections ≤ Limit.statementNesting) ∧
    (tree.Flat → ∃ scopes, ofStatementTree .default tree = .ok scopes) ∧
    ∀ settings : ScopeSettings, 2 * Limit.statementNesting ≤ settings.nestingLimit + 1 →
      ∃ scopes, ofStatementTree settings tree = .ok scopes := by
  have proper := StatementTree.proper_of_ofProcedure laidOut
  have shallow := StatementTree.shallow_of_ofProcedure laidOut
  have usual : (∃ scopes, ofStatementTree .default tree = .ok scopes) ↔
      ∀ id : StatementId, id.index < tree.statements.size → ∀ depth sections,
        tree.IsNested id depth sections → depth + sections ≤ Limit.statementNesting := by
    rw [exists_ofStatementTree_iff_level laidOut]
    constructor
    · exact fun few id bound depth sections nested => few id bound _ nested.isLevel
    · intro few id bound level isLevel
      obtain ⟨depth, sections, nested, _⟩ := shallow id (Nat.zero_le _) bound
      rw [isLevel.unique nested.isLevel]
      exact few id bound depth sections nested
  refine ⟨shallow, usual, fun flat => usual.mpr fun id bound depth sections nested => ?_,
    fun settings enough => (exists_ofStatementTree_iff_level laidOut settings).mpr ?_⟩
  · obtain ⟨_, _, nestedToo, few, fewer⟩ := shallow id (Nat.zero_le _) bound
    rw [nested.isLevel.unique nestedToo.isLevel]
    exact flat.add_le proper nestedToo few fewer
  · intro id bound level isLevel
    obtain ⟨node, found⟩ := StatementTree.exists_statement bound
    have := proper.level_lt isLevel found
    omega

end ScopeTree

/-! ## Switches one in another -/

/-- Switches one in another, each in the only section of the one around it. -/
def Statement.switched : Nat → Statement
  | 0 => .empty
  | count + 1 => .switch (.name "c") [.plain [.otherwise] [switched count]]

/-- A procedure of switches one in another. -/
def Procedure.switched (count : Nat) : Procedure := .plain "p" [] (.switched count)

private theorem Layout.takes_switched :
    ∀ (count : Nat) {offset depth : Nat} {parent : StatementRef},
    depth + count < Limit.statementNesting →
      Takes offset (statement depth parent (.switched count)) (8 * count + 2)
  | 0, _, _, _, bound => .statement bound fun _ => .pure _
  | count + 1, offset, depth, parent, bound => by
    have subject (id : StatementId) : Takes 0 (header id (.name "c")) 2 :=
      .ahead (.expression (by decide) fun _ => .pure _) fun _ => .pure _
    have member (id : StatementId) :
        Takes 0 (statements (depth + 1) (some id) [.switched count]) (8 * count + 2) :=
      .statements_singleton (takes_switched count (by omega))
    have parts (id : StatementId) : Takes 0 (sections (depth + 1) (some id)
        [.plain [.otherwise] [.switched count]]) (2 + (8 * count + 2) + 2) :=
      .sections_singleton (.switchSection (fun _ => .mapM_singleton .otherwise) member)
    have whole : Takes offset (statement depth parent (.switched (count + 1)))
        (2 + (2 + (8 * count + 2) + 2) + 2) :=
      .statement (by omega) fun id =>
        .bind (subject id) fun _ => .ahead (parts id) fun _ => .pure _
    exact whole.mono (Nat.le_refl _) (by omega)

theorem StatementTree.exists_ofProcedure_switched {count : Nat}
    (few : count < Limit.statementNesting) :
    ∃ tree, ofProcedure (.switched count) = .ok tree := by
  have takes : Layout.Takes 0 (Layout.procedure (.switched count)) (8 * count + 2) :=
    .behind (.pure []) fun parameters =>
      .ahead (Layout.takes_switched count (by omega)) fun root => .free fun state =>
        ⟨(), { state with tree := { state.tree with parameters := parameters, root := some root } },
          rfl, rfl⟩
  have enough : 8 * Limit.statementNesting + 2 < Limit.offset := by decide
  obtain ⟨_, after, laid, _⟩ := takes ⟨.empty "p", 0⟩ (Nat.le_refl 0) (by simp only; omega)
  refine ⟨after.tree, ?_⟩
  unfold ofProcedure
  rw [show Procedure.name (.switched count) = "p" from rfl, laid]

variable {tree : StatementTree}

private theorem Statement.levels_switched : ∀ (count : Nat) {next depth level : Nat}
    {parent : StatementRef} {start stop : Mark},
      (∀ id, tree.parent (some id) = parent → tree.IsLevel id level) →
        ((switched count).placed next).1.Occupies tree depth parent start stop →
          stop.statements = start.statements + 2 * count + 1 ∧
            tree.IsLevel ⟨start.statements + 2 * count⟩ (level + 2 * count)
  | 0, _, _, _, _, _, _, isLevel, occupied => by
    obtain ⟨_, content, found, rfl, rfl⟩ := occupied
    exact ⟨rfl, isLevel _ (StatementTree.parent_eq found)⟩
  | count + 1, _, _, level, _, start, stop, isLevel, occupied => by
    obtain ⟨_, _, found, _, _, rfl, _, _, _, _, sectionOccupied, _, rfl⟩ := occupied
    obtain ⟨_, _, _, sectionFound, _, _, _, _, memberOccupied, _, rfl⟩ := sectionOccupied
    have switchLevel := isLevel _ (StatementTree.parent_eq found)
    have sectionLevel : tree.IsLevel ⟨start.statements + 1⟩ (level + 1) :=
      .nested (StatementTree.parent_eq sectionFound) switchLevel
    obtain ⟨stops, deep⟩ :=
      levels_switched count (fun _ isParent => .nested isParent sectionLevel) memberOccupied
    have index : start.statements + 2 * (count + 1) = start.statements + 1 + 1 + 2 * count := by
      omega
    have deeper : level + 2 * (count + 1) = level + 1 + 1 + 2 * count := by omega
    rw [index, deeper]
    exact ⟨stops, deep⟩

namespace ScopeTree

private theorem exists_ofStatementTree_switched {count : Nat}
    (laidOut : StatementTree.ofProcedure (.switched count) = .ok tree) (settings : ScopeSettings) :
    (∃ scopes, ofStatementTree settings tree = .ok scopes) ↔ 2 * count ≤ settings.nestingLimit := by
  have proper := StatementTree.proper_of_ofProcedure laidOut
  obtain ⟨stops, deep⟩ := Statement.levels_switched count (fun _ noParent => .root noParent)
    (StatementTree.occupies_of_ofProcedure laidOut).body
  simp only at stops
  rw [exists_ofStatementTree_iff_level laidOut]
  constructor
  · intro few
    have := few _ (by simp only; omega) _ deep
    omega
  · intro enough id bound level isLevel
    have := proper.level_le_index isLevel
    omega

/-- Just above half the limit, switches are laid out but not bound below the usual limit. -/
theorem not_exists_ofStatementTree_switched :
    ∃ tree, StatementTree.ofProcedure (.switched 501) = .ok tree ∧
      ¬ ∃ scopes, ofStatementTree .default tree = .ok scopes := by
  obtain ⟨tree, laidOut⟩ := StatementTree.exists_ofProcedure_switched (show 501 < _ by decide)
  refine ⟨tree, laidOut, fun bound => ?_⟩
  have := (exists_ofStatementTree_switched laidOut .default).mp bound
  exact absurd this (by decide)

/-- Below twice the limit these switches are bound. -/
theorem capacity_of_ofProcedure_switched :
    ∃ tree scopes, StatementTree.ofProcedure (.switched 501) = .ok tree ∧
      tree.Shallow 0 tree.statements.size ∧
      ofStatementTree ⟨none, false, [], 1999⟩ tree = .ok scopes := by
  obtain ⟨tree, laidOut⟩ := StatementTree.exists_ofProcedure_switched (show 501 < _ by decide)
  obtain ⟨shallow, _, _, twice⟩ := capacity_of_ofProcedure laidOut
  obtain ⟨scopes, bound⟩ := twice ⟨none, false, [], 1999⟩ (by decide)
  exact ⟨tree, scopes, laidOut, shallow, bound⟩

end ScopeTree

end LexicalScope
