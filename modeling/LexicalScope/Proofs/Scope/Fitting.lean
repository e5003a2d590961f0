import LexicalScope.Proofs.Scope.Chains
import LexicalScope.Proofs.Scope.Seat

/-!
# How deep a statement may nest

A statement fits into a number of levels when each of its children exists and fits into one level
less. Just these statements can be visited with so many levels, and whether they always exit does
not depend on how many more there are.
-/

namespace LexicalScope

namespace StatementTree

/-- A statement and what is below it nest at most a number of levels deep. -/
def Fits (tree : StatementTree) : Nat → StatementRef → Prop
  | 0, _ => False
  | levels + 1, ref => ∃ node, tree.statement? ref = some node ∧
      ∀ child ∈ node.content.children, tree.Fits levels child.1

/-- Every path through a statement leaves the conditional around it early, however deep the
statement nests. -/
inductive Exits (tree : StatementTree) (breakExits : Bool) : StatementRef → Prop
  | returning {ref value} : tree.content? ref = some (.returning value) → Exits tree breakExits ref
  | throwing {ref value} : tree.content? ref = some (.throwing value) → Exits tree breakExits ref
  | continuing {ref} : tree.content? ref = some .continuing → Exits tree breakExits ref
  | breaking {ref} : tree.content? ref = some .breaking → breakExits = true →
      Exits tree breakExits ref
  | member {ref content member} : tree.content? ref = some content → member ∈ content.members →
      Exits tree breakExits member → Exits tree breakExits ref
  | branch {ref condition thenBody elseBody} :
      tree.content? ref = some (.branch condition thenBody (some elseBody)) →
      Exits tree breakExits thenBody → Exits tree breakExits (some elseBody) →
        Exits tree breakExits ref
  | labeled {ref label body} : tree.content? ref = some (.labeled label body) →
      Exits tree breakExits body → Exits tree breakExits ref

variable {tree : StatementTree} {levels more : Nat} {ref : StatementRef} {node : StatementNode}
  {breakExits : Bool}

/-! ## Levels -/

theorem Fits.exists_node (fits : tree.Fits levels ref) :
    ∃ node, tree.statement? ref = some node := by
  cases levels with
  | zero => exact fits.elim
  | succ levels => exact ⟨_, fits.choose_spec.1⟩

theorem Fits.mono (fits : tree.Fits levels ref) (le : levels ≤ more) : tree.Fits more ref := by
  induction levels generalizing ref more with
  | zero => exact fits.elim
  | succ levels induction =>
      obtain ⟨more, rfl⟩ := Nat.exists_eq_add_of_le' le
      obtain ⟨node, found, children⟩ := fits
      exact ⟨node, found, fun child listed =>
        induction (children child listed) (Nat.le_add_left levels more)⟩

theorem fits_succ_iff (found : tree.statement? ref = some node) :
    tree.Fits (levels + 1) ref ↔ ∀ child ∈ node.content.children, tree.Fits levels child.1 := by
  constructor
  · rintro ⟨known, knownFound, children⟩
    obtain rfl := Option.some.inj (found.symm.trans knownFound)
    exact children
  · exact fun children => ⟨node, found, children⟩

theorem Fits.exists_less {content : StatementContent} (fits : tree.Fits levels ref)
    (known : tree.content? ref = some content) :
    ∃ less, levels = less + 1 ∧ ∀ child ∈ content.children, tree.Fits less child.1 := by
  obtain ⟨node, found, rfl⟩ := Option.map_eq_some_iff.mp known
  cases levels with
  | zero => exact fits.elim
  | succ less => exact ⟨less, rfl, (fits_succ_iff found).mp fits⟩

/-- A statement fits into the levels between its own one and the deepest one below it. -/
theorem Proper.fits_iff (proper : tree.Proper) {id : StatementId} {level : Nat}
    (found : tree.statement? (some id) = some node) (isLevel : tree.IsLevel id level) :
    tree.Fits levels (some id) ↔ ∀ inner depth, tree.IsWithin inner id →
      tree.IsLevel inner depth → depth < level + levels := by
  induction levels generalizing id level node with
  | zero =>
      refine ⟨False.elim, fun shallow => ?_⟩
      exact Nat.lt_irrefl _ (shallow id level (.refl id) isLevel)
  | succ levels induction =>
      have each : ∀ child ∈ node.content.children, ∀ below, child.1 = some below →
          (tree.Fits levels child.1 ↔ ∀ inner depth, tree.IsWithin inner below →
            tree.IsLevel inner depth → depth < level + (levels + 1)) := by
        rintro child listed below isChild
        obtain ⟨same, inner, isSame, innerFound, isParent, _⟩ := proper.child found listed
        obtain rfl := Option.some.inj (isChild.symm.trans isSame)
        have above : tree.parent (some below) = some id := by
          rw [parent_eq innerFound, isParent]
        rw [isChild, induction innerFound (.nested above isLevel), Nat.add_right_comm level 1,
          Nat.add_assoc]
      rw [fits_succ_iff found]
      constructor
      · intro children inner depth within isDepth
        rcases (proper.within_iff found).mp within with rfl | ⟨below, listed, inBelow⟩
        · obtain rfl := isDepth.unique isLevel
          exact Nat.lt_add_of_pos_right (Nat.succ_pos levels)
        · obtain ⟨child, listed, isChild⟩ := List.mem_map.mp listed
          exact (each child listed below isChild).mp (children child listed) inner depth inBelow
            isDepth
      · intro shallow child listed
        obtain ⟨below, inner, isChild, innerFound, isParent, _⟩ := proper.child found listed
        refine (each child listed below isChild).mpr fun inner depth within => ?_
        have above : tree.parent (some below) = some id := by
          rw [parent_eq innerFound, isParent]
        exact shallow inner depth (within.under_parent above)

/-- A body fits below a limit when no statement has more statements around it. -/
theorem Proper.fits_root_iff (proper : tree.Proper) {limit : Nat} :
    tree.Fits (limit + 1) tree.root ↔ ∀ id node, tree.statement? (some id) = some node →
      ∀ level, tree.IsLevel id level → level ≤ limit := by
  obtain ⟨root, rootFound, _⟩ := proper.body
  rw [proper.root, proper.fits_iff rootFound proper.isLevel_root, Nat.zero_add]
  constructor
  · intro shallow id node found level isLevel
    exact Nat.le_of_lt_succ (shallow id level (proper.within_root found) isLevel)
  · intro shallow id level within isLevel
    obtain ⟨node, found⟩ := proper.exists_of_within_root within
    exact Nat.lt_succ_of_le (shallow id node found level isLevel)

/-! ## Exits -/

/-- Whether a statement is taken to exit, by what it consists of. -/
theorem alwaysExits_succ {content : StatementContent} (known : tree.content? ref = some content)
    (limit : Nat) : tree.alwaysExits breakExits (limit + 1) ref =
      match content with
      | .returning _ | .throwing _ | .continuing => true
      | .breaking => breakExits
      | .block members | .switchSection _ members =>
        members.any (tree.alwaysExits breakExits limit)
      | .branch _ thenBody (some elseBody) =>
        tree.alwaysExits breakExits limit thenBody &&
          tree.alwaysExits breakExits limit (some elseBody)
      | .labeled _ body => tree.alwaysExits breakExits limit body
      | _ => false := by
  have isContent : (tree.statement? ref).map StatementNode.content = some content := known
  rw [alwaysExits, isContent]
  cases content with
  | branch condition thenBody elseBody => cases elseBody <;> rfl
  | _ => rfl

/-- What is taken to exit does. -/
theorem exits_of_alwaysExits {limit : Nat} (exits : tree.alwaysExits breakExits limit ref = true) :
    tree.Exits breakExits ref := by
  induction limit generalizing ref with
  | zero => cases exits
  | succ limit induction =>
      have oneOf : ∀ {content}, tree.content? ref = some content →
          content.members.any (tree.alwaysExits breakExits limit) = true →
            tree.Exits breakExits ref := by
        intro content known someExits
        obtain ⟨member, isMember, memberExits⟩ := List.any_eq_true.mp someExits
        exact .member known isMember (induction memberExits)
      cases known : tree.content? ref with
      | none =>
          have isNone : (tree.statement? ref).map StatementNode.content = none := known
          rw [alwaysExits, isNone] at exits
          cases exits
      | some content =>
          rw [alwaysExits_succ known] at exits
          cases content with
          | returning value => exact .returning known
          | throwing value => exact .throwing known
          | continuing => exact .continuing known
          | breaking => exact .breaking known exits
          | block members => exact oneOf known exits
          | switchSection labels members => exact oneOf known exits
          | branch condition thenBody elseBody =>
              cases elseBody with
              | none => cases exits
              | some elseBody =>
                  obtain ⟨thenExits, elseExits⟩ := Bool.and_eq_true_iff.mp exits
                  exact .branch known (induction thenExits) (induction elseExits)
          | labeled label body => exact .labeled known (induction exits)
          | _ => cases exits

/-- What exits is taken to, with as many levels as it nests deep. -/
theorem alwaysExits_of_exits (exits : tree.Exits breakExits ref) (fits : tree.Fits levels ref) :
    tree.alwaysExits breakExits levels ref = true := by
  induction exits generalizing levels with
  | returning known | throwing known | continuing known =>
      obtain ⟨less, rfl, _⟩ := fits.exists_less known
      rw [alwaysExits_succ known]
  | breaking known counts =>
      obtain ⟨less, rfl, _⟩ := fits.exists_less known
      rw [alwaysExits_succ known]
      exact counts
  | @member _ content _ known isMember _ induction =>
      obtain ⟨less, rfl, children⟩ := fits.exists_less known
      rw [alwaysExits_succ known]
      cases content with
      | block members | switchSection _ members =>
          have memberFits := children _ (List.mem_map_of_mem isMember)
          exact List.any_eq_true.mpr ⟨_, isMember, induction memberFits⟩
      | _ => cases isMember
  | branch known _ _ thenInduction elseInduction =>
      obtain ⟨less, rfl, children⟩ := fits.exists_less known
      rw [alwaysExits_succ known]
      exact Bool.and_eq_true_iff.mpr ⟨thenInduction (children _ List.mem_cons_self),
        elseInduction (children _ (List.mem_cons_of_mem _ List.mem_cons_self))⟩
  | labeled known _ induction =>
      obtain ⟨less, rfl, children⟩ := fits.exists_less known
      rw [alwaysExits_succ known]
      exact induction (children _ List.mem_cons_self)

theorem Fits.alwaysExits_iff (fits : tree.Fits levels ref) :
    tree.alwaysExits breakExits levels ref = true ↔ tree.Exits breakExits ref :=
  ⟨exits_of_alwaysExits, fun exits => alwaysExits_of_exits exits fits⟩

/-- More levels than a statement nests deep do not change whether it is taken to exit. -/
theorem Fits.alwaysExits_eq (fits : tree.Fits levels ref) (le : levels ≤ more) :
    tree.alwaysExits breakExits more ref = tree.alwaysExits breakExits levels ref :=
  Bool.eq_iff_iff.mpr <| calc
    tree.alwaysExits breakExits more ref = true
      ↔ tree.Exits breakExits ref := (fits.mono le).alwaysExits_iff
    _ ↔ tree.alwaysExits breakExits levels ref = true := fits.alwaysExits_iff.symm

end StatementTree

end LexicalScope
