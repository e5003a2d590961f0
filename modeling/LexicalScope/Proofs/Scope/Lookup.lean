import LexicalScope.Procedure.Build
import LexicalScope.Proofs.Scope.Offsets
import LexicalScope.Scope.Resolution

/-!
# Names at offsets and at expressions

A name means the same at an expression and at the offset where the expression starts: the innermost
region at the offset is the one in which the expression is recorded, or that of a switch inside it,
which owns no declaration. Likewise a name that is declared means at its own place the first
declaration of it in its region.
-/

namespace LexicalScope

variable {tree : StatementTree} {scopes : ScopeTree} {statement : StatementId} {id site : RegionId}
  {region : Region} {declaration : Declaration} {name : String}

private theorem Declaration.StandsFor.isHeaderOffset (stands : declaration.StandsFor tree statement)
    (bracketed : tree.Bracketed) : tree.IsHeaderOffset statement declaration.span.start := by
  obtain ⟨_, binds⟩ := stands
  rcases binds with ⟨_, content, binding, isContent, member, same⟩ |
    ⟨expression, node, binding, _, found, owned, member, same⟩
  · obtain ⟨node, found, rfl⟩ := Option.map_eq_some_iff.mp isContent
    rw [same]
    exact bracketed.binding found member
  · rw [same]
    exact (bracketed.expression found owned).2 binding member

namespace ScopeTree

theorem lookupFrom_of_none (found : scopes.region? (some id) = some region)
    (nothing : region.lookup name = none) {steps : Nat} :
    scopes.lookupFrom name (steps + 1) (some id) = scopes.lookupFrom name steps region.parent := by
  simp only [lookupFrom, found, nothing]

private theorem lookupFrom_eq (agree : Consistent scopes.regions scopes.declarations)
    {steps more : Nat} (found : scopes.region? (some id) = some region)
    (enough : region.depth < steps) (enoughToo : region.depth < more) :
    scopes.lookupFrom name steps (some id) = scopes.lookupFrom name more (some id) := by
  induction steps generalizing id region more with
  | zero => exact absurd enough (Nat.not_lt_zero _)
  | succ steps induction =>
      cases more with
      | zero => exact absurd enoughToo (Nat.not_lt_zero _)
      | succ more =>
          cases lookup : region.lookup name with
          | some _ => simp only [lookupFrom, found, lookup]
          | none =>
              rw [lookupFrom_of_none found lookup, lookupFrom_of_none found lookup]
              cases isParent : region.parent with
              | none => cases steps <;> cases more <;> rfl
              | some parent =>
                  obtain ⟨_, outer, outerFound, deeper⟩ := agree.parent found isParent
                  exact induction outerFound (by omega) (by omega)

private theorem toOption_resolveFrom (ref : RegionRef) :
    (scopes.resolveFrom name ref).toOption = scopes.resolveIn name ref := by
  unfold resolveFrom
  cases scopes.resolveIn name ref <;> rfl

private theorem resolveFrom_eq_ok (agree : Consistent scopes.regions scopes.declarations)
    (found : scopes.region? (some id) = some region)
    (first : (scopes.declarations.toList.find? fun other =>
      other.name == name && other.region == some id) = some declaration) :
    scopes.resolveFrom name (some id) = .ok declaration := by
  have lookup : region.lookup name = some declaration.id := by
    rw [agree.table name found, first, Option.map_some]
  obtain ⟨i, bound, same⟩ := List.getElem_of_mem (List.mem_of_find?_eq_some first)
  have isDeclaration : scopes.declarations[i]? = some declaration := by
    rw [← Array.getElem?_toList, List.getElem?_eq_getElem bound, same]
  have isNumber := agree.declaration isDeclaration
  have isIn : scopes.resolveIn name (some id) = some declaration := by
    simp [resolveIn, Limit.regionWalk, lookupFrom, found, lookup, declaration?, isNumber,
      isDeclaration]
  simp [resolveFrom, isIn]

namespace Follows

private theorem region_ne_of_switch (follows : scopes.Follows tree) (proper : tree.Proper)
    (found : scopes.region? (some id) = some region) (isSwitch : region.kind = .switch) {i : Nat}
    (declared : scopes.declarations[i]? = some declaration) : declaration.region ≠ some id := by
  intro isRegion
  rcases follows.declaration declared with ⟨_, isRoot, _⟩ |
    ⟨known, statement, same, bound, _, isSite⟩
  · obtain rfl := Option.some.inj (isRegion.symm.trans isRoot)
    obtain ⟨root, rootFound, isKind, _⟩ := follows.root
    obtain rfl := Option.some.inj (rootFound.symm.trans found)
    cases isKind.symm.trans isSwitch
  · obtain rfl := Option.some.inj (isRegion.symm.trans same)
    obtain ⟨parent, switch, isParent, isBoundary, parentSite⟩ := follows.switch found isSwitch
    have above : scopes.parent (some id) = some parent := (parent_eq found).trans isParent
    have settled := follows.settled found above
    -- The statement lies in a section, whose region would be around that of the switch.
    have surrounds := (within_iff isSite found).mp (.refl _)
    unfold Region.Surrounds at surrounds
    simp only [isSwitch, isBoundary, reduceCtorEq, false_or, Option.some.injEq,
      exists_eq_left'] at surrounds
    have isKind := settled.origin.switch switch isBoundary isSwitch
    obtain ⟨node, switchFound, kind⟩ := Option.map_eq_some_iff.mp isKind
    obtain ⟨child, listed, inChild⟩ := (proper.below_iff switchFound).mp surrounds
    obtain ⟨_, inner, sameChild, childFound, kinds⟩ := proper.exists_of_child switchFound listed
    obtain rfl := Option.some.inj sameChild
    have isHeader : inner.kind.headerRegion? = some .switchSection := by
      rw [kinds.mpr kind]
      rfl
    obtain ⟨header, headerRegion, headerFound, _, headerBoundary, extent⟩ :=
      follows.headerRegion childFound isHeader
    have childAbove := proper.parent_of_child switchFound listed
    have inHeader := (within_iff isSite headerFound).mpr ((extent statement).mpr inChild)
    rcases inHeader.eq_or_parent with rfl | ⟨_, isAbove, higher⟩
    · obtain rfl := Option.some.inj (found.symm.trans headerFound)
      obtain rfl := Option.some.inj (isBoundary.symm.trans headerBoundary)
      exact Under.not_under_child proper.ranked childAbove (.refl _)
    · obtain rfl := Option.some.inj (above.symm.trans isAbove)
      exact Under.not_under_child proper.ranked childAbove
        ((extent switch).mp ((within_iff parentSite headerFound).mp higher))

/-- A name means the same at the site of a statement and where an offset in its header lands. -/
theorem resolveIn_landing (follows : scopes.Follows tree) (proper : tree.Proper)
    (siteBound : site.index < scopes.regions.size) (landing : scopes.IsLanding site id statement) :
    scopes.resolveIn name (some id) = scopes.resolveIn name (some site) := by
  have agree := follows.agree
  rcases landing with rfl | ⟨region, found, isParent, isSwitch, _⟩
  · rfl
  · have nothing : region.lookup name = none := by
      rw [agree.table name found, Option.map_eq_none_iff, List.find?_eq_none]
      intro declaration member matched
      obtain ⟨i, bound, same⟩ := List.getElem_of_mem member
      have declared : scopes.declarations[i]? = some declaration := by
        rw [← Array.getElem?_toList, List.getElem?_eq_getElem bound, same]
      simp only [Bool.and_eq_true, beq_iff_eq] at matched
      exact follows.region_ne_of_switch proper found isSwitch declared matched.2
    have above : scopes.parent (some id) = some site := (parent_eq found).trans isParent
    obtain ⟨_, outer, outerFound, deeper⟩ := agree.parent found isParent
    have depth := (follows.settled found above).depth
    have enough : 4 * Limit.statementNesting < Limit.regionWalk := by decide
    simp only [Limit.statementNesting] at depth enough
    have skipped : scopes.lookupFrom name Limit.regionWalk (some id) =
        scopes.lookupFrom name 9999 (some site) := isParent ▸ lookupFrom_of_none found nothing
    have further : scopes.lookupFrom name 9999 (some site) =
        scopes.lookupFrom name Limit.regionWalk (some site) :=
      lookupFrom_eq agree outerFound (by omega) (by omega)
    rw [resolveIn, resolveIn, skipped, further]

end Follows

/-- A name means the same at an expression and at the offset where the expression starts, and at the
place of a declaration that is no parameter it means the first declaration of it in the region. -/
theorem resolve_at_starts {procedure : Procedure} {settings : ScopeSettings}
    (unstated : procedure.stated = []) (laidOut : StatementTree.ofProcedure procedure = .ok tree)
    (bound : ScopeTree.ofStatementTree settings tree = .ok scopes) :
    (∀ (name : String) (expression : ExpressionId), expression.index < tree.expressions.size →
      (scopes.resolve name (tree.expressionSpan (some expression)).start).toOption =
        (scopes.resolveAtExpression name (some expression)).toOption) ∧
    ∀ declaration ∈ scopes.declarations, declaration.kind ≠ .parameter →
      ∃ first, (scopes.declarations.toList.find? fun other =>
          other.name == declaration.name && other.region == declaration.region) = some first ∧
        scopes.resolve declaration.name declaration.span.start = .ok first := by
  have proper := StatementTree.proper_of_ofProcedure laidOut
  have bracketed := StatementTree.bracketed_of_ofProcedure laidOut unstated
  have follows := ScopeTree.follows_of_ofProcedure laidOut bound
  constructor
  · intro name expression inTree
    have found : tree.expression? (some expression) = some tree.expressions[expression.index] :=
      Array.getElem?_eq_getElem inTree
    obtain ⟨owner, _, isOwner, _⟩ := proper.owned found
    have header := (bracketed.expression found isOwner).1
    obtain ⟨site, isRecorded, siteBound, isSite⟩ :=
      follows.expression ((StatementTree.owner_eq found).trans isOwner)
    obtain ⟨id, isInnermost, landing⟩ :=
      follows.regionAt_landing proper bracketed header isSite siteBound
    have isStart : (tree.expressionSpan (some expression)).start =
        tree.expressions[expression.index].span.start := by
      simp [StatementTree.expressionSpan, found]
    calc (scopes.resolve name (tree.expressionSpan (some expression)).start).toOption
        = scopes.resolveIn name (some id) := by
          rw [resolve, toOption_resolveFrom, isStart, isInnermost]
      _ = scopes.resolveIn name (some site) := follows.resolveIn_landing proper siteBound landing
      _ = (scopes.resolveAtExpression name (some expression)).toOption := by
          rw [resolveAtExpression, toOption_resolveFrom, isRecorded]
  · intro declaration member notParameter
    obtain ⟨i, isBelow, same⟩ := Array.getElem_of_mem member
    have declared : scopes.declarations[i]? = some declaration := by
      rw [Array.getElem?_eq_getElem isBelow, same]
    obtain ⟨id, statement, isRegion, siteBound, stands, isSite⟩ :=
      (follows.declaration declared).resolve_left fun parameter => notParameter parameter.1
    obtain ⟨landed, isInnermost, landing⟩ := follows.regionAt_landing proper bracketed
      (stands.isHeaderOffset bracketed) isSite siteBound
    have some : ((scopes.declarations.toList.find? fun other =>
        other.name == declaration.name && other.region == declaration.region)).isSome := by
      rw [List.find?_isSome]
      exact ⟨declaration, Array.mem_toList_iff.mpr member, by simp⟩
    obtain ⟨first, isFirst⟩ := Option.isSome_iff_exists.mp some
    refine ⟨first, isFirst, ?_⟩
    have resolved := resolveFrom_eq_ok follows.agree (Array.getElem?_eq_getElem siteBound)
      (isRegion ▸ isFirst)
    have isIn := congrArg Except.toOption resolved
    rw [toOption_resolveFrom, ← follows.resolveIn_landing proper siteBound landing] at isIn
    rw [resolve, isInnermost, resolveFrom, isIn]
    rfl

end ScopeTree

/-- A procedure with a switch whose subject and label declare names. -/
def Procedure.matching : Procedure :=
  .plain "p" ["a"] (.switch (.testAs (.name "a") "T" "x")
    [.plain [.matching (.constant (.testAs (.name "a") "U" "y")) none]
      [.evaluation (.call (.name "x") [.name "y"]), .breaking]])

theorem ScopeTree.resolve_at_starts_matching :
    ∃ tree scopes, Procedure.matching.stated = [] ∧
      StatementTree.ofProcedure .matching = .ok tree ∧
      ScopeTree.ofStatementTree .default tree = .ok scopes ∧
      (∀ (name : String) (expression : ExpressionId), expression.index < tree.expressions.size →
        (scopes.resolve name (tree.expressionSpan (some expression)).start).toOption =
          (scopes.resolveAtExpression name (some expression)).toOption) ∧
      ∀ declaration ∈ scopes.declarations, declaration.kind ≠ .parameter →
        ∃ first, (scopes.declarations.toList.find? fun other =>
            other.name == declaration.name && other.region == declaration.region) = some first ∧
          scopes.resolve declaration.name declaration.span.start = .ok first := by
  have unstated : Procedure.matching.stated = [] := by decide
  have binds : Procedure.matching.binds .default (fun _ scopes => scopes.declarations.size == 3) =
    true := by decide +kernel
  obtain ⟨tree, scopes, laidOut, bound, _⟩ := Procedure.exists_of_binds binds
  exact ⟨tree, scopes, unstated, laidOut, bound, resolve_at_starts unstated laidOut bound⟩

end LexicalScope
