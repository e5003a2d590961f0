import LexicalScope.Proofs.Layout.Links
import LexicalScope.Proofs.Scope.Parallel
import LexicalScope.Proofs.Scope.Tags

/-!
# A greater nesting limit

The nesting limit decides whether a procedure is bound, but not what comes out. A procedure that is
bound fits below the limit, so each body in it fits into the levels for which its exits are looked
for, and these are the same however many more there are.
-/

namespace LexicalScope

namespace StatementTree

variable {tree : StatementTree} {conditional body : StatementId} {number limit : Nat}

private theorem IsAlternative.exists_parent (proper : tree.Proper)
    (isBody : tree.IsAlternative conditional number body) :
    ∃ above, tree.parent (some body) = some above := by
  cases isBody with
  | link _ content => exact ⟨_, proper.parent_thenBody content⟩
  | last _ content _ => exact ⟨_, proper.parent_elseBody content⟩
  | switchSection content isSection =>
      obtain ⟨node, found, isContent⟩ := Option.map_eq_some_iff.mp content
      refine ⟨_, proper.parent_of_child found ?_⟩
      simpa [isContent, StatementContent.children, Function.comp_def] using
        List.mem_of_getElem? isSection

/-- Below a body that fits, every statement fits into one level less. -/
theorem Fits.of_parent (proper : tree.Proper) (fits : tree.Fits (limit + 1) tree.root)
    {above : StatementId} (isParent : tree.parent (some body) = some above) :
    tree.Fits limit (some body) := by
  obtain ⟨node, found, _⟩ := Option.bind_eq_some_iff.mp isParent
  obtain ⟨level, _, isLevel⟩ := proper.level found
  have inside : 0 < level := by
    cases isLevel with
    | root noParent => rw [isParent] at noParent; cases noParent
    | nested _ _ => exact Nat.succ_pos _
  refine (proper.fits_iff found isLevel).mpr fun inner depth within isDepth => ?_
  obtain ⟨innerNode, innerFound⟩ :=
    proper.exists_of_within_root (within.trans (proper.within_root found))
  have := proper.fits_root_iff.mp fits inner innerNode innerFound depth isDepth
  omega

private theorem Fits.alternative (proper : tree.Proper) (fits : tree.Fits (limit + 1) tree.root)
    (isBody : tree.IsAlternative conditional number body) : tree.Fits limit (some body) :=
  have ⟨_, isParent⟩ := isBody.exists_parent proper
  fits.of_parent proper isParent

end StatementTree

namespace Bind

/-- A second binder differs from a first one in that its nesting limit is another one. -/
def Deepened (limit more : Nat) (before start : Binder) : Prop :=
  before.settings.nestingLimit = limit ∧
    start = { before with settings := { before.settings with nestingLimit := more } }

variable {tree : StatementTree} {limit more : Nat}

/-- Two runs on one tree whose limits are both above the statements stay side by side. -/
theorem parallel_deepened (le : limit ≤ more) :
    Parallel .id tree tree (tree.Fits (limit + 1)) (fun _ => True) False
      (Deepened limit more) where
  node := by
    intro ref fits
    obtain ⟨node, found⟩ := fits.exists_node
    refine ⟨node, found, by rw [node.reworded_id, found], fun child listed => ?_,
      fun _ _ => trivial⟩
    have childFits := (StatementTree.fits_succ_iff found).mp fits child listed
    refine ⟨childFits.mono (Nat.le_succ limit), ?_⟩
    rintro breakExits before start ⟨isLimit, rfl⟩
    rw [isLimit]
    exact childFits.alwaysExits_eq le
  isTwoWay _ := rfl
  addsBleedLevel _ _ := rfl
  introduced _ := (List.map_id _).symm
  introducedByLabel _ _ := by rw [PatternNode.reworded_id]; exact (List.map_id _).symm
  current := by rintro before start ⟨_, rfl⟩; rfl
  bleedDepth := by rintro before start ⟨_, rfl⟩; rfl
  limit := False.elim
  enter := by
    rintro before start ⟨isLimit, rfl⟩ kind boundary span branch
    exact ⟨isLimit, rfl⟩
  leave := by
    rintro before start ⟨isLimit, rfl⟩
    unfold Binder.leave
    cases before.enclosing <;> exact ⟨isLimit, rfl⟩
  bleed := by
    rintro before start ⟨isLimit, rfl⟩ depth
    exact ⟨isLimit, rfl⟩
  recordStatement := by
    rintro before start ⟨isLimit, rfl⟩ ref region
    cases ref <;> exact ⟨isLimit, rfl⟩
  declare := by
    rintro before start ⟨isLimit, rfl⟩ name kind span ref expression
    exact ⟨isLimit, rfl⟩
  recordExpression := by
    rintro before start ⟨isLimit, rfl⟩ expression _
    cases expression <;> exact ⟨isLimit, rfl⟩

end Bind

namespace ScopeTree

variable {tree : StatementTree} {scopes : ScopeTree} {settings : ScopeSettings} {limit : Nat}

/-- A tree that is bound below a limit is bound alike below a greater one. -/
theorem ofStatementTree_of_le (proper : tree.Proper) (linked : tree.checkLinks = .ok ())
    (bound : ofStatementTree settings tree = .ok scopes) (le : settings.nestingLimit ≤ limit) :
    ofStatementTree { settings with nestingLimit := limit } tree = .ok scopes := by
  obtain ⟨node, inside, found, bodyBound, isScopes⟩ := exists_bindBody proper bound
  rw [← proper.root] at found
  have fits := (exists_ofStatementTree_iff settings linked found).mp ⟨scopes, bound⟩
  have parallel : Bind.Parallel .id tree tree _ _ _ _ := Bind.parallel_deepened le
  have opened : Bind.Deepened settings.nestingLimit limit (.opened settings tree node.span)
      (.opened { settings with nestingLimit := limit } tree node.span) := by
    refine parallel.declareParameters (List.map_id _).symm rfl ?_
    rw [proper.root]
    exact ⟨rfl, rfl⟩
  obtain ⟨extra, rfl⟩ := Nat.exists_eq_add_of_le le
  have mirrors := parallel.bindBody extra False.elim fits rfl found settings.nestingLimit
  rw [node.reworded_id] at mirrors
  obtain ⟨stop, ran, _, rfl⟩ := mirrors.exists_ok opened bodyBound
  rw [ofStatementTree_eq _ linked found, ran, isScopes]
  unfold Binder.leave
  cases inside.enclosing <;> rfl

private theorem exits_iff_of_ofStatementTree (proper : tree.Proper)
    (linked : tree.checkLinks = .ok ()) (bound : ofStatementTree settings tree = .ok scopes)
    {region : Region} {tag : BranchTag} (member : region ∈ scopes.regions)
    (isTag : region.branch = some tag) :
    ∃ conditional body, tag.conditional = some conditional ∧
      tree.IsAlternative conditional tag.index body ∧
      (tag.exits = true ↔
        tree.Exits (tree.kind? (some conditional) != some .switch) (some body)) := by
  obtain ⟨node, found, _⟩ := proper.body
  rw [← proper.root] at found
  have fits := (exists_ofStatementTree_iff settings linked found).mp ⟨scopes, bound⟩
  obtain ⟨index, isRegion⟩ := Array.getElem?_of_mem member
  have regionFound : scopes.region? (some ⟨index⟩) = some region := isRegion
  obtain ⟨conditional, body, isConditional, isBody, exits⟩ :=
    tells_of_ofStatementTree proper bound regionFound isTag
  refine ⟨conditional, body, isConditional, isBody, ?_⟩
  rw [exits]
  exact (fits.alternative proper isBody).alwaysExits_iff

/-- Raising the nesting limit changes nothing in the result of a procedure that is bound, and what
the tags of its regions tell of exits is what holds without any limit. -/
theorem ofStatementTree_deepen {procedure : Procedure}
    (laidOut : StatementTree.ofProcedure procedure = .ok tree)
    (bound : ofStatementTree settings tree = .ok scopes) :
    (∀ limit, settings.nestingLimit ≤ limit →
      ofStatementTree { settings with nestingLimit := limit } tree = .ok scopes) ∧
    ∀ region ∈ scopes.regions, ∀ tag, region.branch = some tag →
      ∃ conditional body, tag.conditional = some conditional ∧
        tree.IsAlternative conditional tag.index body ∧
        (tag.exits = true ↔
          tree.Exits (tree.kind? (some conditional) != some .switch) (some body)) :=
  have proper := StatementTree.proper_of_ofProcedure laidOut
  have linked := StatementTree.checkLinks_eq_ok laidOut
  ⟨fun _ le => ofStatementTree_of_le proper linked bound le,
    fun _ member _ isTag => exits_iff_of_ofStatementTree proper linked bound member isTag⟩

end ScopeTree

/-- An `if` around a block in a block, with a `return` at the end. -/
def Procedure.leavingDeep : Procedure :=
  .plain "p" ["a"] (.block [.ifThen (.name "a") (.block [.block [.returning none]]),
    .localVariable "x" (some (.name "a"))])

/-- The `return` has as many statements around it as the limit allows. -/
theorem ScopeTree.ofStatementTree_deepen_leavingDeep :
    ∃ tree scopes, StatementTree.ofProcedure .leavingDeep = .ok tree ∧
      ofStatementTree ⟨none, false, [], 4⟩ tree = .ok scopes ∧
      (∀ limit, 4 ≤ limit → ofStatementTree ⟨none, false, [], limit⟩ tree = .ok scopes) ∧
      ∃ region ∈ scopes.regions, ∃ tag, region.branch = some tag ∧ tag.exits = true ∧
        ∃ conditional body, tag.conditional = some conditional ∧
          tree.Exits (tree.kind? (some conditional) != some .switch) (some body) := by
  have binds : Procedure.leavingDeep.binds ⟨none, false, [], 4⟩ (fun _ scopes =>
      scopes.regions.any fun region => region.branch.any BranchTag.exits) = true := by
    decide +kernel
  obtain ⟨tree, scopes, laidOut, bound, check⟩ := Procedure.exists_of_binds binds
  obtain ⟨region, member, isTagged⟩ := Array.any_eq_true'.mp check
  obtain ⟨deeper, tags⟩ := ofStatementTree_deepen laidOut bound
  cases isTag : region.branch with
  | none =>
      rw [isTag] at isTagged
      cases isTagged
  | some tag =>
      rw [isTag] at isTagged
      obtain ⟨conditional, body, isConditional, _, exitsIff⟩ := tags region member tag isTag
      exact ⟨tree, scopes, laidOut, bound, deeper, region, member, tag, isTag, isTagged,
        conditional, body, isConditional, exitsIff.mp isTagged⟩

end LexicalScope
