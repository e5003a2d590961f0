import LexicalScope.Proofs.Appending.Binding
import LexicalScope.Proofs.Rewording.Findings

/-!
# Analysis of longer bodies

Appending a statement to a body extends what is known of it. Regions, declarations and conflicts
keep their places at the front, and a name that meant a declaration means it still.
-/

namespace LexicalScope

open StatementTree (Appended)

/-! ## Continued scope trees -/

/-- A region with the text, the inner regions and the names of a later one. -/
def Region.updated (region later : Region) : Region :=
  { region with
    span := later.span
    children := later.children
    table := later.table
    declarations := later.declarations }

/-- A scope tree continues another one: all that is in the other one comes first in it. -/
structure ScopeTree.Continues (extended scopes : ScopeTree) : Prop where
  declarations : scopes.declarations.toList <+: extended.declarations.toList
  /-- Only the region of the procedure may cover more text and hold more. -/
  region : ∀ {id : RegionId} {region : Region}, scopes.region? (some id) = some region →
    ∃ later, extended.region? (some id) = some later ∧
      later = if id = ⟨0⟩ then region.updated later else region
  conflicts : scopes.conflicts <+: extended.conflicts
  resolved : ∀ {name : String} {id : ExpressionId} {declaration : Declaration},
    scopes.resolveAtExpression name (some id) = .ok declaration →
      extended.resolveAtExpression name (some id) = .ok declaration

namespace ScopeTree

variable {scopes extended : ScopeTree}

theorem parent_root {region : Region} (agree : Consistent scopes.regions scopes.declarations)
    (found : scopes.region? (some ⟨0⟩) = some region) : region.parent = none := by
  by_contra hasParent
  obtain ⟨parent, isParent⟩ := Option.ne_none_iff_exists'.mp hasParent
  exact Nat.not_lt_zero _ (agree.parent found isParent).1

/-! ### Conflicts -/

private theorem conflictsAmong_append (scopes : ScopeTree) (earlier : Earlier)
    (declarations more : List Declaration) :
    scopes.conflictsAmong earlier declarations <+:
      scopes.conflictsAmong earlier (declarations ++ more) := by
  induction declarations generalizing earlier with
  | nil => exact List.nil_prefix
  | cons declaration rest induction =>
      rw [List.cons_append, conflictsAmong, conflictsAmong]
      cases scopes.conflictWith declaration (earlier.named declaration.name) with
      | none => exact induction _
      | some finding => exact (List.prefix_cons_inj finding).mpr (induction _)

/-- A scope tree that retains the regions finds the same conflicts among the same declarations. -/
theorem Retains.conflictsAmong (retains : extended.Retains scopes)
    (agree : Consistent scopes.regions scopes.declarations) :
    extended.conflictsAmong [] scopes.declarations.toList = scopes.conflicts := by
  have among : extended.conflictsAmong (Earlier.reworded .id [])
      (scopes.declarations.toList.map (·.reworded .id)) =
        (scopes.conflictsAmong [] scopes.declarations.toList).map (·.reworded .id) :=
    conflictsAmong_reworded Rewording.faithful_id retains agree (fun _ _ => nofun)
      fun _ => Array.mem_toList_iff.mp
  have sameDeclarations : ∀ declarations : List Declaration,
      declarations.map (·.reworded .id) = declarations := fun list => List.map_id list
  have sameFindings : ∀ findings : List Finding, findings.map (·.reworded .id) = findings :=
    fun findings => List.map_id'' (fun finding => by cases finding <;> rfl) findings
  rw [sameDeclarations, sameFindings] at among
  exact among

/-! ### Names -/

private theorem resolveFrom_ok_iff {name : String} {ref : RegionRef} {declaration : Declaration} :
    scopes.resolveFrom name ref = .ok declaration ↔
      scopes.resolveIn name ref = some declaration := by
  unfold resolveFrom
  cases scopes.resolveIn name ref <;> simp

theorem lookupFrom_none (name : String) (steps : Nat) :
    scopes.lookupFrom name steps none = none := by
  cases steps <;> rfl

private theorem lookup_of_prefix {i : Nat} {region later : Region} {name : String}
    {first : DeclarationId} (agree : Consistent scopes.regions scopes.declarations)
    (agreeToo : Consistent extended.regions extended.declarations)
    (declarations : scopes.declarations.toList <+: extended.declarations.toList)
    (found : scopes.regions[i]? = some region) (foundToo : extended.regions[i]? = some later)
    (declared : region.lookup name = some first) : later.lookup name = some first := by
  rw [agree.table name found] at declared
  obtain ⟨declaration, isFirst, isId⟩ := Option.map_eq_some_iff.mp declared
  rw [agreeToo.table name foundToo, declarations.find?_eq_some isFirst, Option.map_some, isId]

/-- A walk towards the root finds what it found when regions keep their parents and what they
declare, and all but the last keep that they do not declare a name. -/
theorem lookupFrom_of_continued {name : String} {declaration : DeclarationId}
    (keeps : ∀ {id region}, scopes.region? (some id) = some region →
      ∃ later, extended.region? (some id) = some later ∧ later.parent = region.parent ∧
        (∀ first, region.lookup name = some first → later.lookup name = some first) ∧
        (region.parent ≠ none → later.lookup name = region.lookup name))
    {steps : Nat} {ref : RegionRef} (found : scopes.lookupFrom name steps ref = some declaration) :
    extended.lookupFrom name steps ref = some declaration := by
  induction steps generalizing ref with
  | zero => cases found
  | succ steps induction =>
      cases ref with
      | none => cases found
      | some id =>
          rw [lookupFrom] at found ⊢
          cases known : scopes.region? (some id) with
          | none =>
              rw [known] at found
              cases found
          | some region =>
              obtain ⟨later, knownToo, isParent, declared, undeclared⟩ := keeps known
              rw [known] at found
              rw [knownToo]
              dsimp only at found ⊢
              cases here : region.lookup name with
              | some first =>
                  rw [here] at found
                  rw [declared first here]
                  exact found
              | none =>
                  rw [here] at found
                  have notRoot : region.parent ≠ none := by
                    intro isRoot
                    rw [isRoot, lookupFrom_none] at found
                    cases found
                  rw [undeclared notRoot, here, isParent]
                  exact induction found

end ScopeTree

namespace StatementTree

private theorem Proper.exists_owner {tree : StatementTree} (proper : tree.Proper)
    {id : ExpressionId} (bounded : id.index < tree.expressions.size) :
    ∃ statement, tree.owner id = some statement ∧ statement.index < tree.statements.size := by
  have found : tree.expression? (some id) = some tree.expressions[id.index] :=
    Array.getElem?_eq_getElem bounded
  obtain ⟨statement, node, isOwner, nodeFound, _⟩ := proper.owned found
  exact ⟨statement, (owner_eq found).trans isOwner, index_lt_of_statement nodeFound⟩

end StatementTree

namespace StatementTree.Appended

variable {tree longer : StatementTree} {members : List StatementRef} {added : StatementId}
  {settings : ScopeSettings} {scopes extended : ScopeTree}
  (appended : tree.Appended longer members added) (proper : tree.Proper) (properToo : longer.Proper)
  (bound : ScopeTree.ofStatementTree settings tree = .ok scopes)
  (boundToo : ScopeTree.ofStatementTree settings longer = .ok extended)
include appended proper properToo bound boundToo

theorem declaration {i : Nat} (bounded : i < scopes.declarations.size) :
    extended.declarations[i]? = scopes.declarations[i]? := by
  obtain ⟨span, inside, middle, after, rfl, rfl, enlarged, spares, _⟩ :=
    appended.exists_binders proper properToo bound boundToo
  change i < inside.leave.declarations.size at bounded
  change after.leave.declarations[i]? = inside.leave.declarations[i]?
  rw [Binder.declarations_leave] at bounded
  rw [Binder.declarations_leave, Binder.declarations_leave, ← enlarged.declarations]
  exact spares.declaration i (enlarged.declarations ▸ bounded)

theorem region {id : RegionId} {region : Region} (found : scopes.region? (some id) = some region) :
    ∃ later, extended.region? (some id) = some later ∧
      later = if id = ⟨0⟩ then region.updated later else region := by
  obtain ⟨span, inside, middle, after, rfl, rfl, enlarged, spares, current, _⟩ :=
    appended.exists_binders proper properToo bound boundToo
  change inside.leave.regions[id.index]? = some region at found
  change ∃ later, after.leave.regions[id.index]? = some later ∧ _
  rw [Binder.regions_leave] at found ⊢
  have bounded := (Array.getElem?_eq_some_iff.mp found).1
  have size : middle.regions.size = inside.regions.size := by
    rw [enlarged.regions, Array.size_modify]
  by_cases isRoot : id = ⟨0⟩
  · subst isRoot
    have shape : (after.regions[0]?).map Region.shape = (middle.regions[0]?).map Region.shape :=
      spares.shape 0 (size ▸ bounded)
    rw [enlarged.regions, Array.getElem?_modify, if_pos rfl, found, Option.map_some,
      Option.map_some] at shape
    obtain ⟨later, foundToo, same⟩ := Option.map_eq_some_iff.mp shape
    refine ⟨later, foundToo, ?_⟩
    have updated := congrArg (fun old : Region => old.updated later) same
    rw [if_pos rfl]
    exact updated
  · have other : 0 ≠ id.index := fun same => isRoot (congrArg RegionId.mk same.symm)
    have notCurrent : middle.current ≠ some ⟨id.index⟩ := by
      rw [current]
      exact fun same => other (congrArg RegionId.index (Option.some.inj same))
    refine ⟨region, ?_, (if_neg isRoot).symm⟩
    rw [spares.region id.index (size ▸ bounded) notCurrent, enlarged.regions,
      Array.getElem?_modify, if_neg other, found]

private theorem regionOfExpression {id : ExpressionId} {region : RegionId}
    (recorded : scopes.regionOfExpression (some id) = some region) :
    extended.regionOfExpression (some id) = some region := by
  have ranked : Ranked (fun id => extended.parent (some id)) RegionId.index :=
    ScopeTree.ranked (ScopeTree.consistent_of_ofStatementTree boundToo)
  obtain ⟨span, inside, middle, after, rfl, rfl, enlarged, _, _, covers⟩ :=
    appended.exists_binders proper properToo bound boundToo
  change inside.leave.expressionRegions.lookup id.index = _ at recorded
  change after.leave.expressionRegions.lookup id.index = _
  rw [Binder.expressionRegions_leave] at recorded ⊢
  have bounded : id.index < tree.expressions.size := by
    rw [← enlarged.size]
    by_contra outside
    rw [RegionRecord.lookup, Array.getElem?_eq_none (Nat.not_lt.mp outside)] at recorded
    cases recorded
  rcases (Covers.holds covers _ (ScopeTree.shows_scopeTree after _) ranked).unchanged id with
    same | ⟨_, statement, _, isOwner, among, _⟩
  · rw [same, enlarged.record id.index bounded, recorded]
  · -- What the last member owns comes behind everything in the tree.
    obtain ⟨owner, owned, inside⟩ := proper.exists_owner bounded
    rw [StatementTree.owner, appended.expression bounded] at isOwner
    obtain rfl := Option.some.inj (isOwner.symm.trans owned)
    have within : added.index ≤ statement.index :=
      (isAmong_singleton.mp among).rank_le properToo.ranked
    exact absurd inside (Nat.not_lt.mpr (Nat.le_trans appended.behind within))

/-! ### The parts of the result -/

theorem declarations : scopes.declarations.toList <+: extended.declarations.toList := by
  refine List.prefix_iff_getElem?.mpr fun i bounded => ?_
  rw [Array.length_toList] at bounded
  rw [Array.getElem?_toList, appended.declaration proper properToo bound boundToo bounded,
    Array.getElem_toList, Array.getElem?_eq_getElem bounded]

private theorem retains : extended.Retains scopes := by
  have agree := ScopeTree.consistent_of_ofStatementTree bound
  refine ⟨fun {id region} found => ?_⟩
  obtain ⟨later, foundToo, same⟩ := appended.region proper properToo bound boundToo found
  refine ⟨later, foundToo, ?_⟩
  split at same
  next isRoot =>
    subst isRoot
    rw [same]
    exact ⟨rfl, rfl, rfl, fun hasParent => absurd (ScopeTree.parent_root agree found) hasParent⟩
  next => exact same ▸ ⟨rfl, rfl, rfl, fun _ => rfl⟩

private theorem conflicts : scopes.conflicts <+: extended.conflicts := by
  have agree := ScopeTree.consistent_of_ofStatementTree bound
  have retains := appended.retains proper properToo bound boundToo
  obtain ⟨more, both⟩ := appended.declarations proper properToo bound boundToo
  rw [← retains.conflictsAmong agree, ScopeTree.conflicts, ← both]
  exact extended.conflictsAmong_append [] _ more

/-- What a walk from a region finds it finds in the longer body. Only the region of the procedure
may declare more, and there the walk ends. -/
theorem lookupFrom {name : String} {steps : Nat} {ref : RegionRef} {declaration : DeclarationId}
    (found : scopes.lookupFrom name steps ref = some declaration) :
    extended.lookupFrom name steps ref = some declaration := by
  have agree := ScopeTree.consistent_of_ofStatementTree bound
  have agreeToo := ScopeTree.consistent_of_ofStatementTree boundToo
  have declarations := appended.declarations proper properToo bound boundToo
  refine ScopeTree.lookupFrom_of_continued (fun {id region} known => ?_) found
  obtain ⟨later, knownToo, same⟩ := appended.region proper properToo bound boundToo known
  refine ⟨later, knownToo, ?_⟩
  split at same
  next isRoot =>
    subst isRoot
    have isParent := congrArg Region.parent same
    exact ⟨isParent, fun _ =>
        ScopeTree.lookup_of_prefix agree agreeToo declarations known knownToo,
      fun hasParent => absurd (ScopeTree.parent_root agree known) hasParent⟩
  next => exact same ▸ ⟨rfl, fun _ declared => declared, fun _ => rfl⟩

private theorem resolved {name : String} {id : ExpressionId} {declaration : Declaration}
    (resolved : scopes.resolveAtExpression name (some id) = .ok declaration) :
    extended.resolveAtExpression name (some id) = .ok declaration := by
  have inScopes := ScopeTree.resolveFrom_ok_iff.mp resolved
  obtain ⟨first, walked, isFirst⟩ := Option.bind_eq_some_iff.mp inScopes
  cases recorded : scopes.regionOfExpression (some id) with
  | none =>
      rw [recorded, ScopeTree.lookupFrom_none] at walked
      cases walked
  | some region =>
      have recordedToo := appended.regionOfExpression proper properToo bound boundToo recorded
      rw [recorded] at walked
      refine ScopeTree.resolveFrom_ok_iff.mpr (Option.bind_eq_some_iff.mpr ⟨first, ?_, ?_⟩)
      · rw [recordedToo]
        exact appended.lookupFrom proper properToo bound boundToo walked
      · have bounded := (Array.getElem?_eq_some_iff.mp isFirst).1
        exact (appended.declaration proper properToo bound boundToo bounded).trans isFirst

private theorem continues : extended.Continues scopes where
  declarations := appended.declarations proper properToo bound boundToo
  region := appended.region proper properToo bound boundToo
  conflicts := appended.conflicts proper properToo bound boundToo
  resolved := appended.resolved proper properToo bound boundToo

end StatementTree.Appended

namespace ScopeTree

/-- The scope tree of a procedure whose body is a block is continued when a statement is appended to
the block. -/
theorem continues_of_append {name : String} {parameters : List Ident} {given : Option Span}
    {members : List Statement} {last : Statement} {tree longer : StatementTree}
    {settings : ScopeSettings} {scopes extended : ScopeTree}
    (laidOut : StatementTree.ofProcedure ⟨name, parameters, .mk given (.block members)⟩ = .ok tree)
    (laidOutToo : StatementTree.ofProcedure
      ⟨name, parameters, .mk given (.block (members ++ [last]))⟩ = .ok longer)
    (bound : ofStatementTree settings tree = .ok scopes)
    (boundToo : ofStatementTree settings longer = .ok extended) : extended.Continues scopes := by
  obtain ⟨refs, added, appended⟩ := StatementTree.exists_appended laidOut laidOutToo
  exact appended.continues (StatementTree.proper_of_ofProcedure laidOut)
    (StatementTree.proper_of_ofProcedure laidOutToo) bound boundToo

end ScopeTree

/-- Two declarations of a name, the first one below a condition. -/
def Statement.clash : List Statement :=
  [.ifThen (.name "a") (.localVariable "x" none), .localVariable "x" (some (.name "a"))]

/-- A third declaration adds a conflict behind that of the other two. -/
theorem ScopeTree.continues_of_append_clash :
    ∃ tree longer scopes extended,
      StatementTree.ofProcedure (.plain "p" ["a"] (.block Statement.clash)) = .ok tree ∧
      StatementTree.ofProcedure (.plain "p" ["a"]
        (.block (Statement.clash ++ [.localVariable "x" none]))) = .ok longer ∧
      ofStatementTree ⟨none, false, [], Limit.statementNesting⟩ tree = .ok scopes ∧
      ofStatementTree ⟨none, false, [], Limit.statementNesting⟩ longer = .ok extended ∧
      scopes.conflicts.length = 1 ∧ extended.conflicts.length = 2 ∧
      extended.Continues scopes := by
  have binds : (Procedure.plain "p" ["a"] (.block Statement.clash)).binds
      ⟨none, false, [], Limit.statementNesting⟩ (fun _ scopes => scopes.conflicts.length == 1) =
        true := by
    decide +kernel
  have bindsToo : (Procedure.plain "p" ["a"]
      (.block (Statement.clash ++ [.localVariable "x" none]))).binds
      ⟨none, false, [], Limit.statementNesting⟩ (fun _ scopes => scopes.conflicts.length == 2) =
        true := by
    decide +kernel
  obtain ⟨tree, scopes, laidOut, bound, one⟩ := Procedure.exists_of_binds binds
  obtain ⟨longer, extended, laidOutToo, boundToo, two⟩ := Procedure.exists_of_binds bindsToo
  exact ⟨tree, longer, scopes, extended, laidOut, laidOutToo, bound, boundToo, beq_iff_eq.mp one,
    beq_iff_eq.mp two, continues_of_append laidOut laidOutToo bound boundToo⟩

end LexicalScope
