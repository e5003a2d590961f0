import LexicalScope.Procedure.Build
import LexicalScope.Proofs.Scope.Ancestry
import LexicalScope.Proofs.Scope.Lookup

/-!
# Names without conflicts

Every pair of declarations of one name is compared once, the earlier one first. Declarations in
regions around each other always conflict, so where no declarations do, a name means from any region
the one declaration of it that is in scope there.
-/

namespace LexicalScope

namespace ScopeTree

variable {tree : StatementTree} {scopes : ScopeTree} {id owner : RegionId} {name : String}
  {declaration a b : Declaration}

/-! ## Conflicts -/

theorem Earlier.named_cons (other : String) (declarations : List Declaration) (rest : Earlier) :
    named ((other, declarations) :: rest) name =
      if name = other then declarations else rest.named name := by
  by_cases same : name = other
  · simp [named, same]
  · simp only [named, List.lookup_cons, beq_false_of_ne same, if_neg same]

theorem Earlier.named_add (earlier : Earlier) (declaration : Declaration) (name : String) :
    (earlier.add declaration).named name =
      earlier.named name ++ if name = declaration.name then [declaration] else [] := by
  induction earlier with
  | nil => rw [add, named_cons]; rfl
  | cons entry rest induction =>
      obtain ⟨other, declarations⟩ := entry
      rw [add, named_cons]
      by_cases isOwn : other = declaration.name
      · rw [if_pos isOwn, named_cons, isOwn]
        split <;> simp
      · rw [if_neg isOwn, named_cons, induction]
        split
        next same => rw [if_neg (same ▸ isOwn), List.append_nil]
        next => rfl

private theorem conflictWith_eq_none_iff {earlier : List Declaration} :
    scopes.conflictWith declaration earlier = none ↔
      ∀ first ∈ earlier, scopes.conflict? first declaration = none := by
  simp [conflictWith]

private theorem conflictsAmong_eq_nil_iff {earlier : Earlier} {declarations : List Declaration} :
    scopes.conflictsAmong earlier declarations = [] ↔
      (∀ second ∈ declarations, ∀ first ∈ earlier.named second.name,
        scopes.conflict? first second = none) ∧
      declarations.Pairwise fun first second =>
        first.name = second.name → scopes.conflict? first second = none := by
  induction declarations generalizing earlier with
  | nil => simp [conflictsAmong]
  | cons declaration rest induction =>
      have step : scopes.conflictsAmong earlier (declaration :: rest) = [] ↔
          scopes.conflictWith declaration (earlier.named declaration.name) = none ∧
            scopes.conflictsAmong (earlier.add declaration) rest = [] := by
        rw [conflictsAmong]
        cases scopes.conflictWith declaration (earlier.named declaration.name) <;> simp
      rw [step, conflictWith_eq_none_iff, induction, List.pairwise_cons, List.forall_mem_cons]
      -- What is earlier than the rest is what was earlier before, and the declaration itself.
      have split : (∀ second ∈ rest, ∀ first ∈ (earlier.add declaration).named second.name,
          scopes.conflict? first second = none) ↔
          (∀ second ∈ rest, ∀ first ∈ earlier.named second.name,
            scopes.conflict? first second = none) ∧
          ∀ second ∈ rest, declaration.name = second.name →
            scopes.conflict? declaration second = none := by
        simp only [Earlier.named_add, List.mem_append, or_imp, forall_and, List.mem_ite_nil_right,
          List.mem_singleton]
        refine and_congr_right' (forall₂_congr fun second _ => ?_)
        constructor
        · exact fun all same => all declaration ⟨same.symm, rfl⟩
        · rintro all _ ⟨same, rfl⟩
          exact all same.symm
      rw [split]
      simp only [and_assoc, and_left_comm]

private theorem conflicts_eq_nil_iff :
    scopes.conflicts = [] ↔ scopes.declarations.toList.Pairwise fun first second =>
      first.name = second.name → scopes.conflict? first second = none := by
  rw [conflicts, conflictsAmong_eq_nil_iff]
  simp [Earlier.named]

/-- A declaration is in scope in a region: its own region is that one or around it. -/
def InScope (scopes : ScopeTree) (id : RegionId) (declaration : Declaration) : Prop :=
  ∃ owner, declaration.region = some owner ∧ scopes.IsWithin id owner

/-- Declarations of one name that are in scope in one region conflict. -/
theorem Follows.conflict?_ne_none (follows : scopes.Follows tree)
    (aMember : a ∈ scopes.declarations) (bMember : b ∈ scopes.declarations)
    (sameName : a.name = b.name) (aInScope : scopes.InScope id a)
    (bInScope : scopes.InScope id b) : scopes.conflict? a b ≠ none := by
  obtain ⟨aOwner, isOwner, toOwner⟩ := aInScope
  obtain ⟨bOwner, isOther, toOther⟩ := bInScope
  have nested : (scopes.isAncestorOrSelf a.region b.region ||
      scopes.isAncestorOrSelf b.region a.region) = true := by
    rw [isOwner, isOther, Bool.or_eq_true,
      follows.isAncestorOrSelf_iff (follows.agree.region bMember isOther),
      follows.isAncestorOrSelf_iff (follows.agree.region aMember isOwner)]
    exact (toOwner.total toOther).symm
  unfold conflict?
  rw [if_neg (not_not_intro sameName), if_pos nested]
  split <;> exact Option.some_ne_none _

private theorem Follows.eq_of_inScope (follows : scopes.Follows tree)
    (clean : scopes.conflicts = []) (aMember : a ∈ scopes.declarations)
    (bMember : b ∈ scopes.declarations) (sameName : a.name = b.name)
    (aInScope : scopes.InScope id a) (bInScope : scopes.InScope id b) : a = b := by
  have clear := List.pairwise_iff_getElem.mp (conflicts_eq_nil_iff.mp clean)
  obtain ⟨i, iBound, rfl⟩ := Array.getElem_of_mem aMember
  obtain ⟨j, jBound, rfl⟩ := Array.getElem_of_mem bMember
  rcases Nat.lt_trichotomy i j with earlier | rfl | later
  · exact absurd (clear i j iBound jBound earlier sameName)
      (follows.conflict?_ne_none aMember bMember sameName aInScope bInScope)
  · rfl
  · exact absurd (clear j i jBound iBound later sameName.symm)
      (follows.conflict?_ne_none bMember aMember sameName.symm bInScope aInScope)

/-! ## Resolution -/

private theorem exists_of_lookup (agree : Consistent scopes.regions scopes.declarations)
    {region : Region} {number : DeclarationId} (found : scopes.region? (some owner) = some region)
    (first : region.lookup name = some number) :
    ∃ declaration ∈ scopes.declarations, scopes.declaration? number = some declaration ∧
      declaration.name = name ∧ declaration.region = some owner := by
  rw [agree.table name found] at first
  obtain ⟨declaration, isFirst, rfl⟩ := Option.map_eq_some_iff.mp first
  have member := Array.mem_toList_iff.mp (List.mem_of_find?_eq_some isFirst)
  obtain ⟨i, bound, same⟩ := Array.getElem_of_mem member
  have isDeclaration : scopes.declarations[i]? = some declaration := by
    rw [Array.getElem?_eq_getElem bound, same]
  have matched := List.find?_some isFirst
  simp only [Bool.and_eq_true, beq_iff_eq] at matched
  refine ⟨declaration, member, ?_, matched⟩
  rw [declaration?, agree.declaration isDeclaration, isDeclaration]

/-- What a name means in a region is a declaration of it that is in scope there. -/
theorem inScope_of_lookupFrom (agree : Consistent scopes.regions scopes.declarations) {steps : Nat}
    {number : DeclarationId} (looked : scopes.lookupFrom name steps (some id) = some number) :
    ∃ declaration ∈ scopes.declarations, scopes.declaration? number = some declaration ∧
      declaration.name = name ∧ scopes.InScope id declaration := by
  induction steps generalizing id with
  | zero => cases looked
  | succ steps induction =>
      cases found : scopes.region? (some id) with
      | none => simp [lookupFrom, found] at looked
      | some region =>
          cases first : region.lookup name with
          | some known =>
              simp only [lookupFrom, found, first] at looked
              obtain rfl := Option.some.inj looked
              obtain ⟨declaration, member, isNumber, isName, isRegion⟩ :=
                exists_of_lookup agree found first
              exact ⟨declaration, member, isNumber, isName, id, isRegion, .refl _⟩
          | none =>
              rw [lookupFrom_of_none found first] at looked
              cases isParent : region.parent with
              | none =>
                  rw [isParent] at looked
                  cases steps <;> cases looked
              | some parent =>
                  rw [isParent] at looked
                  obtain ⟨declaration, member, isNumber, isName, owner, isRegion, within⟩ :=
                    induction looked
                  have above := (parent_eq found).trans isParent
                  exact ⟨declaration, member, isNumber, isName, owner, isRegion,
                    (Under.ofParent above).trans within⟩

/-- A name of which a declaration is in scope is found with enough steps. -/
theorem exists_lookupFrom (agree : Consistent scopes.regions scopes.declarations) {steps : Nat}
    {region : Region} (found : scopes.region? (some id) = some region)
    (enough : region.depth < steps) (member : declaration ∈ scopes.declarations)
    (inScope : scopes.InScope id declaration) :
    ∃ number, scopes.lookupFrom declaration.name steps (some id) = some number := by
  induction steps generalizing id region with
  | zero => exact absurd enough (Nat.not_lt_zero _)
  | succ steps induction =>
      cases first : region.lookup declaration.name with
      | some number => exact ⟨number, by simp only [lookupFrom, found, first]⟩
      | none =>
          obtain ⟨owner, isRegion, within⟩ := inScope
          rw [lookupFrom_of_none found first]
          rcases within.eq_or_parent with rfl | ⟨parent, above, higher⟩
          · rw [agree.table _ found, Option.map_eq_none_iff, List.find?_eq_none] at first
            exact absurd (by simp [isRegion]) (first declaration (Array.mem_toList_iff.mpr member))
          · have isParent : region.parent = some parent := (parent_eq found).symm.trans above
            obtain ⟨_, outer, outerFound, deeper⟩ := agree.parent found isParent
            rw [isParent]
            exact induction outerFound (by omega) ⟨owner, isRegion, higher⟩

/-- Where no declarations conflict, at most one declaration of a name is in scope in a region, and
it is what the name means there; a name without any means nothing. -/
theorem resolveIn_eq_some_iff_of_clean {procedure : Procedure} {settings : ScopeSettings}
    (laidOut : StatementTree.ofProcedure procedure = .ok tree)
    (bound : ScopeTree.ofStatementTree settings tree = .ok scopes) (clean : scopes.conflicts = [])
    (bounded : id.index < scopes.regions.size) (name : String) :
    (∀ a ∈ scopes.declarations, ∀ b ∈ scopes.declarations, a.name = name → b.name = name →
      scopes.InScope id a → scopes.InScope id b → a = b) ∧
    ∀ declaration, scopes.resolveIn name (some id) = some declaration ↔
      declaration ∈ scopes.declarations ∧ declaration.name = name ∧
        scopes.InScope id declaration := by
  have follows := follows_of_ofProcedure laidOut bound
  have agree := follows.agree
  have unique : ∀ a ∈ scopes.declarations, ∀ b ∈ scopes.declarations, a.name = name →
      b.name = name → scopes.InScope id a → scopes.InScope id b → a = b :=
    fun a aMember b bMember isName isOther =>
      follows.eq_of_inScope clean aMember bMember (isName.trans isOther.symm)
  refine ⟨unique, fun declaration => ?_⟩
  rw [resolveIn, Option.bind_eq_some_iff]
  constructor
  · rintro ⟨number, looked, isDeclaration⟩
    obtain ⟨known, member, isNumber, isName, inScope⟩ := inScope_of_lookupFrom agree looked
    obtain rfl := Option.some.inj (isNumber.symm.trans isDeclaration)
    exact ⟨member, isName, inScope⟩
  · rintro ⟨member, rfl, inScope⟩
    have found : scopes.region? (some id) = some scopes.regions[id.index] :=
      Array.getElem?_eq_getElem bounded
    obtain ⟨number, looked⟩ := exists_lookupFrom agree found (follows.depth_lt_regionWalk found)
      member inScope
    obtain ⟨known, knownMember, isNumber, isName, knownInScope⟩ :=
      inScope_of_lookupFrom agree looked
    obtain rfl := unique known knownMember declaration member isName rfl knownInScope inScope
    exact ⟨number, looked, isNumber⟩

end ScopeTree

/-- Two links of a chain that declare one name, and a block that declares another one. -/
def Procedure.reusing : Procedure :=
  .plain "p" ["a"] (.ifElse (.testAs (.name "a") "T" "x") (.evaluation (.name "x"))
    (.ifThen (.testAs (.name "a") "U" "x") (.block [.localVariable "y" (some (.name "x"))])))

theorem ScopeTree.resolveIn_eq_some_iff_reusing :
    ∃ tree scopes, StatementTree.ofProcedure .reusing = .ok tree ∧
      ScopeTree.ofStatementTree .default tree = .ok scopes ∧ scopes.conflicts = [] ∧
      2 < scopes.regions.size ∧
      (∀ a ∈ scopes.declarations, ∀ b ∈ scopes.declarations, a.name = "x" → b.name = "x" →
        scopes.InScope ⟨2⟩ a → scopes.InScope ⟨2⟩ b → a = b) ∧
      ∀ declaration, scopes.resolveIn "x" (some ⟨2⟩) = some declaration ↔
        declaration ∈ scopes.declarations ∧ declaration.name = "x" ∧
          scopes.InScope ⟨2⟩ declaration := by
  have binds : Procedure.reusing.binds .default
      (fun _ scopes => scopes.conflicts.isEmpty && decide (2 < scopes.regions.size)) = true := by
    decide +kernel
  obtain ⟨tree, scopes, laidOut, bound, check⟩ := Procedure.exists_of_binds binds
  rw [Bool.and_eq_true, List.isEmpty_iff, decide_eq_true_eq] at check
  obtain ⟨clean, bounded⟩ := check
  exact ⟨tree, scopes, laidOut, bound, clean, bounded,
    resolveIn_eq_some_iff_of_clean laidOut bound clean bounded "x"⟩

end LexicalScope
