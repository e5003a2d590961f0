import LexicalScope.Proofs.Scope.Numbering
import LexicalScope.Scope.Resolution

/-!
# Names and visible declarations

The walk that resolves a name and the walk that lists the visible declarations read the same
entries: those of the tables of the regions around a place, nearest region first, up to the limit of
a walk or to a region that does not exist. The one takes the first entry of its name, and the other
keeps the first entry of every name.
-/

namespace LexicalScope

namespace ScopeTree

variable {scopes : ScopeTree} {name : String} {id : DeclarationId} {ref : RegionRef}
  {region : Region}

/-- The entries of the tables of at most `steps` regions, from a region towards the root. -/
def entriesFrom (scopes : ScopeTree) : Nat → RegionRef → List (String × DeclarationId)
  | 0, _ => []
  | steps + 1, ref =>
    match scopes.region? ref with
    | none => []
    | some region => region.table.toList ++ scopes.entriesFrom steps region.parent

/-! ## The two walks -/

private theorem lookup_eq_find? (region : Region) (name : String) :
    region.lookup name = (region.table.toList.find? fun entry => entry.1 == name).map (·.2) := by
  rw [Region.lookup, Array.find?_toList]

private theorem lookupFrom_eq_find? (name : String) (steps : Nat) (ref : RegionRef) :
    scopes.lookupFrom name steps ref =
      ((scopes.entriesFrom steps ref).find? fun entry => entry.1 == name).map (·.2) := by
  induction steps generalizing ref with
  | zero => rfl
  | succ steps induction =>
      rw [lookupFrom, entriesFrom]
      cases scopes.region? ref with
      | none => rfl
      | some region =>
          simp only [lookup_eq_find?, List.find?_append]
          cases region.table.toList.find? fun entry => entry.1 == name with
          | some entry => rfl
          | none => exact induction region.parent

private theorem unseen_append (entries more : List (String × DeclarationId)) (seen : List String) :
    unseen (entries ++ more) seen =
      ((unseen entries seen).1 ++ (unseen more (unseen entries seen).2).1,
        (unseen more (unseen entries seen).2).2) := by
  induction entries generalizing seen with
  | nil => rfl
  | cons entry entries induction =>
      simp only [List.cons_append, unseen, induction]
      split <;> rfl

/-- The walk over the regions around lists the first entry of every name among theirs. -/
theorem visibleIn_chain (steps : Nat) (ref : RegionRef) (seen : List String) :
    scopes.visibleIn (scopes.chain steps ref) seen =
      (unseen (scopes.entriesFrom steps ref) seen).1 := by
  induction steps generalizing ref seen with
  | zero => rfl
  | succ steps induction =>
      cases ref with
      | none => rfl
      | some id =>
          rw [chain, visibleIn, entriesFrom]
          cases found : scopes.region? (some id) with
          | none => rfl
          | some region =>
              simp only [parent_eq found, induction, unseen_append]

/-! ## The first entries -/

/-- Every entry names a declaration by its name. -/
def Names (scopes : ScopeTree) (entries : List (String × DeclarationId)) : Prop :=
  ∀ entry ∈ entries, ∃ declaration, scopes.declaration? entry.2 = some declaration ∧
    declaration.name = entry.1

/-- The declarations of the first entries of all names that are not among `seen`. -/
def firsts (scopes : ScopeTree) (entries : List (String × DeclarationId)) (seen : List String) :
    List Declaration :=
  (unseen entries seen).1.filterMap scopes.declaration?

theorem firsts_cons_of_mem {entries : List (String × DeclarationId)} {seen : List String}
    (known : name ∈ seen) : scopes.firsts ((name, id) :: entries) seen =
      scopes.firsts entries seen := by
  simp only [firsts, unseen, List.contains_iff_mem, known, if_true]

theorem firsts_cons_of_not_mem {entries : List (String × DeclarationId)} {seen : List String}
    {declaration : Declaration} (isNew : name ∉ seen)
    (isDeclaration : scopes.declaration? id = some declaration) :
    scopes.firsts ((name, id) :: entries) seen =
      declaration :: scopes.firsts entries (name :: seen) := by
  simp only [firsts, unseen, List.contains_iff_mem, isNew, if_false, List.filterMap_cons,
    isDeclaration]

private theorem not_mem_of_mem_firsts {entries : List (String × DeclarationId)}
    (names : scopes.Names entries) {seen : List String} {declaration : Declaration}
    (member : declaration ∈ scopes.firsts entries seen) : declaration.name ∉ seen := by
  induction entries generalizing seen with
  | nil => cases member
  | cons entry entries induction =>
      obtain ⟨⟨first, isFirst, sameName⟩, names⟩ := List.forall_mem_cons.mp names
      by_cases known : entry.1 ∈ seen
      · rw [firsts_cons_of_mem known] at member
        exact induction names member
      · rw [firsts_cons_of_not_mem known isFirst] at member
        rcases List.mem_cons.mp member with rfl | member
        · exact sameName ▸ known
        · exact fun isSeen => induction names member (List.mem_cons_of_mem _ isSeen)

private theorem nodup_firsts {entries : List (String × DeclarationId)}
    (names : scopes.Names entries) (seen : List String) :
    ((scopes.firsts entries seen).map (·.name)).Nodup := by
  induction entries generalizing seen with
  | nil => exact List.nodup_nil
  | cons entry entries induction =>
      obtain ⟨⟨first, isFirst, sameName⟩, names⟩ := List.forall_mem_cons.mp names
      by_cases known : entry.1 ∈ seen
      · rw [firsts_cons_of_mem known]
        exact induction names seen
      · rw [firsts_cons_of_not_mem known isFirst, List.map_cons, List.nodup_cons]
        refine ⟨fun repeated => ?_, induction names _⟩
        obtain ⟨other, member, isName⟩ := List.mem_map.mp repeated
        refine not_mem_of_mem_firsts names member ?_
        rw [isName, sameName]
        exact List.mem_cons_self

private theorem find?_firsts {entries : List (String × DeclarationId)}
    (names : scopes.Names entries) {seen : List String} (isNew : name ∉ seen) :
    (scopes.firsts entries seen).find? (fun declaration => declaration.name == name) =
      ((entries.find? fun entry => entry.1 == name).map (·.2)).bind scopes.declaration? := by
  induction entries generalizing seen with
  | nil => rfl
  | cons entry entries induction =>
      obtain ⟨⟨first, isFirst, sameName⟩, names⟩ := List.forall_mem_cons.mp names
      by_cases isName : entry.1 = name
      · subst isName
        rw [firsts_cons_of_not_mem isNew isFirst, List.find?_cons_of_pos (by simp [sameName]),
          List.find?_cons_of_pos (by simp)]
        exact isFirst.symm
      · rw [List.find?_cons_of_neg (by simpa using isName)]
        by_cases known : entry.1 ∈ seen
        · rw [firsts_cons_of_mem known]
          exact induction names isNew
        · rw [firsts_cons_of_not_mem known isFirst,
            List.find?_cons_of_neg (by simpa [sameName] using isName)]
          exact induction names (by simp [Ne.symm isName, isNew])

/-! ## The tables of a scope tree -/

private theorem Numbered.names_entriesFrom (numbered : scopes.Numbered) (steps : Nat)
    (ref : RegionRef) : scopes.Names (scopes.entriesFrom steps ref) := by
  induction steps generalizing ref with
  | zero => exact List.forall_mem_nil _
  | succ steps induction =>
      rw [entriesFrom]
      cases found : scopes.region? ref with
      | none => exact List.forall_mem_nil _
      | some region =>
          refine List.forall_mem_append.mpr ⟨fun entry member => ?_, induction _⟩
          obtain ⟨id, rfl, isRegion⟩ := Option.bind_eq_some_iff.mp found
          obtain ⟨declaration, listed, isNumber, isName, _⟩ :=
            numbered.first isRegion entry.1 entry.2 (Array.mem_toList_iff.mp member)
          rw [declarationsIn, found] at listed
          obtain ⟨number, _, isDeclaration⟩ := List.mem_filterMap.mp listed
          have same : number = entry.2 :=
            (numbered.declaration isDeclaration).1.symm.trans isNumber
          exact ⟨declaration, same ▸ isDeclaration, isName⟩

private theorem visible_eq_firsts (ref : RegionRef) :
    scopes.visible ref = scopes.firsts (scopes.entriesFrom Limit.regionWalk ref) [] := by
  rw [visible, ancestors, visibleIn_chain, firsts]

/-- From every region of every scope tree, and from a reference to none, no two visible declarations
have one name, and a name means the visible declaration of that name, if there is one. -/
theorem resolveIn_eq_find?_visible {binder : Binder} {tree : StatementTree}
    (bound : (binder.bind tree).1 = .ok scopes) (ref : RegionRef) (name : String) :
    ((scopes.visible ref).map (·.name)).Nodup ∧ scopes.resolveIn name ref =
      (scopes.visible ref).find? fun declaration => declaration.name == name := by
  have names := (numbered_of_bind bound).names_entriesFrom Limit.regionWalk ref
  rw [visible_eq_firsts]
  refine ⟨nodup_firsts names [], ?_⟩
  rw [find?_firsts names List.not_mem_nil, resolveIn, lookupFrom_eq_find?]

end ScopeTree

/-- A tree put together by hand, with a block that hides the parameter by a variable of its name. -/
def StatementTree.hiding : StatementTree where
  name := "p"
  statements := #[⟨.block [some ⟨1⟩, some ⟨2⟩], ⟨0, 9⟩, none⟩,
    ⟨.localDeclaration [⟨⟨"y", ⟨2, 3⟩⟩, none⟩], ⟨1, 4⟩, some ⟨0⟩⟩,
    ⟨.block [some ⟨3⟩], ⟨4, 8⟩, some ⟨0⟩⟩,
    ⟨.localDeclaration [⟨⟨"x", ⟨5, 6⟩⟩, none⟩], ⟨5, 7⟩, some ⟨2⟩⟩]
  expressions := #[]
  parameters := [⟨"x", ⟨0, 1⟩⟩]
  root := some ⟨0⟩

theorem ScopeTree.resolveIn_eq_find?_visible_hiding :
    ∃ scopes, ((Binder.new .default).bind .hiding).1 = .ok scopes ∧
      (scopes.visible (some ⟨1⟩)).map (fun shown => (shown.name, shown.region)) =
        [("x", some ⟨1⟩), ("y", some ⟨0⟩)] ∧
      ((scopes.visible (some ⟨1⟩)).map (·.name)).Nodup ∧
      scopes.resolveIn "x" (some ⟨1⟩) =
        (scopes.visible (some ⟨1⟩)).find? fun declaration => declaration.name == "x" := by
  have check : (((Binder.new .default).bind .hiding).1.toOption.map fun scopes =>
      (scopes.visible (some ⟨1⟩)).map fun shown => (shown.name, shown.region)) =
        some [("x", some ⟨1⟩), ("y", some ⟨0⟩)] := by
    decide +kernel
  obtain ⟨scopes, isResult, shown⟩ := Option.map_eq_some_iff.mp check
  have bound : ((Binder.new .default).bind .hiding).1 = .ok scopes := by
    cases result : ((Binder.new .default).bind .hiding).1 with
    | error _ =>
        rw [result] at isResult
        cases isResult
    | ok _ =>
        rw [result] at isResult
        exact congrArg Except.ok (Option.some.inj isResult)
  exact ⟨scopes, bound, shown, resolveIn_eq_find?_visible bound (some ⟨1⟩) "x"⟩

end LexicalScope
