import LexicalScope.Proofs.Scope.Numbering
import LexicalScope.Proofs.Scope.Unambiguous

/-!
# Comparing all pairs of declarations

Conflicts are looked for among the earlier declarations of the same name only. Since declarations of
different names never conflict, this finds what comparing every declaration with all those before it
finds: for each declaration the first one that it conflicts with.
-/

namespace LexicalScope

private theorem findSome?_range_length {Element Result : Type} {elements : List Element}
    {atPlace : Nat → Option Result} {ofElement : Element → Option Result}
    (same : ∀ place element, elements[place]? = some element →
      atPlace place = ofElement element) :
    (List.range elements.length).findSome? atPlace = elements.findSome? ofElement := by
  induction elements generalizing atPlace with
  | nil => rfl
  | cons first rest induction =>
      have others : (List.range rest.length).findSome? (atPlace ∘ Nat.succ) =
          rest.findSome? ofElement :=
        induction fun place element found => same (place + 1) element found
      rw [List.length_cons, List.range_succ_eq_map, List.findSome?_cons, same 0 first rfl,
        List.findSome?_cons, List.findSome?_map, others]

theorem findSome?_range_eq_some {Result : Type} {search : Nat → Option Result} {count : Nat}
    {result : Result} : (List.range count).findSome? search = some result ↔
      ∃ place < count, search place = some result ∧ ∀ before < place, search before = none := by
  induction count with
  | zero => simp
  | succ count induction =>
      rw [List.range_succ, List.findSome?_append, Option.or_eq_some_iff, induction,
        List.findSome?_singleton, List.findSome?_eq_none_iff]
      simp only [List.mem_range]
      constructor
      · rintro (⟨place, inside, isResult, first⟩ | ⟨nothing, isResult⟩)
        · exact ⟨place, Nat.lt_succ_of_lt inside, isResult, first⟩
        · exact ⟨count, Nat.lt_succ_self _, isResult, nothing⟩
      · rintro ⟨place, inside, isResult, first⟩
        rcases Nat.lt_succ_iff_lt_or_eq.mp inside with isBefore | rfl
        · exact .inl ⟨place, isBefore, isResult, first⟩
        · exact .inr ⟨first, isResult⟩

/-- What is found at ascending places is found in order, and nothing twice. -/
theorem pairwise_filterMap_range {Result Key : Type} {search : Nat → Option Result}
    {key : Result → Option Key} {place : Key → Nat} {count : Nat}
    (keyed : ∀ {i result known}, search i = some result → key result = some known →
      place known = i) :
    (((List.range count).filterMap search).filterMap key).Pairwise fun first second =>
      place first < place second := by
  rw [List.filterMap_filterMap, List.pairwise_filterMap]
  refine List.pairwise_lt_range.imp fun {i j} less first isFirst second isSecond => ?_
  obtain ⟨_, firstFound, firstKey⟩ := Option.bind_eq_some_iff.mp isFirst
  obtain ⟨_, secondFound, secondKey⟩ := Option.bind_eq_some_iff.mp isSecond
  rw [keyed firstFound firstKey, keyed secondFound secondKey]
  exact less

/-- The declaration that a conflict reports as the later one. -/
def Finding.duplicate? : Finding → Option DeclarationId
  | conflict _ _ duplicate _ _ _ => some duplicate
  | _ => none

namespace ScopeTree

variable {scopes : ScopeTree} {binder : Binder} {tree : StatementTree}
  {declaration first second : Declaration}

/-- The conflict between the declarations of two numbers. -/
def conflictAt? (scopes : ScopeTree) (i j : Nat) : Option Finding := do
  let first ← scopes.declaration? ⟨i⟩
  let second ← scopes.declaration? ⟨j⟩
  (scopes.conflict? first second).map fun reason =>
    .conflict second.name ⟨i⟩ ⟨j⟩ first.span second.span reason

/-- For every declaration its conflict with the first of all those before it that it conflicts
with. -/
def firstConflicts (scopes : ScopeTree) : List Finding :=
  (List.range scopes.declarations.size).filterMap fun j =>
    (List.range j).findSome? fun i => scopes.conflictAt? i j

private theorem conflictWith_filter (declaration : Declaration) (earlier : List Declaration) :
    scopes.conflictWith declaration (earlier.filter fun first => first.name == declaration.name) =
      scopes.conflictWith declaration earlier := by
  unfold conflictWith
  induction earlier with
  | nil => rfl
  | cons first rest induction =>
      rw [List.filter_cons, List.findSome?_cons, ← induction]
      split
      next => rw [List.findSome?_cons]
      next apart =>
        have nothing : scopes.conflict? first declaration = none :=
          if_pos fun same => apart (beq_iff_eq.mpr same)
        rw [nothing]
        rfl

/-- The conflicts among declarations are found by comparing each with all those before it. -/
theorem conflictsAmong_eq_filterMap {earlier : Earlier} {before rest : List Declaration}
    (grouped : ∀ name, earlier.named name = before.filter fun first => first.name == name) :
    scopes.conflictsAmong earlier rest = (List.range rest.length).filterMap fun place =>
      rest[place]?.bind fun declaration =>
        scopes.conflictWith declaration (before ++ rest.take place) := by
  induction rest generalizing earlier before with
  | nil => rfl
  | cons declaration rest induction =>
      have regrouped : ∀ name, (earlier.add declaration).named name =
          (before ++ [declaration]).filter fun first => first.name == name := by
        intro name
        rw [Earlier.named_add, grouped, List.filter_append]
        by_cases same : name = declaration.name
        · simp [same]
        · simp [same, Ne.symm same]
      have own : scopes.conflictWith declaration (earlier.named declaration.name) =
          scopes.conflictWith declaration before := by
        rw [grouped, conflictWith_filter]
      rw [conflictsAmong, own, induction regrouped, List.length_cons, List.range_succ_eq_map,
        List.filterMap_cons, List.filterMap_map]
      simp only [List.getElem?_cons_zero, Option.bind_some, List.take_zero, List.append_nil,
        Function.comp_def, List.getElem?_cons_succ, List.take_succ_cons, List.append_assoc,
        List.singleton_append]
      cases scopes.conflictWith declaration before <;> rfl

theorem conflictAt?_eq_map {i j : Nat} (firstFound : scopes.declaration? ⟨i⟩ = some first)
    (secondFound : scopes.declaration? ⟨j⟩ = some second) :
    scopes.conflictAt? i j = (scopes.conflict? first second).map fun reason =>
      .conflict second.name ⟨i⟩ ⟨j⟩ first.span second.span reason := by
  simp [conflictAt?, firstFound, secondFound]

theorem exists_of_conflictAt? {i j : Nat} {finding : Finding}
    (isFinding : scopes.conflictAt? i j = some finding) : ∃ first second reason,
      scopes.declaration? ⟨i⟩ = some first ∧ scopes.declaration? ⟨j⟩ = some second ∧
        scopes.conflict? first second = some reason ∧
        finding = .conflict second.name ⟨i⟩ ⟨j⟩ first.span second.span reason := by
  simp only [conflictAt?, Option.bind_eq_bind, Option.bind_eq_some_iff,
    Option.map_eq_some_iff] at isFinding
  obtain ⟨first, firstFound, second, secondFound, reason, isReason, rfl⟩ := isFinding
  exact ⟨first, second, reason, firstFound, secondFound, isReason, rfl⟩

section Numbered

variable (numbered : scopes.Numbered)
include numbered

theorem Numbered.declaration?_id {id : DeclarationId}
    (found : scopes.declaration? id = some declaration) : declaration.id = id :=
  (numbered.declaration found).1

private theorem Numbered.mem_iff :
    declaration ∈ scopes.declarations ↔ scopes.declaration? declaration.id = some declaration := by
  constructor
  · intro member
    obtain ⟨place, found⟩ := Array.getElem?_of_mem member
    rw [declaration?, (numbered.declaration found).1, found]
  · exact Array.mem_of_getElem?

private theorem Numbered.conflictWith_take {j : Nat}
    (found : scopes.declaration? ⟨j⟩ = some declaration) :
    scopes.conflictWith declaration (scopes.declarations.toList.take j) =
      (List.range j).findSome? fun i => scopes.conflictAt? i j := by
  have inside : j < scopes.declarations.toList.length := (Array.getElem?_eq_some_iff.mp found).1
  have same : ∀ i first, (scopes.declarations.toList.take j)[i]? = some first →
      scopes.conflictAt? i j = (scopes.conflict? first declaration).map fun reason =>
        .conflict declaration.name first.id declaration.id first.span declaration.span reason := by
    intro i first firstFound
    rw [List.getElem?_take, Array.getElem?_toList] at firstFound
    have isFirst : scopes.declaration? ⟨i⟩ = some first :=
      (Option.ite_none_right_eq_some.mp firstFound).2
    rw [conflictAt?_eq_map isFirst found, numbered.declaration?_id isFirst,
      numbered.declaration?_id found]
  have searched := findSome?_range_length same
  rw [List.length_take_of_le (Nat.le_of_lt inside)] at searched
  exact searched.symm

theorem Numbered.conflicts_eq_firstConflicts : scopes.conflicts = scopes.firstConflicts := by
  have ungrouped : ∀ name, Earlier.named [] name =
      ([] : List Declaration).filter fun first => first.name == name := fun _ => rfl
  rw [conflicts, conflictsAmong_eq_filterMap ungrouped, firstConflicts, Array.length_toList]
  refine List.filterMap_congr fun j member => ?_
  have found : scopes.declarations[j]? = some _ :=
    Array.getElem?_eq_getElem (List.mem_range.mp member)
  rw [Array.getElem?_toList, found, Option.bind_some, List.nil_append,
    numbered.conflictWith_take found]

/-- What is reported are the conflicts of declarations with the first earlier ones that they
conflict with. -/
theorem Numbered.mem_firstConflicts_iff {finding : Finding} :
    finding ∈ scopes.firstConflicts ↔ ∃ first ∈ scopes.declarations,
      ∃ second ∈ scopes.declarations, ∃ reason, first.id.index < second.id.index ∧
        scopes.conflict? first second = some reason ∧
        (∀ other ∈ scopes.declarations, other.id.index < first.id.index →
          scopes.conflict? other second = none) ∧
        finding = .conflict second.name first.id second.id first.span second.span reason := by
  simp only [firstConflicts, List.mem_filterMap, List.mem_range, findSome?_range_eq_some]
  constructor
  · rintro ⟨j, _, i, before, isFinding, nothing⟩
    obtain ⟨first, second, reason, firstFound, secondFound, isReason, rfl⟩ :=
      exists_of_conflictAt? isFinding
    have firstId := numbered.declaration?_id firstFound
    have secondId := numbered.declaration?_id secondFound
    refine ⟨first, Array.mem_of_getElem? firstFound, second, Array.mem_of_getElem? secondFound,
      reason, by rwa [firstId, secondId], isReason, fun other member lower => ?_,
      by rw [firstId, secondId]⟩
    rw [firstId] at lower
    have none := nothing other.id.index lower
    rw [conflictAt?_eq_map (numbered.mem_iff.mp member) secondFound] at none
    exact Option.map_eq_none_iff.mp none
  · rintro ⟨first, firstMember, second, secondMember, reason, before, isReason, nothing, rfl⟩
    have firstFound := numbered.mem_iff.mp firstMember
    have secondFound := numbered.mem_iff.mp secondMember
    have inside := (Array.getElem?_eq_some_iff.mp secondFound).1
    refine ⟨second.id.index, inside, first.id.index, before, ?_, fun k lower => ?_⟩
    · rw [conflictAt?_eq_map firstFound secondFound, isReason]
      rfl
    · have found : scopes.declaration? ⟨k⟩ = some scopes.declarations[k] :=
        Array.getElem?_eq_getElem (Nat.lt_trans lower (Nat.lt_trans before inside))
      have isNumber := numbered.declaration?_id found
      rw [conflictAt?_eq_map found secondFound,
        nothing _ (Array.mem_of_getElem? found) (by rwa [isNumber])]
      rfl

end Numbered

private theorem duplicate?_of_findSome? {j : Nat} {finding : Finding}
    (isFinding : ((List.range j).findSome? fun i => scopes.conflictAt? i j) = some finding) :
    finding.duplicate? = some ⟨j⟩ := by
  obtain ⟨i, _, isConflict, _⟩ := findSome?_range_eq_some.mp isFinding
  obtain ⟨_, _, _, _, _, _, rfl⟩ := exists_of_conflictAt? isConflict
  rfl

private theorem pairwise_duplicates :
    (scopes.firstConflicts.filterMap Finding.duplicate?).Pairwise fun first second =>
      first.index < second.index := by
  refine pairwise_filterMap_range fun isFinding isDuplicate => ?_
  obtain rfl := Option.some.inj ((duplicate?_of_findSome? isFinding).symm.trans isDuplicate)
  rfl

/-- The conflicts of a scope tree are those that comparing all pairs of declarations finds: each
declaration is reported at most once, against the first one before it that it conflicts with, and
nothing else is reported. -/
theorem conflicts_of_bind (bound : (binder.bind tree).1 = .ok scopes) :
    scopes.conflicts = scopes.firstConflicts ∧
    ((scopes.conflicts.filterMap Finding.duplicate?).Pairwise fun first second =>
      first.index < second.index) ∧
    ∀ finding, finding ∈ scopes.conflicts ↔ ∃ first ∈ scopes.declarations,
      ∃ second ∈ scopes.declarations, ∃ reason, first.id.index < second.id.index ∧
        scopes.conflict? first second = some reason ∧
        (∀ other ∈ scopes.declarations, other.id.index < first.id.index →
          scopes.conflict? other second = none) ∧
        finding = .conflict second.name first.id second.id first.span second.span reason := by
  have numbered := numbered_of_bind bound
  rw [numbered.conflicts_eq_firstConflicts]
  exact ⟨rfl, pairwise_duplicates, fun _ => numbered.mem_firstConflicts_iff⟩

end ScopeTree

/-- A name declared four times: in two branches that exclude each other, then twice in a row. -/
def Procedure.redeclaring : Procedure :=
  .plain "p" ["a"] (.block [
    .ifElse (.name "a") (.block [.localVariable "x" none]) (.block [.localVariable "x" none]),
    .localVariable "x" none, .localVariable "x" none])

theorem ScopeTree.conflicts_redeclaring :
    ∃ tree scopes, StatementTree.ofProcedure .redeclaring = .ok tree ∧
      ((Binder.new .default).bind tree).1 = .ok scopes ∧ scopes.conflicts.length = 2 ∧
      scopes.conflicts = scopes.firstConflicts ∧
      ((scopes.conflicts.filterMap Finding.duplicate?).Pairwise fun first second =>
        first.index < second.index) ∧
      ∀ finding, finding ∈ scopes.conflicts ↔ ∃ first ∈ scopes.declarations,
        ∃ second ∈ scopes.declarations, ∃ reason, first.id.index < second.id.index ∧
          scopes.conflict? first second = some reason ∧
          (∀ other ∈ scopes.declarations, other.id.index < first.id.index →
            scopes.conflict? other second = none) ∧
          finding = .conflict second.name first.id second.id first.span second.span reason := by
  have binds : Procedure.redeclaring.binds .default
      (fun _ scopes => scopes.conflicts.length == 2) = true := by decide +kernel
  obtain ⟨tree, scopes, laidOut, bound, check⟩ := Procedure.exists_of_binds binds
  exact ⟨tree, scopes, laidOut, bound, eq_of_beq check, conflicts_of_bind bound⟩

end LexicalScope
