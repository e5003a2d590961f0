import LexicalScope.Procedure.Build
import LexicalScope.Proofs.Scope.Numbering
import LexicalScope.Proofs.Scope.Sites
import LexicalScope.Report.Outline
import Mathlib.Data.Set.Card

/-!
# The outline of a scope tree

The outline keeps a list of regions that it has still to visit. It takes the first one away and puts
the children of that region in its place. Regions are numbered in the order in which they were
opened, so the regions inside the pending ones always have the numbers from that of the next visit
on, without a gap. So the visits come to an end, and they are in the order of the numbers. Names go
into the entries as they are, so that the outline has a line for each region just if no declared
name has a line break.
-/

namespace LexicalScope

namespace ScopeTree

variable {scopes : ScopeTree} {id inner outer : RegionId} {region : Region}
  {first second pending children : List RegionId} {regions : List Region}
  {turns steps start middle stop : Nat}

/-- A number of turns visits the regions under pending references and leaves nothing pending. A
reference to no region is passed over. -/
inductive Visits (scopes : ScopeTree) : Nat → List RegionId → List Region → Prop
  | done : Visits scopes 0 [] []
  | skip {turns : Nat} {id : RegionId} {pending : List RegionId} {regions : List Region} :
      scopes.region? (some id) = none → Visits scopes turns pending regions →
        Visits scopes (turns + 1) (id :: pending) regions
  | visit {turns : Nat} {id : RegionId} {region : Region} {pending : List RegionId}
      {regions : List Region} :
      scopes.region? (some id) = some region →
        Visits scopes turns (region.children.toList ++ pending) regions →
          Visits scopes (turns + 1) (id :: pending) (region :: regions)

/-- With as many steps as there are turns, and with more, the outline has every visit. -/
theorem Visits.outlineOrder_eq (visits : scopes.Visits turns pending regions)
    (enough : turns ≤ steps) : scopes.outlineOrder steps pending = regions := by
  induction visits generalizing steps with
  | done => cases steps <;> rfl
  | skip missing _ induction =>
      obtain ⟨steps, rfl⟩ := Nat.exists_eq_add_of_le' enough
      rw [← Nat.add_assoc, outlineOrder, missing]
      exact induction (Nat.le_add_left ..)
  | visit found _ induction =>
      obtain ⟨steps, rfl⟩ := Nat.exists_eq_add_of_le' enough
      rw [← Nat.add_assoc, outlineOrder, found]
      exact congrArg (List.cons _) (induction (Nat.le_add_left ..))

/-! ## Regions without a gap -/

/-- The regions in a region are those from it up to a number. -/
def EndsAt (scopes : ScopeTree) (id : RegionId) (stop : Nat) : Prop :=
  ∀ inner : RegionId, scopes.IsWithin inner id ↔ id.index ≤ inner.index ∧ inner.index < stop

/-- The regions in some pending ones are in order those from a number up to another. -/
inductive Tiles (scopes : ScopeTree) : Nat → List RegionId → Nat → Prop
  | nil {stop : Nat} : Tiles scopes stop [] stop
  | cons {id : RegionId} {pending : List RegionId} {start middle stop : Nat} : id.index = start →
      start < middle → scopes.EndsAt id middle → Tiles scopes middle pending stop →
        Tiles scopes start (id :: pending) stop

private theorem Tiles.le (tiles : scopes.Tiles start pending stop) : start ≤ stop := by
  induction tiles with
  | nil => exact Nat.le_refl _
  | cons _ before _ _ induction => exact Nat.le_trans (Nat.le_of_lt before) induction

private theorem Tiles.append (tiles : scopes.Tiles start first middle)
    (others : scopes.Tiles middle second stop) : scopes.Tiles start (first ++ second) stop := by
  induction tiles with
  | nil => exact others
  | cons isFirst before ends _ induction => exact .cons isFirst before ends (induction others)

namespace Numbered

theorem ranked (numbered : scopes.Numbered) :
    Ranked (fun id => scopes.parent (some id)) RegionId.index := by
  intro lower upper above
  obtain ⟨region, found, isParent⟩ := Option.bind_eq_some_iff.mp above
  by_cases isRoot : lower.index = 0
  · obtain ⟨root, rootFound, noParent, _⟩ := numbered.root
    have rootFound : scopes.region? (some lower) = some root :=
      (congrArg (scopes.regions[·]?) isRoot).trans rootFound
    obtain rfl := Option.some.inj (rootFound.symm.trans found)
    rw [noParent] at isParent
    cases isParent
  · obtain ⟨parent, _, known, before, _⟩ := numbered.parent found isRoot
    obtain rfl := Option.some.inj (known.symm.trans isParent)
    exact before

theorem exists_endsAt (numbered : scopes.Numbered) (bound : id.index < scopes.regions.size) :
    ∃ stop, id.index < stop ∧ stop ≤ scopes.regions.size ∧ scopes.EndsAt id stop :=
  numbered.below bound

private theorem tiles_of_ascending (numbered : scopes.Numbered)
    (siblings : ∀ child ∈ children, scopes.parent (some child) = some outer)
    (ascending : children.Pairwise fun first second => first.index < second.index)
    (ordered : start ≤ stop)
    (inside : ∀ child ∈ children, ∀ inner, scopes.IsWithin inner child →
      start ≤ inner.index ∧ inner.index < stop)
    (covered : ∀ inner : RegionId, start ≤ inner.index → inner.index < stop →
      ∃ child ∈ children, scopes.IsWithin inner child) :
    scopes.Tiles start children stop := by
  induction children generalizing start with
  | nil =>
      rcases Nat.eq_or_lt_of_le ordered with rfl | before
      · exact .nil
      · obtain ⟨_, absurd, _⟩ := covered ⟨start⟩ (Nat.le_refl _) before
        cases absurd
  | cons child rest induction =>
      obtain ⟨behind, ascending⟩ := List.pairwise_cons.mp ascending
      obtain ⟨region, found, _⟩ := Option.bind_eq_some_iff.mp (siblings child List.mem_cons_self)
      obtain ⟨middle, before, _, ends⟩ :=
        numbered.exists_endsAt (Array.getElem?_eq_some_iff.mp found).1
      obtain ⟨lower, upper⟩ := inside child List.mem_cons_self child (.refl _)
      -- The child that holds the first number cannot be behind this one, which is not before it.
      have isFirst : child.index = start := by
        obtain ⟨other, member, within⟩ :=
          covered ⟨start⟩ (Nat.le_refl _) (Nat.lt_of_le_of_lt lower upper)
        have notBehind : other.index ≤ start := within.rank_le numbered.ranked
        rcases List.mem_cons.mp member with rfl | later
        · exact Nat.le_antisymm notBehind lower
        · have := behind other later
          omega
      have lastWithin : scopes.IsWithin ⟨middle - 1⟩ child :=
        (ends ⟨middle - 1⟩).mpr ⟨Nat.le_sub_one_of_lt before, Nat.sub_lt (by omega) Nat.one_pos⟩
      have last := (inside child List.mem_cons_self _ lastWithin).2
      have tiles : scopes.Tiles middle rest stop := by
        refine induction (fun other member => siblings other (List.mem_cons_of_mem _ member))
          ascending (Nat.le_of_pred_lt last) (fun other member inner within => ⟨?_, ?_⟩)
          fun inner lower upper => ?_
        · by_contra notBehind
          have above : other.index ≤ inner.index := within.rank_le numbered.ranked
          have less := behind other member
          have inBoth : scopes.IsWithin inner child := (ends inner).mpr ⟨by omega, by omega⟩
          have same := Under.child_unique numbered.ranked (siblings child List.mem_cons_self)
            (siblings other (List.mem_cons_of_mem _ member)) inBoth within
          exact Nat.lt_irrefl _ (same ▸ less)
        · exact (inside other (List.mem_cons_of_mem _ member) inner within).2
        · obtain ⟨other, member, within⟩ := covered inner (by omega) upper
          rcases List.mem_cons.mp member with rfl | later
          · have := ((ends inner).mp within).2
            omega
          · exact ⟨other, later, within⟩
      exact .cons isFirst (isFirst ▸ before) ends tiles

private theorem tiles_children (numbered : scopes.Numbered)
    (found : scopes.region? (some id) = some region) (before : id.index < stop)
    (ends : scopes.EndsAt id stop) :
    scopes.Tiles (id.index + 1) region.children.toList stop := by
  obtain ⟨ascending, isChild⟩ := numbered.children found
  have siblings : ∀ child ∈ region.children.toList, scopes.parent (some child) = some id :=
    fun child member => (isChild child).mp (Array.mem_toList_iff.mp member)
  refine numbered.tiles_of_ascending siblings ascending before
    (fun child member inner within => ?_) fun inner lower upper => ?_
  · have behind : id.index < child.index := numbered.ranked (siblings child member)
    have notBefore : child.index ≤ inner.index := within.rank_le numbered.ranked
    have inside := (ends inner).mp (within.under_parent (siblings child member))
    exact ⟨by omega, inside.2⟩
  · rcases ((ends inner).mpr ⟨by omega, upper⟩).eq_or_child with rfl | ⟨child, isParent, within⟩
    · omega
    · exact ⟨child, Array.mem_toList_iff.mpr ((isChild child).mpr isParent), within⟩

/-- When the regions in the pending ones are all from some number on, these are visited in order. -/
theorem visits_of_tiles (numbered : scopes.Numbered)
    (tiles : scopes.Tiles start pending scopes.regions.size)
    (rest : start + turns = scopes.regions.size) :
    scopes.Visits turns pending (scopes.regions.toList.drop start) := by
  induction turns generalizing start pending with
  | zero =>
      obtain rfl : start = scopes.regions.size := rest
      have nothing : scopes.regions.toList.drop scopes.regions.size = [] :=
        List.drop_eq_nil_of_le (Nat.le_of_eq Array.length_toList)
      cases tiles with
      | nil => exact nothing ▸ .done
      | cons _ before _ others => exact absurd others.le (Nat.not_le.mpr before)
  | succ turns induction =>
      cases tiles with
      | nil => omega
      | @cons id _ _ middle _ isFirst before ends others =>
          subst isFirst
          have bound : id.index < scopes.regions.size := Nat.lt_of_lt_of_le before others.le
          have found : scopes.region? (some id) = some scopes.regions[id.index] :=
            Array.getElem?_eq_getElem bound
          rw [List.drop_eq_getElem_cons (by simpa using bound), Array.getElem_toList]
          exact .visit found (induction ((numbered.tiles_children found before ends).append others)
            (by omega))

private theorem isWithin_root (numbered : scopes.Numbered)
    (bound : id.index < scopes.regions.size) : scopes.IsWithin id ⟨0⟩ := by
  obtain ⟨i⟩ := id
  induction i using Nat.strong_induction_on with
  | _ i induction =>
      by_cases isRoot : i = 0
      · exact isRoot ▸ .refl _
      · obtain ⟨parent, outer, isParent, before, outerFound, _⟩ :=
          numbered.parent (Array.getElem?_eq_getElem bound) isRoot
        have above : scopes.parent (some ⟨i⟩) = some parent :=
          Option.bind_eq_some_iff.mpr ⟨_, Array.getElem?_eq_getElem bound, isParent⟩
        exact (Under.ofParent above).trans
          (induction parent.index before (Array.getElem?_eq_some_iff.mp outerFound).1)

theorem visits_root (numbered : scopes.Numbered) :
    scopes.Visits scopes.regions.size [⟨0⟩] scopes.regions.toList := by
  obtain ⟨root, rootFound, _⟩ := numbered.root
  have bound : 0 < scopes.regions.size := (Array.getElem?_eq_some_iff.mp rootFound).1
  obtain ⟨stop, before, inSize, ends⟩ : ∃ stop, 0 < stop ∧ stop ≤ scopes.regions.size ∧
      scopes.EndsAt ⟨0⟩ stop := numbered.exists_endsAt bound
  have lastWithin : scopes.IsWithin ⟨scopes.regions.size - 1⟩ ⟨0⟩ :=
    numbered.isWithin_root (Nat.sub_one_lt_of_lt bound)
  have last : scopes.regions.size - 1 < stop := ((ends _).mp lastWithin).2
  obtain rfl : stop = scopes.regions.size := by omega
  exact numbered.visits_of_tiles (.cons rfl before ends .nil) (Nat.zero_add _)

theorem root_eq (numbered : scopes.Numbered) : scopes.root = some ⟨0⟩ := by
  obtain ⟨root, rootFound, _⟩ := numbered.root
  have bound : 0 < scopes.regions.size := (Array.getElem?_eq_some_iff.mp rootFound).1
  have notEmpty : ¬ scopes.regions.isEmpty = true := by
    rw [Array.isEmpty_iff_size_eq_zero]
    exact Nat.ne_of_gt bound
  rw [ScopeTree.root, if_neg notEmpty]

theorem outlineRegions_eq (numbered : scopes.Numbered) :
    scopes.outlineRegions = scopes.regions.toList := by
  rw [outlineRegions, numbered.root_eq]
  exact numbered.visits_root.outlineOrder_eq (Nat.le_refl _)

end Numbered

/-! ## Entries -/

/-- The regions properly around a region. -/
def around (scopes : ScopeTree) (id : RegionId) : Set RegionId :=
  {outer | outer ≠ id ∧ scopes.IsWithin id outer}

/-- The entry of a region has two blanks for each region properly around it, then its number and
what there is to say about it, and ends with a line break. -/
def IsEntryOf (scopes : ScopeTree) (region : Region) (entry : String) : Prop :=
  ∃ (count : Nat) (details : String), (scopes.around region.id).encard = count ∧
    entry = String.ofList (List.replicate (2 * count) ' ') ++ RegionRef.text (some region.id) ++
      " " ++ details ++ "\n"

private theorem Numbered.around_eq (numbered : scopes.Numbered) :
    scopes.around inner = match scopes.parent (some inner) with
      | none => ∅
      | some parent => insert parent (scopes.around parent) := by
  ext outer
  cases isParent : scopes.parent (some inner) with
  | none =>
      refine iff_of_false (fun ⟨different, within⟩ => ?_) (Set.notMem_empty outer)
      rcases within.eq_or_parent with same | ⟨above, isAbove, _⟩
      · exact different same.symm
      · rw [isParent] at isAbove
        cases isAbove
  | some parent =>
      have before : parent.index < inner.index := numbered.ranked isParent
      constructor
      · rintro ⟨different, within⟩
        rcases within.eq_or_parent with same | ⟨above, isAbove, higher⟩
        · exact absurd same.symm different
        · obtain rfl := Option.some.inj (isParent.symm.trans isAbove)
          by_cases same : outer = parent
          · exact .inl same
          · exact .inr ⟨same, higher⟩
      · intro member
        have within : scopes.IsWithin parent outer := by
          rcases member with rfl | ⟨_, higher⟩
          · exact .refl _
          · exact higher
        refine ⟨?_, (Under.ofParent isParent).trans within⟩
        rintro rfl
        have notBehind : outer.index ≤ parent.index := within.rank_le numbered.ranked
        omega

/-- The depth of a region is the number of regions around it. -/
theorem Numbered.encard_around (numbered : scopes.Numbered)
    (found : scopes.region? (some id) = some region) :
    (scopes.around id).encard = region.depth := by
  obtain ⟨i⟩ := id
  induction i using Nat.strong_induction_on generalizing region with
  | _ i induction =>
      have isParent : scopes.parent (some ⟨i⟩) = region.parent := parent_eq found
      rw [numbered.around_eq, isParent]
      by_cases isRoot : i = 0
      · obtain ⟨root, rootFound, noParent, depth⟩ := numbered.root
        subst isRoot
        obtain rfl := Option.some.inj (rootFound.symm.trans found)
        rw [noParent, depth]
        exact Set.encard_empty
      · obtain ⟨parent, outer, known, before, outerFound, deeper⟩ := numbered.parent found isRoot
        have notAround : parent ∉ scopes.around parent := fun member => member.1 rfl
        rw [known]
        calc (insert parent (scopes.around parent)).encard
            = (scopes.around parent).encard + 1 := Set.encard_insert_of_notMem notAround
          _ = outer.depth + 1 := by rw [induction parent.index before outerFound]
          _ = region.depth := by rw [deeper, Nat.cast_succ]

end ScopeTree

namespace Text

/-- The number of line breaks in a text. -/
def lineBreaks (text : String) : Nat := text.toList.count '\n'

theorem lineBreaks_append (first second : String) :
    lineBreaks (first ++ second) = lineBreaks first + lineBreaks second := by
  rw [lineBreaks, String.toList_append, List.count_append]
  rfl

private theorem lineBreaks_join (texts : List String) :
    lineBreaks (String.join texts) = (texts.map lineBreaks).sum := by
  rw [lineBreaks, String.toList_join, List.count_flatMap]
  rfl

theorem lineBreaks_eq_zero_iff {text : String} : lineBreaks text = 0 ↔ '\n' ∉ text.toList :=
  List.count_eq_zero

private theorem lineBreaks_intercalate {separator : String} (oneLine : lineBreaks separator = 0)
    (parts : List String) :
    lineBreaks (separator.intercalate parts) = (parts.map lineBreaks).sum := by
  have counted : ∀ lists : List (List Char),
      (separator.toList.intercalate lists).count '\n' = (lists.map (List.count '\n')).sum := by
    intro lists
    induction lists with
    | nil => rfl
    | cons first rest induction =>
        cases rest with
        | nil => simp
        | cons next rest =>
            calc (separator.toList.intercalate (first :: next :: rest)).count '\n'
                = first.count '\n' + lineBreaks separator +
                    (separator.toList.intercalate (next :: rest)).count '\n' := by
                  rw [List.intercalate_cons_cons, List.count_append, List.count_append]
                  rfl
              _ = first.count '\n' + ((next :: rest).map (List.count '\n')).sum := by
                  rw [oneLine, Nat.add_zero, induction]
              _ = ((first :: next :: rest).map (List.count '\n')).sum := rfl
  rw [lineBreaks, String.toList_intercalate, counted, List.map_map]
  rfl

theorem newline_notMem_toDigits (n : Nat) : '\n' ∉ Nat.toDigits 10 n := fun member =>
  absurd (Nat.isDigit_of_mem_toDigits (by decide) (by decide) member) (by decide)

theorem join_replicate (count : Nat) :
    String.join (List.replicate count "  ") = String.ofList (List.replicate (2 * count) ' ') := by
  apply String.toList_injective
  rw [String.toList_join, String.toList_ofList]
  induction count with
  | zero => rfl
  | succ count induction =>
      rw [List.replicate_succ, List.flatMap_cons, induction]
      rfl

end Text

namespace Region

open Text

variable {region : Region}

private theorem lineBreaks_outlineTag : lineBreaks region.outlineTag = 0 := by
  rw [lineBreaks_eq_zero_iff, outlineTag]
  cases region.branch with
  | none => decide
  | some tag =>
      have conditional : '\n' ∉ (StatementRef.text tag.conditional).toList := by
        cases tag.conditional <;> simp [StatementRef.text, newline_notMem_toDigits]
      have exits : '\n' ∉ (if tag.exits then ", exits" else "").toList := by
        cases tag.exits <;> decide
      simp only [String.toList_append, List.mem_append, conditional, exits, or_false]
      simp [newline_notMem_toDigits]

private theorem lineBreaks_outlineNames :
    lineBreaks region.outlineNames = (region.names.map lineBreaks).sum := by
  unfold outlineNames
  split
  next isEmpty =>
    rw [names, Array.toList_eq_nil_iff.mpr (Array.isEmpty_iff.mp isEmpty)]
    rfl
  next =>
    rw [lineBreaks_append, lineBreaks_intercalate (by decide)]
    exact Nat.zero_add _

/-- Besides the one at its end, the entry of a region has the line breaks of its names. -/
theorem lineBreaks_outlineLine :
    lineBreaks region.outlineLine = (region.names.map lineBreaks).sum + 1 := by
  have blanks : lineBreaks (String.join (List.replicate region.depth "  ")) = 0 := by
    rw [join_replicate, lineBreaks_eq_zero_iff, String.toList_ofList, List.mem_replicate]
    exact fun ⟨_, absurd⟩ => nomatch absurd
  have number : lineBreaks (RegionRef.text (some region.id)) = 0 := by
    rw [lineBreaks_eq_zero_iff]
    simp [RegionRef.text, newline_notMem_toDigits]
  have kind : lineBreaks region.kind.text = 0 := by cases region.kind <;> decide
  have span : lineBreaks region.span.text = 0 := by
    rw [lineBreaks_eq_zero_iff]
    simp [Span.text, newline_notMem_toDigits]
  have blank : lineBreaks " " = 0 := by decide
  have newline : lineBreaks "\n" = 1 := by decide
  rw [outlineLine]
  simp only [lineBreaks_append, blanks, number, kind, span, blank, newline, lineBreaks_outlineTag,
    lineBreaks_outlineNames, Nat.zero_add]

private theorem lineBreaks_outlineLine_eq_one_iff :
    lineBreaks region.outlineLine = 1 ↔ ∀ name ∈ region.names, '\n' ∉ name.toList := by
  rw [lineBreaks_outlineLine, Nat.add_eq_right, List.sum_eq_zero_iff_forall_eq_nat,
    List.forall_mem_map]
  exact forall₂_congr fun name _ => lineBreaks_eq_zero_iff

end Region

namespace ScopeTree

variable {scopes : ScopeTree} {region : Region}

private theorem Numbered.isEntryOf (numbered : scopes.Numbered)
    (found : scopes.region? (some region.id) = some region) :
    scopes.IsEntryOf region region.outlineLine := by
  refine ⟨region.depth, region.kind.text ++ " " ++ region.span.text ++ region.outlineTag ++
    region.outlineNames, numbered.encard_around found, ?_⟩
  simp only [Region.outlineLine, Text.join_replicate, String.append_assoc]

private theorem Numbered.forall_names_iff (numbered : scopes.Numbered) (fact : String → Prop) :
    (∀ region ∈ scopes.regions.toList, ∀ name ∈ region.names, fact name) ↔
      ∀ declaration ∈ scopes.declarations, fact declaration.name := by
  constructor
  · intro holds declaration member
    obtain ⟨j, declared⟩ := Array.getElem?_of_mem member
    obtain ⟨isNumber, _, outer, isRegion, bound⟩ := numbered.declaration declared
    have found : scopes.regions[outer.index]? = some scopes.regions[outer.index] :=
      Array.getElem?_eq_getElem bound
    have owned : declaration.id ∈ scopes.regions[outer.index].declarations :=
      ((numbered.owned found).2 declaration.id).mpr
        ⟨declaration, by rw [isNumber]; exact declared, isRegion⟩
    have listed : declaration ∈ scopes.declarationsIn (some outer) := by
      have known : scopes.region? (some outer) = some scopes.regions[outer.index] := found
      rw [declarationsIn, known]
      refine List.mem_filterMap.mpr ⟨declaration.id, Array.mem_toList_iff.mpr owned, ?_⟩
      rw [isNumber]
      exact declared
    refine holds _ (Array.mem_toList_iff.mpr (Array.getElem_mem bound)) declaration.name ?_
    rw [Region.names, numbered.names found, List.mem_eraseDups]
    exact List.mem_map_of_mem listed
  · intro holds region member name isName
    obtain ⟨i, found⟩ := Array.getElem?_of_mem (Array.mem_toList_iff.mp member)
    rw [Region.names, numbered.names found, List.mem_eraseDups] at isName
    obtain ⟨declaration, listed, rfl⟩ := List.mem_map.mp isName
    have known : scopes.region? (some ⟨i⟩) = some region := found
    rw [declarationsIn, known] at listed
    obtain ⟨id, _, declared⟩ := List.mem_filterMap.mp listed
    exact holds declaration (Array.mem_of_getElem? declared)

/-- The outline has a line for each region and one more for each line break in a name. -/
theorem Numbered.lineBreaks_outline (numbered : scopes.Numbered) :
    Text.lineBreaks scopes.outline = scopes.regions.size +
      (scopes.regions.toList.map fun region => (region.names.map Text.lineBreaks).sum).sum := by
  calc Text.lineBreaks scopes.outline
      = (scopes.regions.toList.map fun region => Text.lineBreaks region.outlineLine).sum := by
        rw [outline, numbered.outlineRegions_eq, Text.lineBreaks_join, List.map_map]
        rfl
    _ = (scopes.regions.toList.map fun region =>
          (region.names.map Text.lineBreaks).sum + 1).sum := by
        simp only [Region.lineBreaks_outlineLine]
    _ = scopes.regions.size +
          (scopes.regions.toList.map fun region => (region.names.map Text.lineBreaks).sum).sum := by
        rw [List.sum_map_add, Nat.add_comm]
        simp

private theorem Numbered.lineBreaks_outline_eq_size_iff (numbered : scopes.Numbered) :
    Text.lineBreaks scopes.outline = scopes.regions.size ↔
      ∀ declaration ∈ scopes.declarations, '\n' ∉ declaration.name.toList := by
  rw [numbered.lineBreaks_outline, Nat.add_eq_left, List.sum_eq_zero_iff_forall_eq_nat,
    List.forall_mem_map]
  refine Iff.trans (forall₂_congr fun region _ => ?_)
    (numbered.forall_names_iff fun name => '\n' ∉ name.toList)
  rw [List.sum_eq_zero_iff_forall_eq_nat, List.forall_mem_map]
  exact forall₂_congr fun name _ => Text.lineBreaks_eq_zero_iff

/-- Whatever tree is bound, the walk of the outline ends and visits every region once, in the order
of the numbers, and the outline is an entry for each of them. An entry is one line just if no name
of its region has a line break, and the outline has as many lines as there are regions just if no
declared name has one. -/
theorem outline_in_order {binder : Binder} {tree : StatementTree}
    (bound : (binder.bind tree).1 = .ok scopes) :
    scopes.Visits scopes.regions.size scopes.root.toList scopes.outlineRegions ∧
      scopes.outlineRegions = scopes.regions.toList ∧
      scopes.outlineRegions.map Region.id = (List.range scopes.regions.size).map RegionId.mk ∧
      scopes.outline = String.join (scopes.outlineRegions.map Region.outlineLine) ∧
      (∀ region ∈ scopes.outlineRegions, scopes.IsEntryOf region region.outlineLine ∧
        (Text.lineBreaks region.outlineLine = 1 ↔ ∀ name ∈ region.names, '\n' ∉ name.toList)) ∧
      (Text.lineBreaks scopes.outline = scopes.regions.size ↔
        ∀ declaration ∈ scopes.declarations, '\n' ∉ declaration.name.toList) := by
  have numbered := numbered_of_bind bound
  rw [numbered.root_eq]
  refine ⟨?_, numbered.outlineRegions_eq, ?_, rfl, fun region member => ?_,
    numbered.lineBreaks_outline_eq_size_iff⟩
  · exact numbered.outlineRegions_eq ▸ numbered.visits_root
  · rw [numbered.outlineRegions_eq]
    refine List.ext_getElem (by simp) fun i lower upper => ?_
    simpa using numbered.number (Array.getElem?_eq_getElem (by simpa using lower))
  · rw [numbered.outlineRegions_eq] at member
    obtain ⟨i, found⟩ := Array.getElem?_of_mem (Array.mem_toList_iff.mp member)
    exact ⟨numbered.isEntryOf (numbered.number found ▸ found),
      Region.lineBreaks_outlineLine_eq_one_iff⟩

end ScopeTree

/-- A tree put together by hand, in which the root and the block inside it list a block twice. -/
def StatementTree.doubling : StatementTree where
  name := "p"
  statements := #[⟨.block [some ⟨1⟩, some ⟨1⟩], ⟨0, 9⟩, none⟩,
    ⟨.block [some ⟨2⟩, some ⟨2⟩], ⟨1, 8⟩, some ⟨0⟩⟩, ⟨.block [], ⟨2, 7⟩, some ⟨1⟩⟩]
  expressions := #[]
  parameters := [⟨"a", ⟨0, 1⟩⟩]
  root := some ⟨0⟩

theorem ScopeTree.outline_in_order_doubling :
    ∃ scopes, ((Binder.new .default).bind .doubling).1 = .ok scopes ∧
      scopes.Visits 7 [⟨0⟩] scopes.outlineRegions ∧
      scopes.outlineRegions.map Region.id = (List.range 7).map RegionId.mk ∧
      scopes.outlineRegions.map Region.depth = [0, 1, 2, 2, 1, 2, 2] ∧
      (∀ region ∈ scopes.outlineRegions, scopes.IsEntryOf region region.outlineLine) ∧
      Text.lineBreaks scopes.outline = 7 := by
  have computed : (((Binder.new .default).bind .doubling).1.toOption.map fun scopes =>
      (scopes.regions.size, scopes.root, scopes.outlineRegions.map Region.depth,
        scopes.declarations.map Declaration.name)) =
        some (7, some ⟨0⟩, [0, 1, 2, 2, 1, 2, 2], #["a"]) := by
    decide +kernel
  cases bound : ((Binder.new .default).bind .doubling).1 with
  | error failure => simp [bound, Except.toOption] at computed
  | ok scopes =>
      rw [bound] at computed
      simp only [Except.toOption, Option.map_some, Option.some.injEq, Prod.mk.injEq] at computed
      obtain ⟨size, root, depths, names⟩ := computed
      obtain ⟨visits, _, ids, _, entries, lines⟩ := outline_in_order bound
      rw [size, root] at visits
      rw [size] at ids lines
      refine ⟨scopes, rfl, visits, ids, depths, fun region member => (entries region member).1,
        lines.mpr fun declaration member => ?_⟩
      have isName : declaration.name ∈ #["a"] := names ▸ Array.mem_map_of_mem member
      rw [Array.mem_singleton.mp isName]
      decide

/-- A procedure with a line break in the name of its parameter. -/
def Procedure.breakingName : Procedure := .plain "p" ["a\nb"] (.block [])

/-- An outline with more lines than there are regions. -/
theorem ScopeTree.exists_broken_entry :
    ∃ tree scopes, StatementTree.ofProcedure .breakingName = .ok tree ∧
      ScopeTree.ofStatementTree .default tree = .ok scopes ∧ scopes.regions.size = 1 ∧
      scopes.outline = "s0 root 2..3: a\nb\n" ∧ Text.lineBreaks scopes.outline = 2 := by
  have binds : Procedure.breakingName.binds .default (fun _ scopes => decide (
      scopes.regions.size = 1 ∧ scopes.outline = "s0 root 2..3: a\nb\n")) = true := by
    decide +kernel
  obtain ⟨tree, scopes, laidOut, bound, check⟩ := Procedure.exists_of_binds binds
  obtain ⟨size, text⟩ := of_decide_eq_true check
  exact ⟨tree, scopes, laidOut, bound, size, text, by rw [text]; decide⟩

end LexicalScope
