import LexicalScope.Proofs.Procedure.Placement

/-!
# The parts of a procedure and their spans

The statements, sections, labels, expressions and bound names of a procedure, each with those inside
it, in source order. Placing issues offsets for the parts that state no span. These offsets ascend,
so the spans made of them are brackets: one lies inside the other, or it ends before the other
starts.
-/

namespace LexicalScope

open Placement
open scoped List

/-- What a part is. -/
inductive PartKind where
  | statement
  | switchSection
  | label
  | expression
  | name (text : String)
deriving DecidableEq, Repr

/-- A part of a procedure, with its place and the parts inside it. -/
inductive Part (Place : Type) where
  | mk (kind : PartKind) (place : Place) (parts : List (Part Place))

/-- The span of a part and, if the part states one, the stated span. -/
structure PlacedSpan where
  /-- The stated span. -/
  stated : Option Span
  /-- The span of the part. -/
  span : Span

/-- What happens in the course of placing. -/
inductive PlacementStep where
  /-- An offset is issued for a part that states no span. -/
  | issued (offset : Nat)
  /-- A part is complete whose stated span ends at an offset. -/
  | completed (stop : Nat)

namespace Part

variable {Place Other : Type}

/-- The place of a part. -/
def place : Part Place → Place
  | mk _ place _ => place

/-- The parts inside a part. -/
def parts : Part Place → List (Part Place)
  | mk _ _ parts => parts

mutual

/-- A part with other places. -/
def map (change : Place → Other) : Part Place → Part Other
  | mk kind place parts => mk kind (change place) (mapAll change parts)

/-- Parts with other places. -/
def mapAll (change : Place → Other) : List (Part Place) → List (Part Other)
  | [] => []
  | first :: rest => first.map change :: mapAll change rest

end

mutual

/-- A part with its span, and the next offset. -/
def placed : Part (Option Span) → Nat → Part PlacedSpan × Nat
  | mk kind given parts, next =>
    let start := opening given next
    let inner := placedAll parts (opened given next)
    (mk kind ⟨given, covered start given inner.2⟩ inner.1, closed start given inner.2)

/-- Parts with their spans, and the next offset. -/
def placedAll : List (Part (Option Span)) → Nat → List (Part PlacedSpan) × Nat
  | [], next => ([], next)
  | first :: rest, next =>
    let first := first.placed next
    let rest := placedAll rest first.2
    (first.1 :: rest.1, rest.2)

end

/-- The spans that placing gives to parts. -/
def shown (parts : List (Part (Option Span))) (next : Nat) : List (Part (Option Span)) :=
  mapAll (fun place => some place.span) (placedAll parts next).1

mutual

/-- The steps of placing a part. -/
def steps : Part PlacedSpan → List PlacementStep
  | mk _ place parts =>
    match place.stated with
    | none => .issued place.span.start :: (stepsOfAll parts ++ [.issued place.span.stop])
    | some span => stepsOfAll parts ++ [.completed span.stop]

/-- The steps of placing parts one after the other. -/
def stepsOfAll : List (Part PlacedSpan) → List PlacementStep
  | [] => []
  | first :: rest => first.steps ++ stepsOfAll rest

end

/-- The part at a path below a part. -/
def below? : Part Place → List Nat → Option (Part Place)
  | part, [] => some part
  | part, i :: path => (part.parts[i]?).bind fun inner => inner.below? path

/-- The part at a path among parts; parts further ahead in source order have smaller paths. -/
def at? (parts : List (Part Place)) : List Nat → Option (Part Place)
  | [] => none
  | i :: path => (parts[i]?).bind fun part => part.below? path

end Part

/-- An issued offset is behind all that were issued before it and not before the end of what is
complete. -/
def PlacementStep.Before : PlacementStep → PlacementStep → Prop
  | .issued first, .issued second => first < second
  | .completed stop, .issued offset => stop ≤ offset
  | _, .completed _ => True

/-- The stated spans are kept, and the other spans are brackets. -/
structure Part.SpansBracketed (parts : List (Part PlacedSpan)) : Prop where
  kept : ∀ {path : List Nat} {part : Part PlacedSpan} {span : Span},
    at? parts path = some part → part.place.stated = some span → part.place.span = span
  /-- Offsets ascend in the order in which they are issued. -/
  ascending : (stepsOfAll parts).Pairwise PlacementStep.Before
  /-- A part inside another one has its span strictly inside. -/
  inside : ∀ {path rest : List Nat} {outer inner : Part PlacedSpan}, rest ≠ [] →
    at? parts path = some outer → at? parts (path ++ rest) = some inner →
      outer.place.stated = none → inner.place.stated = none →
        outer.place.span.start < inner.place.span.start ∧
          inner.place.span.stop < outer.place.span.stop
  /-- Of two parts neither of which is inside the other, the one ahead ends before the other one
  starts. -/
  apart : ∀ {path other : List Nat} {first second : Part PlacedSpan}, path < other →
    ¬ path <+: other → at? parts path = some first → at? parts other = some second →
      first.place.stated = none → second.place.stated = none →
        first.place.span.stop < second.place.span.start

/-! ## Ascending offsets -/

/-- From the offset `next` on, steps issue ascending offsets, up to the next offset `last`. -/
def Advance : Nat → List PlacementStep → Nat → Prop
  | next, [], last => next ≤ last
  | next, .issued offset :: rest, last => next ≤ offset ∧ Advance (offset + 1) rest last
  | next, .completed stop :: rest, last => Advance (max next stop) rest last

namespace Advance

variable {steps others : List PlacementStep} {next earlier middle last : Nat}

theorem weaken (advance : Advance next steps last) (before : earlier ≤ next) :
    Advance earlier steps last := by
  induction steps generalizing next earlier with
  | nil => exact Nat.le_trans before advance
  | cons step steps induction =>
      cases step with
      | issued offset => exact ⟨Nat.le_trans before advance.1, advance.2⟩
      | completed stop => exact induction advance (by omega)

theorem append (first : Advance next steps middle) (second : Advance middle others last) :
    Advance next (steps ++ others) last := by
  induction steps generalizing next with
  | nil => exact second.weaken first
  | cons step steps induction =>
      cases step with
      | issued offset => exact ⟨first.1, induction first.2⟩
      | completed stop => exact induction first

private theorem le_of_mem (advance : Advance next steps last) {offset : Nat}
    (member : .issued offset ∈ steps) : next ≤ offset := by
  induction steps generalizing next with
  | nil => cases member
  | cons step steps induction =>
      cases step with
      | issued first =>
          rcases List.mem_cons.mp member with same | member
          · cases same
            exact advance.1
          · have behind := induction advance.2 member
            have ahead := advance.1
            omega
      | completed stop =>
          rcases List.mem_cons.mp member with same | member
          · cases same
          · exact Nat.le_trans (Nat.le_max_left ..) (induction advance member)

private theorem le_last (advance : Advance next steps last) : next ≤ last := by
  induction steps generalizing next with
  | nil => exact advance
  | cons step steps induction =>
      cases step with
      | issued offset => exact Nat.le_of_succ_le (Nat.le_trans (Nat.succ_le_succ advance.1)
          (induction advance.2))
      | completed stop => exact Nat.le_trans (Nat.le_max_left ..) (induction advance)

theorem lt_of_mem (advance : Advance next steps last) {offset : Nat}
    (member : .issued offset ∈ steps) : offset < last := by
  induction steps generalizing next with
  | nil => cases member
  | cons step steps induction =>
      cases step with
      | issued first =>
          rcases List.mem_cons.mp member with same | member
          · cases same
            exact advance.2.le_last
          · exact induction advance.2 member
      | completed stop =>
          rcases List.mem_cons.mp member with same | member
          · cases same
          · exact induction advance member

private theorem pairwise (advance : Advance next steps last) :
    steps.Pairwise PlacementStep.Before := by
  induction steps generalizing next with
  | nil => exact .nil
  | cons step steps induction =>
      cases step with
      | issued first =>
          refine .cons (fun later member => ?_) (induction advance.2)
          cases later with
          | issued second => exact le_of_mem advance.2 member
          | completed stop => trivial
      | completed stop =>
          have behind : Advance (max next stop) steps last := advance
          refine .cons (fun later member => ?_) (induction behind)
          cases later with
          | issued offset => exact Nat.le_trans (Nat.le_max_right ..) (behind.le_of_mem member)
          | completed other => trivial

end Advance

namespace Part

mutual

theorem advance_placed : ∀ (part : Part (Option Span)) (next : Nat),
    Advance next (part.placed next).1.steps (part.placed next).2
  | mk _ none parts, next => by
    have closing : Advance (placedAll parts (next + 1)).2
        [.issued (max (placedAll parts (next + 1)).2 (next + 1))]
        (max (placedAll parts (next + 1)).2 (next + 1) + 1) :=
      ⟨Nat.le_max_left .., Nat.le_refl _⟩
    exact ⟨Nat.le_refl _, (advance_placedAll parts (next + 1)).append closing⟩
  | mk _ (some span) parts, next => by
    have closing : Advance (placedAll parts (max next span.start)).2 [.completed span.stop]
        (max (placedAll parts (max next span.start)).2 span.stop) := Nat.le_refl _
    exact ((advance_placedAll parts _).append closing).weaken (Nat.le_max_left ..)

theorem advance_placedAll : ∀ (parts : List (Part (Option Span))) (next : Nat),
    Advance next (stepsOfAll (placedAll parts next).1) (placedAll parts next).2
  | [], next => Nat.le_refl next
  | first :: rest, next => (first.advance_placed next).append (advance_placedAll rest _)

end

mutual

theorem stated_placed : ∀ (part : Part (Option Span)) (next : Nat),
    (part.placed next).1.map PlacedSpan.stated = part
  | mk _ _ parts, _ => by rw [placed, map, stated_placedAll parts]

theorem stated_placedAll : ∀ (parts : List (Part (Option Span))) (next : Nat),
    mapAll PlacedSpan.stated (placedAll parts next).1 = parts
  | [], _ => rfl
  | first :: rest, _ => by rw [placedAll, mapAll, stated_placed first, stated_placedAll rest]

end

/-! ## Parts at paths -/

section Paths

variable {parts : List (Part PlacedSpan)} {part outer first second inner : Part PlacedSpan}
  {path other : List Nat} {i j : Nat}

theorem steps_sublist_of_getElem? (found : parts[i]? = some part) :
    part.steps <+ stepsOfAll parts := by
  induction parts generalizing i with
  | nil => simp at found
  | cons head tail induction =>
      cases i with
      | zero =>
          obtain rfl := Option.some.inj found
          exact List.sublist_append_left ..
      | succ i => exact (induction found).trans (List.sublist_append_right ..)

private theorem append_steps_sublist_of_lt (before : i < j) (firstFound : parts[i]? = some first)
    (secondFound : parts[j]? = some second) : first.steps ++ second.steps <+ stepsOfAll parts := by
  induction parts generalizing i j with
  | nil => simp at firstFound
  | cons head tail induction =>
      cases j with
      | zero => omega
      | succ j =>
          cases i with
          | zero =>
              obtain rfl := Option.some.inj firstFound
              exact (List.Sublist.refl _).append (steps_sublist_of_getElem? secondFound)
          | succ i =>
              exact (induction (by omega) firstFound secondFound).trans
                (List.sublist_append_right ..)

theorem stepsOfAll_parts_sublist (part : Part PlacedSpan) :
    stepsOfAll part.parts <+ part.steps := by
  obtain ⟨kind, place, parts⟩ := part
  rw [steps]
  split
  · exact (List.sublist_append_left ..).cons _
  · exact List.sublist_append_left ..

theorem steps_of_unstated (unstated : part.place.stated = none) :
    part.steps = .issued part.place.span.start ::
      (stepsOfAll part.parts ++ [.issued part.place.span.stop]) := by
  obtain ⟨kind, place, parts⟩ := part
  have isNone : place.stated = none := unstated
  rw [steps, isNone]
  rfl

private theorem issued_start_mem (unstated : part.place.stated = none) :
    .issued part.place.span.start ∈ part.steps := by
  rw [steps_of_unstated unstated]
  exact List.mem_cons_self

private theorem issued_stop_mem (unstated : part.place.stated = none) :
    .issued part.place.span.stop ∈ part.steps := by
  rw [steps_of_unstated unstated]
  exact List.mem_cons_of_mem _ (List.mem_append_right _ (List.mem_singleton_self _))

theorem steps_sublist_of_below? (found : outer.below? path = some inner) :
    inner.steps <+ outer.steps := by
  induction path generalizing outer with
  | nil =>
      obtain rfl := Option.some.inj found
      exact .refl _
  | cons i path induction =>
      obtain ⟨part, isPart, below⟩ := Option.bind_eq_some_iff.mp found
      calc inner.steps
          <+ part.steps := induction below
        _ <+ stepsOfAll outer.parts := steps_sublist_of_getElem? isPart
        _ <+ outer.steps := stepsOfAll_parts_sublist outer

private theorem steps_sublist_stepsOfAll_parts (notNil : path ≠ [])
    (found : outer.below? path = some inner) : inner.steps <+ stepsOfAll outer.parts := by
  cases path with
  | nil => exact absurd rfl notNil
  | cons i path =>
      obtain ⟨above, isPart, below⟩ := Option.bind_eq_some_iff.mp found
      exact (steps_sublist_of_below? below).trans (steps_sublist_of_getElem? isPart)

private theorem steps_sublist_of_at? (found : at? parts path = some part) :
    part.steps <+ stepsOfAll parts := by
  cases path with
  | nil => cases found
  | cons i path =>
      obtain ⟨above, isPart, below⟩ := Option.bind_eq_some_iff.mp found
      exact (steps_sublist_of_below? below).trans (steps_sublist_of_getElem? isPart)

private theorem below?_append (part : Part PlacedSpan) (path other : List Nat) :
    part.below? (path ++ other) = (part.below? path).bind (·.below? other) := by
  induction path generalizing part with
  | nil => rfl
  | cons i path induction =>
      rw [List.cons_append, below?, below?]
      cases part.parts[i]? with
      | none => rfl
      | some inner => exact induction inner

private theorem at?_append (notNil : path ≠ []) (found : at? parts path = some part) :
    at? parts (path ++ other) = part.below? other := by
  cases path with
  | nil => exact absurd rfl notNil
  | cons i path =>
      obtain ⟨above, isPart, below⟩ := Option.bind_eq_some_iff.mp found
      simp only [List.cons_append, at?, isPart, Option.bind_some, below?_append, below]

/-- Where two paths part, the steps of the part ahead precede those of the other one. -/
theorem append_steps_sublist_of_at? (before : path < other) (notAbove : ¬ path <+: other)
    (firstFound : at? parts path = some first) (secondFound : at? parts other = some second) :
    first.steps ++ second.steps <+ stepsOfAll parts := by
  induction path generalizing parts other with
  | nil => cases firstFound
  | cons i path induction =>
      obtain ⟨above, isAbove, firstBelow⟩ := Option.bind_eq_some_iff.mp firstFound
      cases before with
      | rel less =>
          obtain ⟨beside, isBeside, secondBelow⟩ := Option.bind_eq_some_iff.mp secondFound
          calc first.steps ++ second.steps
              <+ above.steps ++ beside.steps :=
                (steps_sublist_of_below? firstBelow).append (steps_sublist_of_below? secondBelow)
            _ <+ stepsOfAll parts := append_steps_sublist_of_lt less isAbove isBeside
      | @cons _ _ rest before =>
          have parted : ¬ path <+: rest := fun isPrefix =>
            notAbove (List.cons_prefix_cons.mpr ⟨rfl, isPrefix⟩)
          obtain ⟨same, isSame, secondBelow⟩ := Option.bind_eq_some_iff.mp secondFound
          obtain rfl := Option.some.inj (isAbove.symm.trans isSame)
          -- Neither path ends here, so both lead on among the parts inside.
          have inside : ∀ {path : List Nat}, path ≠ [] → above.below? path = at? above.parts path
            | [], notNil => absurd rfl notNil
            | _ :: _, _ => rfl
          rw [inside (by rintro rfl; exact parted List.nil_prefix)] at firstBelow
          rw [inside (by rintro rfl; cases before)] at secondBelow
          calc first.steps ++ second.steps
              <+ stepsOfAll above.parts := induction before parted firstBelow secondBelow
            _ <+ above.steps := stepsOfAll_parts_sublist above
            _ <+ stepsOfAll parts := steps_sublist_of_getElem? isAbove

end Paths

theorem exists_of_getElem?_placedAll {given : List (Part (Option Span))} {next i : Nat}
    {part : Part PlacedSpan} (found : (placedAll given next).1[i]? = some part) :
    ∃ (original : Part (Option Span)) (start : Nat), part = (original.placed start).1 := by
  induction given generalizing next i with
  | nil => simp [placedAll] at found
  | cons head tail induction =>
      cases i with
      | zero => exact ⟨head, next, (Option.some.inj found).symm⟩
      | succ i => exact induction found

private theorem exists_of_below?_placed {given : Part (Option Span)} {next : Nat} {path : List Nat}
    {part : Part PlacedSpan} (found : (given.placed next).1.below? path = some part) :
    ∃ (original : Part (Option Span)) (start : Nat), part = (original.placed start).1 := by
  induction path generalizing given next with
  | nil => exact ⟨given, next, (Option.some.inj found).symm⟩
  | cons i path induction =>
      obtain ⟨above, isAbove, below⟩ := Option.bind_eq_some_iff.mp found
      obtain ⟨kind, place, parts⟩ := given
      obtain ⟨original, start, rfl⟩ := exists_of_getElem?_placedAll isAbove
      exact induction below

/-- Placed parts keep their stated spans, and their other spans are brackets. -/
theorem spansBracketed_placedAll (given : List (Part (Option Span))) (next : Nat) :
    SpansBracketed (placedAll given next).1 where
  kept {path part span} found isStated := by
    cases path with
    | nil => cases found
    | cons i path =>
        obtain ⟨above, isAbove, below⟩ := Option.bind_eq_some_iff.mp found
        obtain ⟨original, start, rfl⟩ := exists_of_getElem?_placedAll isAbove
        obtain ⟨⟨kind, stated, parts⟩, start, rfl⟩ := exists_of_below?_placed below
        obtain rfl : stated = some span := isStated
        rfl
  ascending := (advance_placedAll given next).pairwise
  inside {path rest outer inner} notNil outerFound innerFound outerFree innerFree := by
    have notEmpty : path ≠ [] := by
      rintro rfl
      cases outerFound
    rw [at?_append notEmpty outerFound] at innerFound
    have within := steps_sublist_stepsOfAll_parts notNil innerFound
    have ordered := (advance_placedAll given next).pairwise.sublist
      (steps_sublist_of_at? outerFound)
    rw [steps_of_unstated outerFree, List.pairwise_cons, List.pairwise_append] at ordered
    obtain ⟨behindStart, _, _, beforeStop⟩ := ordered
    have starts : .issued inner.place.span.start ∈ stepsOfAll outer.parts :=
      within.subset (issued_start_mem innerFree)
    have stops : .issued inner.place.span.stop ∈ stepsOfAll outer.parts :=
      within.subset (issued_stop_mem innerFree)
    exact ⟨behindStart _ (List.mem_append_left _ starts),
      beforeStop _ stops _ (List.mem_singleton_self _)⟩
  apart {path other first second} before notAbove firstFound secondFound firstFree secondFree := by
    have ordered := (advance_placedAll given next).pairwise.sublist
      (append_steps_sublist_of_at? before notAbove firstFound secondFound)
    exact (List.pairwise_append.mp ordered).2.2 _ (issued_stop_mem firstFree) _
      (issued_start_mem secondFree)

end Part

end LexicalScope
