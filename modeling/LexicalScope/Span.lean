import LexicalScope.Limit

/-!
# Spans

Half-open ranges of text offsets, and offset arithmetic that can run out of range.
-/

namespace LexicalScope

/-- A half-open range of text offsets. -/
structure Span where
  /-- The first offset of the range. -/
  start : Nat
  /-- The first offset behind the range. -/
  stop : Nat
deriving DecidableEq, Repr, Inhabited

namespace Span

/-- The span of things that have no place in a text. -/
def dummy : Span := ⟨0, 0⟩

/-- The number of offsets in the range, zero when the ends are reversed. -/
def length (span : Span) : Nat := span.stop - span.start

/-- Whether the range holds no offset. -/
def isEmpty (span : Span) : Bool := decide (span.stop ≤ span.start)

/-- Whether the span is the placeholder `dummy`. -/
def isDummy (span : Span) : Bool := span == dummy

/-- Whether an offset lies in the range. -/
def contains (span : Span) (position : Nat) : Bool :=
  decide (span.start ≤ position) && decide (position < span.stop)

/-- Whether both ends of `inner` lie within `outer`. -/
def includes (outer inner : Span) : Bool :=
  decide (outer.start ≤ inner.start) && decide (inner.stop ≤ outer.stop)

/-- The smallest span from the earlier start to the later end. -/
def join (left right : Span) : Span :=
  ⟨min left.start right.start, max left.stop right.stop⟩

/-- Spans are ordered by their start, then by their end. -/
def order (left right : Span) : Ordering :=
  (compare left.start right.start).then (compare left.stop right.stop)

/-- A span as its two ends around two dots. -/
def text (span : Span) : String :=
  toString span.start ++ ".." ++ toString span.stop

end Span

/-- A sum of offsets left the range of offsets. -/
inductive OffsetOverflow where
  /-- The sum is not below `Limit.offset`. -/
  | outOfRange
deriving DecidableEq, Repr

namespace OffsetOverflow

/-- The wording of an offset sum that is out of range. -/
def message : OffsetOverflow → String
  | outOfRange => "attempt to add with overflow"

end OffsetOverflow

/-- The sum of two offsets, when it is an offset itself. -/
def addOffsets (left right : Nat) : Except OffsetOverflow Nat :=
  if left + right < Limit.offset then .ok (left + right) else .error .outOfRange

end LexicalScope
