import LexicalScope.Proofs.StatementTree.Descent
import Mathlib.Data.List.Pairwise

/-!
# Spans of nested statements

In a bracketed tree a statement stands strictly inside the statements around it, and statements that
stand one behind the other share nothing.
-/

namespace LexicalScope.StatementTree

variable {tree : StatementTree} {inner outer left right : StatementId} {node : StatementNode}
  {ref : StatementRef} {refs rest : List StatementRef}

/-- Statements stand one behind the other. -/
def Ordered (tree : StatementTree) (refs : List StatementRef) : Prop :=
  refs.Pairwise fun first second => (tree.span first).stop < (tree.span second).start

namespace Bracketed

theorem start_lt_stop (bracketed : tree.Bracketed) (found : tree.statement? ref = some node) :
    (tree.span ref).start < (tree.span ref).stop := by
  obtain ⟨id, rfl, _⟩ := Option.bind_eq_some_iff.mp found
  rw [span_eq found]
  exact bracketed.nonempty found

theorem start_le_stop (bracketed : tree.Bracketed) (ref : StatementRef) :
    (tree.span ref).start ≤ (tree.span ref).stop := by
  cases found : tree.statement? ref with
  | none => simp [span, found, Span.dummy]
  | some node => exact Nat.le_of_lt (bracketed.start_lt_stop found)

theorem span_parent (bracketed : tree.Bracketed) (proper : tree.Proper)
    (above : tree.parent (some inner) = some outer) :
    (tree.span (some outer)).start < (tree.span (some inner)).start ∧
      (tree.span (some inner)).stop < (tree.span (some outer)).stop := by
  obtain ⟨node, found, member⟩ := proper.child_of_parent above
  obtain ⟨child, isChild, same⟩ := List.mem_map.mp member
  rw [span_eq found, ← same]
  exact bracketed.inside found isChild

theorem span_within (bracketed : tree.Bracketed) (proper : tree.Proper)
    (within : tree.IsWithin inner outer) :
    (tree.span (some outer)).start ≤ (tree.span (some inner)).start ∧
      (tree.span (some inner)).stop ≤ (tree.span (some outer)).stop := by
  induction within with
  | refl => exact ⟨Nat.le_refl _, Nat.le_refl _⟩
  | tail _ above induction =>
      obtain ⟨first, second⟩ := bracketed.span_parent proper above
      omega

theorem apart (bracketed : tree.Bracketed) (proper : tree.Proper)
    (before : (tree.span (some left)).stop ≤ (tree.span (some right)).start)
    (found : tree.statement? (some left) = some node) (inLeft : tree.IsWithin inner left) :
    ¬ tree.IsWithin inner right := by
  intro inRight
  have nonempty := bracketed.start_lt_stop found
  have := bracketed.start_le_stop (some right)
  rcases inLeft.total inRight with within | within
  · have := bracketed.span_within proper within
    omega
  · have := bracketed.span_within proper within
    rcases within.eq_or_parent with rfl | ⟨above, isParent, higher⟩
    · omega
    · have := bracketed.span_parent proper isParent
      have := bracketed.span_within proper higher
      omega

theorem apart_of_ordered (bracketed : tree.Bracketed) (proper : tree.Proper)
    (ordered : tree.Ordered (some left :: rest)) (found : tree.statement? (some left) = some node)
    (inLeft : tree.IsWithin inner left) : ¬ tree.IsAmong rest inner := by
  rintro ⟨other, member, within⟩
  exact bracketed.apart proper (Nat.le_of_lt (List.rel_of_pairwise_cons ordered member)) found
    inLeft
    within

private theorem before_or_behind (bracketed : tree.Bracketed) {id : StatementId}
    (found : tree.statement? (some id) = some node)
    (leftListed : some left ∈ node.content.children.map (·.1))
    (rightListed : some right ∈ node.content.children.map (·.1)) (different : left ≠ right) :
    (tree.span (some left)).stop < (tree.span (some right)).start ∨
      (tree.span (some right)).stop < (tree.span (some left)).start := by
  let Apart (first second : StatementRef) : Prop :=
    (tree.span first).stop < (tree.span second).start ∨
      (tree.span second).stop < (tree.span first).start
  have : Std.Symm Apart := ⟨fun _ _ => Or.symm⟩
  have apart : (node.content.children.map (·.1)).Pairwise Apart :=
    (bracketed.ordered found).imp Or.inl
  exact apart.forall leftListed rightListed fun same => different (Option.some.inj same)

private theorem nested_or_apart (bracketed : tree.Bracketed) (proper : tree.Proper)
    (inLeft : tree.IsWithin left outer) (inRight : tree.IsWithin right outer) :
    tree.IsWithin left right ∨ tree.IsWithin right left ∨
      (tree.span (some left)).stop < (tree.span (some right)).start ∨
      (tree.span (some right)).stop < (tree.span (some left)).start := by
  induction inLeft with
  | refl => exact .inr (.inl inRight)
  | @tail child outer inChild above induction =>
      rcases inRight.eq_or_child with rfl | ⟨other, isParent, inOther⟩
      · exact .inl (Under.under_parent inChild above)
      · by_cases same : child = other
        · exact induction (same ▸ inOther)
        · obtain ⟨node, found, listed⟩ := proper.child_of_parent above
          obtain ⟨known, isKnown, otherListed⟩ := proper.child_of_parent isParent
          obtain rfl := Option.some.inj (found.symm.trans isKnown)
          have := bracketed.span_within proper inChild
          have := bracketed.span_within proper inOther
          rcases bracketed.before_or_behind found listed otherListed same with behind | behind
          · exact .inr (.inr (.inl (by omega)))
          · exact .inr (.inr (.inr (by omega)))

/-- What covers an offset in the header of a statement is around the statement. -/
theorem within_of_headerOffset (bracketed : tree.Bracketed) (proper : tree.Proper) {offset : Nat}
    (header : tree.IsHeaderOffset inner offset) (found : tree.statement? (some outer) = some node)
    (start_le : (tree.span (some outer)).start ≤ offset)
    (lt_stop : offset < (tree.span (some outer)).stop) : tree.IsWithin inner outer := by
  obtain ⟨innerNode, innerFound, start_lt, lt_innerStop, outside⟩ := header
  rw [← span_eq innerFound] at start_lt lt_innerStop
  rcases bracketed.nested_or_apart proper (proper.within_root innerFound)
    (proper.within_root found) with within | within | behind | behind
  · exact within
  · -- The offset is in no child, so it is in nothing below.
    rcases within.eq_or_child with rfl | ⟨child, above, inChild⟩
    · exact .refl _
    · exfalso
      obtain ⟨known, isKnown, listed⟩ := proper.child_of_parent above
      obtain rfl := Option.some.inj (innerFound.symm.trans isKnown)
      obtain ⟨entry, isEntry, same⟩ := List.mem_map.mp listed
      have := bracketed.span_within proper inChild
      have notInChild := (outside entry isEntry).1
      rw [same] at notInChild
      omega
  · omega
  · omega

end Bracketed

end LexicalScope.StatementTree
