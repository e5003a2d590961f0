import Mathlib.Logic.Relation

/-!
# Forests given by parents

A node lies under another when following parents leads from the one to the other. When parents come
before their children, the nodes under a node form a tree: two of its children share nothing.
-/

namespace LexicalScope

/-- A node is another one or lies below it. -/
def Under {Node : Type} (parent : Node → Option Node) (inner outer : Node) : Prop :=
  Relation.ReflTransGen (fun lower upper => parent lower = some upper) inner outer

/-- Every parent ranks before its children. -/
def Ranked {Node : Type} (parent : Node → Option Node) (rank : Node → Nat) : Prop :=
  ∀ {lower upper : Node}, parent lower = some upper → rank upper < rank lower

namespace Under

variable {Node : Type} {parent : Node → Option Node} {rank : Node → Nat}
  {inner middle outer left right : Node}

theorem refl (node : Node) : Under parent node node := Relation.ReflTransGen.refl

theorem trans (lower : Under parent inner middle) (upper : Under parent middle outer) :
    Under parent inner outer :=
  Relation.ReflTransGen.trans lower upper

theorem ofParent (above : parent inner = some outer) : Under parent inner outer :=
  Relation.ReflTransGen.single above

/-- A node under another is that one or under one of its children. -/
theorem eq_or_child (under : Under parent inner outer) :
    inner = outer ∨ ∃ child, parent child = some outer ∧ Under parent inner child := by
  rcases Relation.ReflTransGen.cases_tail under with same | ⟨child, below, above⟩
  · exact .inl same.symm
  · exact .inr ⟨child, above, below⟩

/-- A node under another is that one or its parent is under it. -/
theorem eq_or_parent (under : Under parent inner outer) :
    inner = outer ∨ ∃ above, parent inner = some above ∧ Under parent above outer :=
  Relation.ReflTransGen.cases_head under

/-- Two nodes above a common one lie one under the other. -/
theorem total (toLeft : Under parent inner left) (toRight : Under parent inner right) :
    Under parent left right ∨ Under parent right left :=
  Relation.ReflTransGen.total_of_right_unique
    (fun _ _ _ first second => Option.some.inj (first.symm.trans second)) toLeft toRight

theorem rank_le (ranked : Ranked parent rank) (under : Under parent inner outer) :
    rank outer ≤ rank inner := by
  induction under with
  | refl => exact Nat.le_refl _
  | tail _ above induction => exact Nat.le_trans (Nat.le_of_lt (ranked above)) induction

theorem antisymm (ranked : Ranked parent rank) (down : Under parent left right)
    (up : Under parent right left) : left = right := by
  rcases down.eq_or_parent with same | ⟨above, isParent, higher⟩
  · exact same
  · have := ranked isParent
    have := higher.rank_le ranked
    have := up.rank_le ranked
    omega

/-- A parent is not under its child. -/
theorem not_under_child (ranked : Ranked parent rank) (above : parent inner = some outer) :
    ¬ Under parent outer inner := by
  intro under
  have := ranked above
  have := under.rank_le ranked
  omega

/-- Children of one node share nothing. -/
theorem child_unique (ranked : Ranked parent rank) (leftAbove : parent left = some outer)
    (rightAbove : parent right = some outer) (inLeft : Under parent inner left)
    (inRight : Under parent inner right) : left = right := by
  have apart : ∀ {first second : Node}, parent first = some outer → parent second = some outer →
      Under parent first second → first = second := by
    intro first second firstAbove secondAbove under
    rcases under.eq_or_parent with same | ⟨above, isParent, higher⟩
    · exact same
    · obtain rfl := Option.some.inj (firstAbove.symm.trans isParent)
      exact absurd higher (not_under_child ranked secondAbove)
  rcases inLeft.total inRight with under | under
  · exact apart leftAbove rightAbove under
  · exact (apart rightAbove leftAbove under).symm

/-- What is under a child is under its parent. -/
theorem under_parent (under : Under parent inner left) (above : parent left = some outer) :
    Under parent inner outer :=
  under.trans (.ofParent above)

end Under

end LexicalScope
