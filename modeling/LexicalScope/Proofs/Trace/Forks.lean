import LexicalScope.Proofs.Layout.Preorder
import LexicalScope.Proofs.StatementTree.Spans
import LexicalScope.Proofs.Trace.Sketch

/-!
# Forks that are over

Statements are numbered in the order in which they begin. So a fork ends before another statement
begins just if it has the smaller number and is not around the other statement, which is what makes
it one of the forks that are over at the place of that statement.
-/

namespace LexicalScope.StatementTree

variable {tree : StatementTree} {inner outer left right fork statement : StatementId}
  {index other steps : Nat} {node : StatementNode}

/-! ## Statements that end before others begin -/

private theorem Bracketed.nested_or_ordered (bracketed : tree.Bracketed) (proper : tree.Proper)
    (preordered : tree.Preordered) (inLeft : tree.IsWithin left outer)
    (inRight : tree.IsWithin right outer) :
    tree.IsWithin left right ∨ tree.IsWithin right left ∨
      (left.index < right.index ∧ (tree.span (some left)).stop < (tree.span (some right)).start) ∨
      (right.index < left.index ∧
        (tree.span (some right)).stop < (tree.span (some left)).start) := by
  let Behind (first second : StatementRef) : Prop :=
    (tree.span first).stop < (tree.span second).start ∧ tree.Precedes first second
  let Apart (first second : StatementRef) : Prop := Behind first second ∨ Behind second first
  induction inLeft with
  | refl => exact .inr (.inl inRight)
  | @tail child outer inChild above induction =>
      rcases inRight.eq_or_child with rfl | ⟨sibling, isParent, inSibling⟩
      · exact .inl (Under.under_parent inChild above)
      · by_cases same : child = sibling
        · exact induction (same ▸ inSibling)
        · obtain ⟨node, found, listed⟩ := proper.child_of_parent above
          obtain ⟨known, isKnown, siblingListed⟩ := proper.child_of_parent isParent
          obtain rfl := Option.some.inj (found.symm.trans isKnown)
          have : Std.Symm Apart := ⟨fun _ _ => Or.symm⟩
          have apart : (node.content.children.map (·.1)).Pairwise Apart :=
            ((bracketed.ordered found).and (preordered found)).imp Or.inl
          have := bracketed.span_within proper inChild
          have := bracketed.span_within proper inSibling
          rcases apart.forall listed siblingListed fun equal => same (Option.some.inj equal) with
            ⟨ends, precedes⟩ | ⟨ends, precedes⟩
          · exact .inr (.inr (.inl ⟨precedes left right (isAmong_singleton.mpr inChild)
              (isAmong_singleton.mpr inSibling), by omega⟩))
          · exact .inr (.inr (.inr ⟨precedes right left (isAmong_singleton.mpr inSibling)
              (isAmong_singleton.mpr inChild), by omega⟩))

/-- A statement ends before another begins just if it has the smaller index and is not around the
other. -/
theorem Bracketed.stop_le_start_iff (bracketed : tree.Bracketed) (proper : tree.Proper)
    (preordered : tree.Preordered) {leftNode rightNode : StatementNode}
    (leftFound : tree.statement? (some left) = some leftNode)
    (rightFound : tree.statement? (some right) = some rightNode) :
    (tree.span (some left)).stop ≤ (tree.span (some right)).start ↔
      left.index < right.index ∧ ¬ tree.IsWithin right left := by
  have leftNonempty := bracketed.start_lt_stop leftFound
  have rightNonempty := bracketed.start_lt_stop rightFound
  rcases bracketed.nested_or_ordered proper preordered (proper.within_root leftFound)
    (proper.within_root rightFound) with within | within | ⟨less, ends⟩ | ⟨less, ends⟩
  · have := bracketed.span_within proper within
    have := within.rank_le proper.ranked
    exact iff_of_false (by omega) (by omega)
  · have := bracketed.span_within proper within
    exact iff_of_false (by omega) fun apart => apart.2 within
  · refine iff_of_true (Nat.le_of_lt ends) ⟨less, fun within => ?_⟩
    have := bracketed.span_within proper within
    omega
  · exact iff_of_false (by omega) (by omega)

/-! ## Numbers of forks -/

private theorem forksBefore_mono (tree : StatementTree) (le : index ≤ other) :
    tree.forksBefore index ≤ tree.forksBefore other :=
  (List.range_sublist.mpr le).countP_le

/-- The number of a fork tells whether it begins before an index. -/
theorem forksBefore_lt_iff (isFork : tree.isFork fork = true) :
    tree.forksBefore fork.index < tree.forksBefore other ↔ fork.index < other := by
  constructor
  · intro less
    by_contra notLess
    exact Nat.not_le.mpr less (tree.forksBefore_mono (Nat.not_lt.mp notLess))
  · intro less
    have next : tree.forksBefore (fork.index + 1) = tree.forksBefore fork.index + 1 := by
      rw [forksBefore_succ, if_pos isFork]
    have later : tree.forksBefore (fork.index + 1) ≤ tree.forksBefore other :=
      tree.forksBefore_mono less
    omega

theorem forksBefore_inj (leftFork : tree.isFork left = true) (rightFork : tree.isFork right = true)
    (same : tree.forksBefore left.index = tree.forksBefore right.index) : left = right := by
  have notLess : ¬ left.index < right.index := fun less =>
    Nat.ne_of_lt ((forksBefore_lt_iff leftFork).mpr less) same
  have notGreater : ¬ right.index < left.index := fun less =>
    Nat.ne_of_lt ((forksBefore_lt_iff rightFork).mpr less) same.symm
  have index : left.index = right.index := by omega
  obtain ⟨left⟩ := left
  obtain ⟨right⟩ := right
  exact congrArg StatementId.mk index

/-! ## Forks around a statement -/

private theorem Proper.mem_chain_iff (proper : tree.Proper) (enough : inner.index < steps) :
    outer ∈ tree.chain steps (some inner) ↔ tree.IsWithin inner outer := by
  induction steps generalizing inner with
  | zero => cases enough
  | succ steps induction =>
      rw [chain, List.mem_cons]
      cases isParent : tree.parent (some inner) with
      | none =>
          have nothing : tree.chain steps none = [] := by cases steps <;> rfl
          rw [nothing, or_iff_left List.not_mem_nil]
          constructor
          · rintro rfl
            exact .refl _
          · intro within
            rcases within.eq_or_parent with same | ⟨above, isAbove, _⟩
            · exact same.symm
            · rw [isParent] at isAbove
              cases isAbove
      | some above =>
          have less := proper.ranked isParent
          rw [induction (by omega)]
          constructor
          · rintro (rfl | higher)
            · exact .refl _
            · exact (Under.ofParent isParent).trans higher
          · intro within
            rcases within.eq_or_parent with same | ⟨known, isKnown, higher⟩
            · exact .inl same.symm
            · obtain rfl := Option.some.inj (isParent.symm.trans isKnown)
              exact .inr higher

private theorem Proper.mem_around_iff (proper : tree.Proper) (isFork : tree.isFork fork = true) :
    tree.forksBefore fork.index ∈ (tree.place statement).around ↔
      tree.IsBelow statement fork := by
  rw [place, placeBelow, forksAround]
  cases isParent : tree.parent (some statement) with
  | none =>
      have nothing : tree.chain tree.statements.size none = [] := by
        cases tree.statements.size <;> rfl
      rw [nothing]
      refine iff_of_false List.not_mem_nil ?_
      rintro ⟨different, within⟩
      obtain ⟨above, isAbove, _⟩ := within.eq_or_parent.resolve_left different
      rw [isParent] at isAbove
      cases isAbove
  | some above =>
      obtain ⟨_, found, _⟩ := proper.child_of_parent isParent
      have inTree : above.index < tree.statements.size := (Array.getElem?_eq_some_iff.mp found).1
      simp only [List.mem_map, List.mem_filter, proper.mem_chain_iff inTree]
      constructor
      · rintro ⟨known, ⟨higher, knownFork⟩, same⟩
        obtain rfl := forksBefore_inj knownFork isFork same
        refine ⟨?_, (Under.ofParent isParent).trans higher⟩
        rintro rfl
        exact Under.not_under_child proper.ranked isParent higher
      · rintro ⟨different, within⟩
        obtain ⟨known, isKnown, higher⟩ := within.eq_or_parent.resolve_left different
        obtain rfl := Option.some.inj (isParent.symm.trans isKnown)
        exact ⟨fork, ⟨higher, isFork⟩, rfl⟩

/-- The forks that are over at the place of a statement are those that end before it begins. -/
theorem Bracketed.mem_past_iff (bracketed : tree.Bracketed) (proper : tree.Proper)
    (preordered : tree.Preordered) {forkNode : StatementNode}
    (forkFound : tree.statement? (some fork) = some forkNode) (isFork : tree.isFork fork = true)
    (found : tree.statement? (some statement) = some node) :
    tree.forksBefore fork.index ∈ (tree.place statement).past ↔
      (tree.span (some fork)).stop ≤ (tree.span (some statement)).start := by
  have forks : (tree.place statement).forks = tree.forksBefore statement.index := rfl
  calc tree.forksBefore fork.index ∈ (tree.place statement).past
      ↔ fork.index < statement.index ∧ ¬ tree.IsBelow statement fork := by
        rw [ForkPlace.mem_past, proper.mem_around_iff isFork, forks, forksBefore_lt_iff isFork]
    _ ↔ fork.index < statement.index ∧ ¬ tree.IsWithin statement fork := by
        refine and_congr_right fun less => not_congr ⟨And.right, fun within => ⟨?_, within⟩⟩
        rintro rfl
        exact Nat.lt_irrefl _ less
    _ ↔ (tree.span (some fork)).stop ≤ (tree.span (some statement)).start :=
        (bracketed.stop_le_start_iff proper preordered forkFound found).symm

end LexicalScope.StatementTree
