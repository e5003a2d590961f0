import LexicalScope.Proofs.StatementTree.Spans
import LexicalScope.Scope.Binder

/-!
# Forward passes

A forward pass goes through a procedure without ever going back: an `if` takes one of its branches,
a switch at most one of its sections, and a loop runs its body at most once. A pass stops short
where a `return`, `throw`, `break` or `continue` leaves the statements around it.
-/

namespace LexicalScope

/-- How a pass leaves a statement. -/
inductive Exit where
  | normal | breaking | continuing
  /-- By a `return` or `throw`, which ends the pass. -/
  | ended
deriving DecidableEq, Repr

/-- Whether a statement catches a `break`, as loops and switches do. -/
def StatementKind.catchesBreak : StatementKind → Bool
  | .whileLoop | .doLoop | .forLoop | .forEachLoop | .switch => true
  | _ => false

namespace StatementContent

/-- The ways through a statement: in each the children that a pass goes through. -/
def ways : StatementContent → List (List StatementRef)
  | block members => [members]
  | switchSection _ members => [members]
  | branch _ thenBody none => [[], [thenBody]]
  | branch _ thenBody (some elseBody) => [[thenBody], [some elseBody]]
  | whileLoop _ body => [[], [body]]
  | doLoop body _ => [[], [body]]
  | forLoop _ _ _ _ body => [[], [body]]
  | forEachLoop _ _ body => [[], [body]]
  | resource _ _ body => [[body]]
  | labeled _ body => [[body]]
  | switch _ sections => [] :: sections.map ([·])
  | localDeclaration _ | evaluation _ | returning _ | throwing _ | breaking | continuing | empty =>
    [[]]

/-- How a pass leaves a statement after it has left the children in some way. -/
def exit : StatementContent → Exit → Exit
  | returning _, _ | throwing _, _ => .ended
  | breaking, _ => .breaking
  | continuing, _ => .continuing
  | whileLoop _ _, inner | doLoop _ _, inner | forLoop _ _ _ _ _, inner
  | forEachLoop _ _ _, inner =>
    if inner = .ended then .ended else .normal
  | switch _ _, inner => if inner = .breaking then .normal else inner
  | _, inner => inner

end StatementContent

/-- A pass through statements one behind the other reaches some statements, of which it may evaluate
the headers, and leaves by an exit. -/
inductive StatementTree.Pass (tree : StatementTree) :
    List StatementRef → List StatementId → Exit → Prop
  | done : Pass tree [] [] .normal
  | next {statement node way rest inside behind inner exit} :
      tree.statement? (some statement) = some node → way ∈ node.content.ways →
      Pass tree way inside inner → node.content.exit inner = .normal →
      Pass tree rest behind exit →
      Pass tree (some statement :: rest) (statement :: inside ++ behind) exit
  | leave {statement node way rest inside inner} :
      tree.statement? (some statement) = some node → way ∈ node.content.ways →
      Pass tree way inside inner → node.content.exit inner ≠ .normal →
      Pass tree (some statement :: rest) (statement :: inside) (node.content.exit inner)

namespace StatementTree

variable {tree : StatementTree}

/-- The passes through statements one behind the other that go through fewer than `steps` statements
within statements or behind each other. -/
def passes (tree : StatementTree) : Nat → List StatementRef → List (List StatementId × Exit)
  | 0, _ => []
  | _ + 1, [] => [([], .normal)]
  | _ + 1, none :: _ => []
  | steps + 1, some statement :: rest =>
    match tree.statement? (some statement) with
    | none => []
    | some node =>
      node.content.ways.flatMap fun way =>
        (tree.passes steps way).flatMap fun (inside, inner) =>
          if node.content.exit inner = .normal then
            (tree.passes steps rest).map fun (behind, exit) => (statement :: inside ++ behind, exit)
          else
            [(statement :: inside, node.content.exit inner)]

theorem pass_of_mem_passes {steps : Nat} {refs : List StatementRef} {reached : List StatementId}
    {exit : Exit} (listed : (reached, exit) ∈ tree.passes steps refs) :
    tree.Pass refs reached exit := by
  induction steps generalizing refs reached exit with
  | zero => cases listed
  | succ steps induction =>
      match refs with
      | [] =>
          obtain ⟨rfl, rfl⟩ := Prod.mk.inj (List.mem_singleton.mp listed)
          exact .done
      | none :: _ => cases listed
      | some statement :: rest =>
          unfold passes at listed
          cases found : tree.statement? (some statement) with
          | none => simp [found] at listed
          | some node =>
              simp only [found, List.mem_flatMap] at listed
              obtain ⟨way, isWay, ⟨inside, inner⟩, insideListed, listed⟩ := listed
              have insidePass := induction insideListed
              split at listed
              next normal =>
                obtain ⟨⟨behind, last⟩, behindListed, same⟩ := List.mem_map.mp listed
                obtain ⟨rfl, rfl⟩ := Prod.mk.inj same
                exact .next found isWay insidePass normal (induction behindListed)
              next abrupt =>
                obtain ⟨rfl, rfl⟩ := Prod.mk.inj (List.mem_singleton.mp listed)
                exact .leave found isWay insidePass abrupt

end StatementTree

/-! ## Ways -/

namespace StatementContent

variable {content : StatementContent} {way : List StatementRef}

/-- A way goes through children in their order. -/
theorem sublist_of_mem_ways (isWay : way ∈ content.ways) :
    way.Sublist (content.children.map (·.1)) := by
  cases content with
  | branch condition thenBody elseBody =>
      cases elseBody with
      | none =>
          simp only [ways, List.mem_cons, List.not_mem_nil, or_false] at isWay
          rcases isWay with rfl | rfl
          · exact List.nil_sublist _
          · exact .refl _
      | some elseBody =>
          simp only [ways, List.mem_cons, List.not_mem_nil, or_false] at isWay
          rcases isWay with rfl | rfl
          · exact (List.nil_sublist _).cons_cons _
          · exact (List.Sublist.refl _).cons _
  | switch subject sections =>
      rcases List.mem_cons.mp isWay with rfl | isSection
      · exact List.nil_sublist _
      · obtain ⟨first, member, rfl⟩ := List.mem_map.mp isSection
        simpa [children, Function.comp_def] using member
  | block members | switchSection labels members =>
      obtain rfl := List.mem_singleton.mp isWay
      simp [children, Function.comp_def]
  | whileLoop | doLoop | forLoop | forEachLoop =>
      simp only [ways, List.mem_cons, List.not_mem_nil, or_false] at isWay
      rcases isWay with rfl | rfl
      · exact List.nil_sublist _
      · exact .refl _
  | _ =>
      obtain rfl := List.mem_singleton.mp isWay
      exact .refl _

/-- A statement that a pass leaves normally although it has left the children otherwise catches a
`break`. -/
theorem eq_normal_or_catches {inner : Exit} (normal : content.exit inner = .normal) :
    inner = .normal ∨ content.kind.catchesBreak = true := by
  cases content <;> simp_all [exit, kind, StatementKind.catchesBreak]

end StatementContent

end LexicalScope
