import LexicalScope.Proofs.Rewording.Nodes
import LexicalScope.Proofs.Scope.Header
import Mathlib.Data.List.Basic

/-!
# Trees that repeat parts of others

A tree repeats a part of another one when it has the same nodes there, up to their texts. What is
read off that part is the same then: whether a statement exits, and which names an expression
introduces, each with its new text.
-/

namespace LexicalScope

variable {w : Rewording}

theorem Rewording.Faithful.beq_eq (faithful : w.Faithful) (a b : String) :
    (w.name a == w.name b) = (a == b) := by
  rw [Bool.eq_iff_iff, beq_iff_eq, beq_iff_eq]
  exact faithful.injective.eq_iff

theorem Rewording.faithful_id : Rewording.id.Faithful := ⟨Function.injective_id, rfl, rfl⟩

private theorem Binding.introduction_reworded (faithful : w.Faithful) (binding : Binding)
    (kind : DeclarationKind) (expression : ExpressionRef) (statement : StatementRef) :
    (binding.reworded w).introduction kind expression statement =
      (binding.introduction kind expression statement).map (·.reworded w) := by
  have same : (binding.reworded w).isDiscard = binding.isDiscard := by
    have kept := faithful.beq_eq binding.name "_"
    rwa [faithful.discard] at kept
  unfold introduction
  rw [same]
  split <;> rfl

namespace StatementTree

/-- A tree has some of the statements and expressions of another one, up to their texts, with all
that is below them. -/
structure Repeats (w : Rewording) (tree other : StatementTree) (visited : StatementRef → Prop)
    (evaluated : ExpressionRef → Prop) : Prop where
  statement : ∀ {ref}, visited ref →
    other.statement? ref = (tree.statement? ref).map (·.reworded w)
  child : ∀ {ref node}, visited ref → tree.statement? ref = some node →
    ∀ child ∈ node.content.children, visited child.1
  expression : ∀ {ref}, evaluated ref →
    other.expression? ref = (tree.expression? ref).map (·.reworded w)
  slot : ∀ {ref node}, evaluated ref → tree.expression? ref = some node →
    ∀ slot ∈ node.content.slots, evaluated slot

/-- The names introduced in a number of steps are the same, up to their texts. -/
structure SameIntroduced (w : Rewording) (tree other : StatementTree)
    (evaluated : ExpressionRef → Prop) (statement : StatementRef) (steps : Nat) : Prop where
  below : ∀ {expression}, evaluated expression →
    other.introducedBelow statement steps expression =
      (tree.introducedBelow statement steps expression).map (·.reworded w)
  pattern : ∀ owner {pattern : PatternNode}, (∀ slot ∈ pattern.constants, evaluated slot) →
    other.introducedByPattern statement steps owner (pattern.reworded w) =
      (tree.introducedByPattern statement steps owner pattern).map (·.reworded w)

namespace Repeats

variable {tree other : StatementTree} {visited : StatementRef → Prop}
  {evaluated : ExpressionRef → Prop} {statement ref : StatementRef} {expression : ExpressionRef}
  (repeats : Repeats w tree other visited evaluated)
include repeats

theorem alwaysExits (breakExits : Bool) (limit : Nat) (here : visited ref) :
    other.alwaysExits breakExits limit ref = tree.alwaysExits breakExits limit ref := by
  induction limit generalizing ref with
  | zero => rfl
  | succ limit induction =>
      have members : ∀ list : List StatementRef, (∀ member ∈ list, visited member) →
          list.any (other.alwaysExits breakExits limit) =
            list.any (tree.alwaysExits breakExits limit) := by
        intro list visitable
        induction list with
        | nil => rfl
        | cons first rest others =>
            obtain ⟨firstHere, restHere⟩ := List.forall_mem_cons.mp visitable
            rw [List.any_cons, List.any_cons, induction firstHere, others restHere]
      rw [StatementTree.alwaysExits, StatementTree.alwaysExits, repeats.statement here]
      cases found : tree.statement? ref with
      | none => rfl
      | some node =>
          have children := repeats.child here found
          obtain ⟨content, span, parent⟩ := node
          cases content with
          | block list | switchSection _ list =>
              exact members list fun member among => children _ (List.mem_map_of_mem among)
          | branch condition thenBody elseBody =>
              cases elseBody with
              | none => rfl
              | some elseBody =>
                  exact congrArg₂ (· && ·) (induction (children _ List.mem_cons_self))
                    (induction (children _ (List.mem_cons_of_mem _ List.mem_cons_self)))
          | labeled label body => exact induction (children _ List.mem_cons_self)
          | _ => rfl

theorem sameIntroduced (faithful : w.Faithful) (statement : StatementRef) (steps : Nat) :
    SameIntroduced w tree other evaluated statement steps := by
  induction steps with
  | zero => exact ⟨fun _ => rfl, fun _ _ _ => rfl⟩
  | succ steps induction =>
      constructor
      · intro expression known
        cases found : tree.expression? expression with
        | none =>
            rw [introducedBelow, introducedBelow, repeats.expression known, found]
            rfl
        | some node =>
            have foundToo : other.expression? expression = some (node.reworded w) := by
              rw [repeats.expression known, found, Option.map_some]
            have slots := repeats.slot known found
            rw [introducedBelow_succ found, introducedBelow_succ foundToo]
            change other.introducedIn statement steps expression (node.content.reworded w) = _
            have parts : node.content.children.flatMap
                  (fun child => other.introducedBelow statement steps (some child)) =
                (node.content.children.flatMap fun child =>
                  tree.introducedBelow statement steps (some child)).map (·.reworded w) := by
              rw [List.map_flatMap]
              refine List.flatMap_congr fun child among => induction.below (slots _ ?_)
              obtain ⟨slot, listed, rfl⟩ := List.mem_filterMap.mp among
              exact listed
            cases content : node.content with
            | test operand pattern =>
                rw [content] at slots
                rw [ExpressionContent.reworded, introducedIn, introducedIn, List.map_append,
                  induction.below (slots _ List.mem_cons_self),
                  induction.pattern _ fun slot among => slots slot (List.mem_cons_of_mem _ among)]
            | outVariable named binding => exact binding.introduction_reworded faithful ..
            | _ =>
                rw [content] at parts
                exact parts
      · intro owner pattern known
        cases pattern with
        | declaration named binding | anyValue binding =>
            exact binding.introduction_reworded faithful ..
        | recursive named subpatterns binding =>
            rw [PatternNode.constants, PatternNode.constantsOfAll_eq] at known
            simp only [PatternNode.reworded, introducedByPattern, PatternNode.rewordedAll_eq_map,
              List.flatMap_map, List.map_append, List.map_flatMap]
            refine congrArg₂ (· ++ ·) (List.flatMap_congr fun inner among =>
              induction.pattern owner fun slot listed =>
                known slot (List.mem_flatMap.mpr ⟨inner, among, listed⟩)) ?_
            cases binding with
            | none => rfl
            | some binding => exact binding.introduction_reworded faithful ..
        | negated inner => exact induction.pattern owner known
        | constant value => exact induction.below (known value List.mem_cons_self)
        | type _ | discard => rfl

theorem introduced (faithful : w.Faithful) (known : evaluated expression) :
    other.introduced expression = (tree.introduced expression).map (·.reworded w) := by
  unfold StatementTree.introduced
  rw [repeats.expression known]
  cases tree.expression? expression with
  | none => rfl
  | some node => exact (repeats.sameIntroduced faithful _ _).below known

theorem introducedByLabel (faithful : w.Faithful) {pattern : PatternNode}
    (known : ∀ slot ∈ pattern.constants, evaluated slot) (switchSection : StatementRef) :
    other.introducedByLabel switchSection (pattern.reworded w) =
      (tree.introducedByLabel switchSection pattern).map (·.reworded w) :=
  (repeats.sameIntroduced faithful _ _).pattern none known

end Repeats

end StatementTree

end LexicalScope
