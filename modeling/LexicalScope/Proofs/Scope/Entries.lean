import LexicalScope.Proofs.Layout.Occupation
import LexicalScope.Proofs.Procedure.Declared
import LexicalScope.Proofs.Scope.Header

/-!
# What headers declare

Binding the expressions, declarators and labels of a header declares just the names that they
introduce, in their order. The number of steps to which the collection of names is limited cuts
nothing off, because expressions nest less deep wherever they stand in a statement tree.
-/

namespace LexicalScope

/-- The entry of an introduction. -/
def Introduction.entry (introduction : Introduction) : Entry :=
  ⟨introduction.name, introduction.kind, introduction.span⟩

theorem Ident.map_introduction (ident : Ident) (kind : DeclarationKind) (expression : ExpressionRef)
    (statement : StatementRef) :
    (ident.binding.introduction kind expression statement).map Introduction.entry =
      ident.designated kind := by
  unfold Binding.introduction Ident.designated
  by_cases discards : ident.name = "_"
  · simp [discards, Ident.binding, Binding.isDiscard]
  · simp [discards, Ident.binding, Binding.isDiscard, Introduction.entry, Ident.entry]

/-! ## Expressions -/

theorem steps_pos {depth steps : Nat} (shallow : depth < Limit.expressionNesting)
    (enough : Limit.expressionNesting < steps + depth) : 0 < steps := by
  omega

section Expressions

variable {tree : StatementTree} {owner : StatementId} {statement : StatementRef}

mutual

/-- The names collected from an expression are those that it introduces. -/
theorem Expression.map_introducedBelow : ∀ (value : Expression) {depth : Nat}
    {parent : ExpressionRef} {start stop steps : Nat},
    value.Occupies tree owner depth parent start stop →
      Limit.expressionNesting < steps + depth →
        (tree.introducedBelow statement steps (some ⟨start⟩)).map Introduction.entry =
          value.declared
  | .mk span form, depth, parent, start, stop, steps, occupied, enough => by
    obtain ⟨shallow, content, found, inside⟩ := occupied
    obtain ⟨fewer, rfl⟩ := Nat.exists_eq_add_one.mpr (steps_pos shallow enough)
    rw [StatementTree.introducedBelow_succ found]
    exact form.map_introducedIn inside (by omega)

theorem ExpressionForm.map_introducedIn : ∀ (form : ExpressionForm) {depth : Nat}
    {id : ExpressionId} {content : ExpressionContent} {start stop steps : Nat},
    form.Occupies tree owner depth id content start stop →
      Limit.expressionNesting < steps + depth →
        (tree.introducedIn statement steps (some id) content).map Introduction.entry = form.declared
  | .name _, _, _, _, _, _, _, occupied, _ => by
    obtain ⟨rfl, _⟩ := occupied
    rfl
  | .literal _, _, _, _, _, _, _, occupied, _ => by
    obtain ⟨rfl, _⟩ := occupied
    rfl
  | .unary _ operand, _, _, _, _, _, _, occupied, enough => by
    obtain ⟨rfl, inner⟩ := occupied
    rw [ExpressionForm.declared, ← operand.map_introducedBelow inner enough]
    simp [StatementTree.introducedIn, ExpressionContent.children, ExpressionContent.slots]
  | .binary _ left right, _, _, _, _, _, _, occupied, enough => by
    obtain ⟨middle, rfl, first, second⟩ := occupied
    rw [ExpressionForm.declared, ← left.map_introducedBelow first enough,
      ← right.map_introducedBelow second enough]
    simp [StatementTree.introducedIn, ExpressionContent.children, ExpressionContent.slots]
  | .choice condition whenTrue whenFalse, _, _, _, _, _, _, occupied, enough => by
    obtain ⟨_, _, rfl, first, second, third⟩ := occupied
    rw [ExpressionForm.declared, ← condition.map_introducedBelow first enough,
      ← whenTrue.map_introducedBelow second enough, ← whenFalse.map_introducedBelow third enough]
    simp [StatementTree.introducedIn, ExpressionContent.children, ExpressionContent.slots]
  | .paren inner, _, _, _, _, _, _, occupied, enough => by
    obtain ⟨rfl, inside⟩ := occupied
    rw [ExpressionForm.declared, ← inner.map_introducedBelow inside enough]
    simp [StatementTree.introducedIn, ExpressionContent.children, ExpressionContent.slots]
  | .call callee arguments, _, _, _, _, _, _, occupied, enough => by
    obtain ⟨_, _, rfl, first, others⟩ := occupied
    rw [ExpressionForm.declared, ← callee.map_introducedBelow first enough,
      ← Expression.map_introducedInAll arguments others enough]
    simp [StatementTree.introducedIn, ExpressionContent.children, ExpressionContent.slots]
  | .member target _, _, _, _, _, _, _, occupied, enough => by
    obtain ⟨rfl, inside⟩ := occupied
    rw [ExpressionForm.declared, ← target.map_introducedBelow inside enough]
    simp [StatementTree.introducedIn, ExpressionContent.children, ExpressionContent.slots]
  | .assign target value, _, _, _, _, _, _, occupied, enough => by
    obtain ⟨_, rfl, first, second⟩ := occupied
    rw [ExpressionForm.declared, ← target.map_introducedBelow first enough,
      ← value.map_introducedBelow second enough]
    simp [StatementTree.introducedIn, ExpressionContent.children, ExpressionContent.slots]
  | .test operand pattern, _, _, _, _, _, _, occupied, enough => by
    obtain ⟨_, _, rfl, first, second⟩ := occupied
    rw [ExpressionForm.declared, ← operand.map_introducedBelow first enough,
      ← pattern.map_introducedByPattern second enough]
    exact List.map_append
  | .outVariable _ name, _, _, _, _, _, _, occupied, _ => by
    obtain ⟨rfl, _⟩ := occupied
    exact name.map_introduction ..
  | .out _, _, _, _, _, _, _, occupied, _ => by
    obtain ⟨rfl, _⟩ := occupied
    rfl

theorem Expression.map_introducedInAll : ∀ (values : List Expression) {depth : Nat}
    {parent : ExpressionRef} {refs : List ExpressionRef} {start stop steps : Nat},
    Expression.AllOccupy tree owner depth parent values refs start stop →
      Limit.expressionNesting < steps + depth →
        ((refs.filterMap id).flatMap fun child =>
          tree.introducedBelow statement steps (some child)).map Introduction.entry =
            Expression.declaredInAll values
  | [], _, _, _, _, _, _, occupied, _ => by
    obtain ⟨rfl, _⟩ := occupied
    rfl
  | first :: rest, _, _, _, _, _, _, occupied, enough => by
    obtain ⟨others, middle, rfl, firstOccupied, restOccupied⟩ := occupied
    rw [Expression.declaredInAll, ← first.map_introducedBelow firstOccupied enough,
      ← Expression.map_introducedInAll rest restOccupied enough]
    simp

theorem Pattern.map_introducedByPattern : ∀ (pattern : Pattern) {depth : Nat}
    {parent holder : ExpressionRef} {node : PatternNode} {start stop steps : Nat},
    pattern.Occupies tree owner depth parent node start stop →
      Limit.expressionNesting < steps + depth →
        (tree.introducedByPattern statement steps holder node).map Introduction.entry =
          pattern.declared
  | .type _, _, _, _, _, _, _, _, occupied, enough => by
    obtain ⟨shallow, rfl, _⟩ := occupied
    obtain ⟨fewer, rfl⟩ := Nat.exists_eq_add_one.mpr (steps_pos shallow enough)
    rfl
  | .declaration _ name, _, _, _, _, _, _, _, occupied, enough => by
    obtain ⟨shallow, rfl, _⟩ := occupied
    obtain ⟨fewer, rfl⟩ := Nat.exists_eq_add_one.mpr (steps_pos shallow enough)
    exact name.map_introduction ..
  | .anyValue name, _, _, _, _, _, _, _, occupied, enough => by
    obtain ⟨shallow, rfl, _⟩ := occupied
    obtain ⟨fewer, rfl⟩ := Nat.exists_eq_add_one.mpr (steps_pos shallow enough)
    exact name.map_introduction ..
  | .constant value, _, _, _, _, _, _, _, occupied, enough => by
    obtain ⟨shallow, rfl, inside⟩ := occupied
    obtain ⟨fewer, rfl⟩ := Nat.exists_eq_add_one.mpr (steps_pos shallow enough)
    exact value.map_introducedBelow inside (by omega)
  | .discard, _, _, _, _, _, _, _, occupied, enough => by
    obtain ⟨shallow, rfl, _⟩ := occupied
    obtain ⟨fewer, rfl⟩ := Nat.exists_eq_add_one.mpr (steps_pos shallow enough)
    rfl
  | .recursive _ subpatterns name, _, _, holder, _, _, _, _, occupied, enough => by
    obtain ⟨shallow, nodes, rfl, inside⟩ := occupied
    obtain ⟨fewer, rfl⟩ := Nat.exists_eq_add_one.mpr (steps_pos shallow enough)
    have parts : (nodes.flatMap (tree.introducedByPattern statement fewer holder)).map
        Introduction.entry = Pattern.declaredInAll subpatterns :=
      Pattern.map_introducedByPatterns subpatterns inside (by omega)
    cases name with
    | none => simp [StatementTree.introducedByPattern, Pattern.declared, parts]
    | some name =>
        simp [StatementTree.introducedByPattern, Pattern.declared, parts, Ident.map_introduction]
  | .negated pattern, _, _, holder, _, _, _, _, occupied, enough => by
    obtain ⟨shallow, inner, rfl, inside⟩ := occupied
    obtain ⟨fewer, rfl⟩ := Nat.exists_eq_add_one.mpr (steps_pos shallow enough)
    have part : (tree.introducedByPattern statement fewer holder inner).map Introduction.entry =
        pattern.declared :=
      pattern.map_introducedByPattern inside (by omega)
    exact part

theorem Pattern.map_introducedByPatterns : ∀ (patterns : List Pattern) {depth : Nat}
    {parent holder : ExpressionRef} {nodes : List PatternNode} {start stop steps : Nat},
    Pattern.AllOccupy tree owner depth parent patterns nodes start stop →
      Limit.expressionNesting < steps + depth →
        (nodes.flatMap (tree.introducedByPattern statement steps holder)).map Introduction.entry =
          Pattern.declaredInAll patterns
  | [], _, _, _, _, _, _, _, occupied, _ => by
    obtain ⟨rfl, _⟩ := occupied
    rfl
  | first :: rest, _, _, _, _, _, _, _, occupied, enough => by
    obtain ⟨node, others, middle, rfl, firstOccupied, restOccupied⟩ := occupied
    rw [List.flatMap_cons, List.map_append, first.map_introducedByPattern firstOccupied enough,
      Pattern.map_introducedByPatterns rest restOccupied enough]
    rfl

end

end Expressions

/-! ## Headers -/

namespace Binder

/-- The entries of the declarations met so far. -/
def entries (binder : Binder) : List Entry :=
  binder.declarations.toList.map Declaration.entry

variable {tree : StatementTree} {owner : StatementId} {binder : Binder} {start stop : Nat}

@[simp] theorem entries_enter (kind : RegionKind) (boundary : StatementRef) (span : Span)
    (branch : Option BranchTag) :
    (binder.enter kind boundary span branch).entries = binder.entries := rfl

@[simp] theorem entries_leave : binder.leave.entries = binder.entries := by
  rw [entries, declarations_leave, entries]

@[simp] theorem entries_recordStatement (statement : StatementRef) (region : RegionRef) :
    (binder.recordStatement statement region).entries = binder.entries := by
  cases statement <;> rfl

@[simp] theorem entries_recordExpression (expression : ExpressionRef) :
    (binder.recordExpression tree expression).entries = binder.entries := by
  cases expression <;> rfl

@[simp] theorem entries_bleed (depth : Nat) :
    { binder with bleedDepth := depth }.entries = binder.entries := rfl

@[simp] theorem entries_declare (name : String) (kind : DeclarationKind) (span : Span)
    (statement : StatementRef) (expression : ExpressionRef) :
    (binder.declare name kind span statement expression).entries =
      binder.entries ++ [⟨name, kind, span⟩] := by
  simp [entries, declare, Declaration.entry]

@[simp] theorem entries_declareIntroductions (introductions : List Introduction) :
    (introductions.foldl declareIntroduction binder).entries =
      binder.entries ++ introductions.map Introduction.entry := by
  induction introductions generalizing binder with
  | nil => simp
  | cons first rest induction =>
      rw [List.foldl_cons, induction]
      simp [declareIntroduction, Introduction.entry]

theorem entries_foldl {Part Node : Type} {occupies : Part → Node → Nat → Nat → Prop}
    {bind : Binder → Node → Binder} {declared : Part → List Entry}
    (each : ∀ {part node start stop} {binder : Binder}, occupies part node start stop →
      (bind binder node).entries = binder.entries ++ declared part)
    {parts : List Part} {nodes : List Node} (occupied : OccupyAll occupies parts nodes start stop) :
    (nodes.foldl bind binder).entries = binder.entries ++ parts.flatMap declared := by
  induction parts generalizing binder nodes start with
  | nil =>
      obtain ⟨rfl, _⟩ := occupied
      exact (List.append_nil _).symm
  | cons first rest induction =>
      obtain ⟨node, others, middle, rfl, firstOccupied, restOccupied⟩ := occupied
      calc ((node :: others).foldl bind binder).entries
          = (bind binder node).entries ++ rest.flatMap declared := induction restOccupied
        _ = binder.entries ++ declared first ++ rest.flatMap declared := by rw [each firstOccupied]
        _ = binder.entries ++ (first :: rest).flatMap declared := by
            rw [List.append_assoc, List.flatMap_cons]

/-- Binding an expression in a header declares what it introduces. -/
theorem entries_bindExpression {value : Expression} {ref : ExpressionRef}
    (occupied : value.OccupiesAt tree owner ref start stop) :
    (binder.bindExpression tree ref).entries = binder.entries ++ value.declared := by
  obtain ⟨rfl, inHeader⟩ := occupied
  obtain ⟨span, form⟩ := value
  have collected : (tree.introducedBelow (some owner) (Limit.expressionNesting + 1)
      (some ⟨start⟩)).map Introduction.entry = (Expression.mk span form).declared :=
    Expression.map_introducedBelow _ inHeader (Nat.lt_succ_self _)
  obtain ⟨_, content, found, _⟩ := inHeader
  calc (binder.bindExpression tree (some ⟨start⟩)).entries
      = binder.entries ++ (tree.introduced (some ⟨start⟩)).map Introduction.entry := by
        rw [bindExpression, entries_declareIntroductions, entries_recordExpression]
    _ = binder.entries ++ (Expression.mk span form).declared := by
        rw [StatementTree.introduced, found, collected]

theorem entries_bindOptional {value : Option Expression} {ref : ExpressionRef}
    (occupied : OccupyOptional (Expression.OccupiesHeader tree owner) value ref start stop) :
    (binder.bindExpression tree ref).entries =
      binder.entries ++ Expression.declaredIfPresent value := by
  cases value with
  | none =>
      obtain ⟨rfl, _⟩ := occupied
      exact (List.append_nil _).symm
  | some value =>
      rw [entries_bindExpression occupied]
      simp [Expression.declaredIfPresent]

theorem entries_bindExpressions {values : List Expression} {refs : List ExpressionRef}
    (occupied : OccupyAll (Expression.OccupiesAt tree owner) values refs start stop) :
    (binder.bindExpressions tree refs).entries =
      binder.entries ++ values.flatMap Expression.declared := by
  refine entries_foldl (fun {value ref start stop binder} occupied => ?_) occupied
  exact entries_bindExpression occupied

theorem entries_bindDeclarators {statement : StatementRef} {declarators : List Declarator}
    {nodes : List DeclaratorNode}
    (occupied : OccupyAll (Declarator.Occupies tree owner) declarators nodes start stop) :
    (binder.bindDeclarators tree statement nodes).entries =
      binder.entries ++ declarators.flatMap Declarator.declared := by
  refine entries_foldl (fun {declarator node start stop binder} occupied => ?_) occupied
  obtain ⟨named, initial⟩ := occupied
  have present : node.initializer.isSome = declarator.initializer.isSome := by
    cases given : declarator.initializer with
    | none =>
        rw [given] at initial
        rw [initial.1]
        rfl
    | some value =>
        rw [given] at initial
        rw [initial.1]
        rfl
  rw [bindDeclarator, entries_bindOptional initial, entries_declare, named, present,
    List.append_assoc]
  rfl

theorem entries_bindLabels {statement : StatementRef} {labels : List Label}
    {nodes : List LabelNode}
    (occupied : OccupyAll (Label.Occupies tree owner) labels nodes start stop) :
    (binder.bindLabels tree statement nodes).entries =
      binder.entries ++ labels.flatMap Label.declared := by
  refine entries_foldl (fun {label node start stop binder} occupied => ?_) occupied
  cases label with
  | otherwise =>
      obtain ⟨noPattern, noGuard, _⟩ := occupied
      rw [bindLabel, noPattern, noGuard]
      exact (List.append_nil _).symm
  | matching pattern guard =>
      obtain ⟨inner, middle, isPattern, inPattern, inGuard⟩ := occupied
      have collected : (tree.introducedByLabel statement inner).map Introduction.entry =
          pattern.declared :=
        pattern.map_introducedByPattern inPattern (Nat.lt_succ_self _)
      have recorded : ∀ (constants : List ExpressionRef) (binder : Binder),
          (constants.foldl (fun binder constant => binder.recordExpression tree constant)
            binder).entries = binder.entries := by
        intro constants
        induction constants with
        | nil => exact fun _ => rfl
        | cons first rest induction =>
            intro binder
            rw [List.foldl_cons, induction, entries_recordExpression]
      rw [bindLabel, isPattern, entries_bindOptional inGuard]
      simp only [recorded, entries_declareIntroductions, collected, Label.declared,
        List.append_assoc]

end Binder

end LexicalScope
