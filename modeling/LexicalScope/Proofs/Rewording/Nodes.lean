import LexicalScope.Proofs.StatementTree.Nesting
import LexicalScope.Scope.Boundary
import LexicalScope.Scope.Introduction
import LexicalScope.StatementTree.Links

/-!
# Other texts for the nodes of a statement tree

The texts of a statement tree are names, operators, literals, types, members of values and labels of
statements. When each sort is reworded by a function of its own, the tree keeps its shape: kinds,
children, slots, spans and owners stay what they are.
-/

namespace LexicalScope

/-- New texts for those of a procedure. -/
structure Rewording where
  /-- The new form of a name that is bound or referred to. -/
  name : String → String
  /-- The new form of an operator. -/
  operator : String → String
  /-- The new form of a literal. -/
  literal : String → String
  /-- The new form of a type. -/
  type : String → String
  /-- The new form of a member of a value. -/
  member : String → String
  /-- The new form of a label of a statement. -/
  label : String → String

/-- A rewording that keeps names apart, and apart from a discard. What stands for an expression that
is not yet laid out stays too. -/
structure Rewording.Faithful (rewording : Rewording) : Prop where
  injective : Function.Injective rewording.name
  discard : rewording.name "_" = "_"
  blank : rewording.literal "" = ""

/-- Every text stays as it is. -/
protected def Rewording.id : Rewording := ⟨id, id, id, id, id, id⟩

theorem map_modify {First Second : Type} {view : First → Second} {change : First → First}
    {changeToo : Second → Second} (same : ∀ entry, view (change entry) = changeToo (view entry))
    (entries : Array First) (index : Nat) :
    (entries.modify index change).map view = (entries.map view).modify index changeToo := by
  refine Array.ext_getElem? fun i => ?_
  simp only [Array.getElem?_map, Array.getElem?_modify]
  split
  · cases entries[i]? <;> simp [same]
  · rfl

variable (w : Rewording)

/-- A binding with another name. -/
def Binding.reworded (binding : Binding) : Binding := { binding with name := w.name binding.name }

/-- A declarator with another name. -/
def DeclaratorNode.reworded (declarator : DeclaratorNode) : DeclaratorNode :=
  { declarator with binding := declarator.binding.reworded w }

mutual

/-- A pattern with other types and names. -/
def PatternNode.reworded : PatternNode → PatternNode
  | .type named => .type (w.type named)
  | .declaration named binding => .declaration (w.type named) (binding.reworded w)
  | .anyValue binding => .anyValue (binding.reworded w)
  | .constant value => .constant value
  | .discard => .discard
  | .recursive named subpatterns binding =>
    .recursive (named.map w.type) (PatternNode.rewordedAll subpatterns)
      (binding.map (·.reworded w))
  | .negated pattern => .negated pattern.reworded

/-- Several patterns with other types and names. -/
def PatternNode.rewordedAll : List PatternNode → List PatternNode
  | [] => []
  | pattern :: rest => pattern.reworded :: rewordedAll rest

end

/-- A label with another pattern. -/
def LabelNode.reworded (label : LabelNode) : LabelNode :=
  { label with pattern := label.pattern.map (·.reworded w) }

/-- What a statement consists of, with other texts. -/
def StatementContent.reworded : StatementContent → StatementContent
  | .forLoop declarators initializers condition incrementors body =>
    .forLoop (declarators.map (·.reworded w)) initializers condition incrementors body
  | .forEachLoop element collection body => .forEachLoop (element.reworded w) collection body
  | .resource declarators held body => .resource (declarators.map (·.reworded w)) held body
  | .switchSection labels statements => .switchSection (labels.map (·.reworded w)) statements
  | .localDeclaration declarators => .localDeclaration (declarators.map (·.reworded w))
  | .labeled label body => .labeled (w.label label) body
  | content => content

/-- What an expression consists of, with other texts. -/
def ExpressionContent.reworded : ExpressionContent → ExpressionContent
  | .name referred => .name (w.name referred)
  | .literal value => .literal (w.literal value)
  | .unary operator operand => .unary (w.operator operator) operand
  | .binary operator left right => .binary (w.operator operator) left right
  | .member target selected => .member target (w.member selected)
  | .test operand pattern => .test operand (pattern.reworded w)
  | .outVariable type binding => .outVariable (type.map w.type) (binding.reworded w)
  | .out referred => .out (w.name referred)
  | content => content

/-- A statement with other texts. -/
def StatementNode.reworded (node : StatementNode) : StatementNode :=
  { node with content := node.content.reworded w }

/-- An expression with other texts. -/
def ExpressionNode.reworded (node : ExpressionNode) : ExpressionNode :=
  { node with content := node.content.reworded w }

/-- A statement tree with other texts; the name of the procedure stays. -/
def StatementTree.reworded (tree : StatementTree) : StatementTree :=
  { tree with
    statements := tree.statements.map (·.reworded w)
    expressions := tree.expressions.map (·.reworded w)
    parameters := tree.parameters.map (·.reworded w) }

/-- An introduction of another name. -/
def Introduction.reworded (introduction : Introduction) : Introduction :=
  { introduction with name := w.name introduction.name }

variable {w}

/-! ## Nothing reworded -/

private theorem Binding.reworded_id (binding : Binding) : binding.reworded .id = binding := rfl

namespace PatternNode

theorem rewordedAll_eq_map (patterns : List PatternNode) :
    rewordedAll w patterns = patterns.map (·.reworded w) := by
  induction patterns with
  | nil => rfl
  | cons pattern rest induction => rw [rewordedAll, induction, List.map_cons]

mutual

theorem reworded_id : ∀ pattern : PatternNode, pattern.reworded .id = pattern
  | .type _ | .declaration _ _ | .anyValue _ | .constant _ | .discard => rfl
  | .recursive named subpatterns binding => by
    have sameBinding : binding.map (Binding.reworded .id) = binding := Option.map_id_apply
    have sameType : named.map Rewording.id.type = named := Option.map_id_apply
    rw [reworded, rewordedAll_id subpatterns, sameBinding, sameType]
  | .negated pattern => by rw [reworded, reworded_id pattern]

theorem rewordedAll_id : ∀ patterns : List PatternNode, rewordedAll .id patterns = patterns
  | [] => rfl
  | pattern :: rest => by rw [rewordedAll, reworded_id pattern, rewordedAll_id rest]

end

/-! ## What stays the same -/

mutual

@[simp] theorem constants_reworded : ∀ pattern : PatternNode,
    (pattern.reworded w).constants = pattern.constants
  | .type _ | .declaration _ _ | .anyValue _ | .constant _ | .discard => rfl
  | .recursive _ subpatterns _ => by
    rw [reworded, constants, constantsOfAll_rewordedAll subpatterns, constants]
  | .negated pattern => by rw [reworded, constants, constants_reworded pattern, constants]

theorem constantsOfAll_rewordedAll : ∀ patterns : List PatternNode,
    constantsOfAll (rewordedAll w patterns) = constantsOfAll patterns
  | [] => rfl
  | pattern :: rest => by
    rw [rewordedAll, constantsOfAll, constants_reworded pattern, constantsOfAll_rewordedAll rest,
      constantsOfAll]

end

end PatternNode

private theorem LabelNode.reworded_id (label : LabelNode) : label.reworded .id = label := by
  obtain ⟨pattern, guard, span⟩ := label
  cases pattern with
  | none => rfl
  | some pattern => rw [reworded, Option.map_some, pattern.reworded_id]

namespace StatementContent

variable (content : StatementContent)

private theorem reworded_id : content.reworded .id = content := by
  have declarators : ∀ list : List DeclaratorNode, list.map (·.reworded .id) = list :=
    fun list => List.map_id list
  have labels : ∀ list : List LabelNode, list.map (·.reworded .id) = list :=
    fun list => (List.map_congr_left fun label _ => label.reworded_id).trans (List.map_id list)
  cases content with
  | labeled label body => rfl
  | _ => simp only [reworded, declarators, labels, Binding.reworded_id]

@[simp] theorem kind_reworded : (content.reworded w).kind = content.kind := by
  cases content <;> rfl

@[simp] theorem children_reworded : (content.reworded w).children = content.children := by
  cases content <;> rfl

end StatementContent

namespace ExpressionContent

variable (content : ExpressionContent)

private theorem reworded_id : content.reworded .id = content := by
  cases content with
  | test operand pattern => rw [reworded, pattern.reworded_id]
  | outVariable type binding =>
      have same : type.map Rewording.id.type = type := Option.map_id_apply
      rw [reworded, same, binding.reworded_id]
  | _ => rfl

@[simp] theorem slots_reworded : (content.reworded w).slots = content.slots := by
  cases content <;> simp [reworded, slots]

@[simp] theorem children_reworded : (content.reworded w).children = content.children := by
  rw [children, slots_reworded, children]

end ExpressionContent

@[simp] theorem StatementNode.content_reworded (node : StatementNode) :
    (node.reworded w).content = node.content.reworded w := rfl

theorem StatementNode.reworded_id (node : StatementNode) : node.reworded .id = node := by
  rw [reworded, node.content.reworded_id]

theorem ExpressionNode.reworded_id (node : ExpressionNode) : node.reworded .id = node := by
  rw [reworded, node.content.reworded_id]

@[simp] theorem StatementNode.kind_reworded (node : StatementNode) :
    (node.reworded w).kind = node.kind := node.content.kind_reworded

/-! ## Trees -/

namespace StatementTree

variable (tree : StatementTree)

@[simp] theorem root_reworded : (tree.reworded w).root = tree.root := rfl

@[simp] theorem size_statements_reworded :
    (tree.reworded w).statements.size = tree.statements.size := Array.size_map

@[simp] theorem size_expressions_reworded :
    (tree.reworded w).expressions.size = tree.expressions.size := Array.size_map

@[simp] theorem statement?_reworded (ref : StatementRef) :
    (tree.reworded w).statement? ref = (tree.statement? ref).map (·.reworded w) := by
  cases ref with
  | none => rfl
  | some id => exact Array.getElem?_map

@[simp] theorem expression?_reworded (ref : ExpressionRef) :
    (tree.reworded w).expression? ref = (tree.expression? ref).map (·.reworded w) := by
  cases ref with
  | none => rfl
  | some id => exact Array.getElem?_map

@[simp] theorem children_reworded (ref : StatementRef) :
    (tree.reworded w).children ref = tree.children ref := by
  cases known : tree.statement? ref <;>
    simp [children, known, StatementNode.reworded]

@[simp] theorem expressionChildren_reworded (ref : ExpressionRef) :
    (tree.reworded w).expressionChildren ref = tree.expressionChildren ref := by
  cases known : tree.expression? ref <;>
    simp [expressionChildren, known, ExpressionNode.reworded]

@[simp] theorem position?_reworded (ref : StatementRef) :
    (tree.reworded w).position? ref = tree.position? ref := by
  cases known : tree.statement? ref <;>
    simp [position?, known, StatementNode.reworded]

@[simp] theorem expressionSteps_reworded :
    (tree.reworded w).expressionSteps = tree.expressionSteps := by
  simp [expressionSteps]

@[simp] theorem isTwoWay_reworded (ref : StatementRef) :
    (tree.reworded w).isTwoWay ref = tree.isTwoWay ref := by
  unfold isTwoWay
  rw [statement?_reworded, Option.map_map, position?_reworded]
  cases tree.statement? ref with
  | none => rfl
  | some node =>
      obtain ⟨content, span, parent⟩ := node
      cases content with
      | branch condition thenBody elseBody =>
          simp only [Option.map_some, Function.comp_apply, StatementNode.content_reworded,
            StatementContent.reworded, statement?_reworded]
          cases tree.statement? elseBody with
          | none => rfl
          | some alternative => simp only [Option.map_some, StatementNode.kind_reworded]
      | _ => rfl

@[simp] theorem branchingClass_reworded (ref : StatementRef) (content : StatementContent) :
    (tree.reworded w).branchingClass ref (content.reworded w) =
      tree.branchingClass ref content := by
  cases content with
  | branch condition thenBody elseBody => cases elseBody <;> simp [branchingClass,
      StatementContent.reworded]
  | _ => rfl

@[simp] theorem classify_reworded (ref : StatementRef) (position : Position) :
    (tree.reworded w).classify ref position = tree.classify ref position := by
  cases known : tree.statement? ref <;>
    simp [classify, known, StatementNode.reworded, StatementNode.kind]

end StatementTree

end LexicalScope
