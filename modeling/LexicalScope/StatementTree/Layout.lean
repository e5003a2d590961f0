import LexicalScope.Procedure.Syntax
import LexicalScope.StatementTree.Basic
import LexicalScope.StatementTree.Error

/-!
# Laying a procedure out as a statement tree

The nodes of a procedure get their indexes in source order, a node before its parts. Parts without a
stated span get offsets that count up from zero in source order and stay behind every span stated
earlier: one offset where a part opens and one where it closes.
-/

namespace LexicalScope

/-- Why a procedure has no statement tree. -/
inductive LayoutError where
  /-- The procedure nests too deeply. -/
  | refused (error : TreeError)
  /-- A part without a span would need an offset out of range. -/
  | overflow (error : OffsetOverflow)
deriving DecidableEq, Repr

/-- A tree under construction. -/
structure LayoutState where
  /-- The nodes so far. -/
  tree : StatementTree
  /-- The next offset for a part without a span. -/
  next : Nat
deriving Inhabited

/-- A step of the layout. -/
abbrev Layout := EStateM LayoutError LayoutState

namespace Layout

/-- The offset at which a part opens. -/
def openSpan (given : Option Span) : Layout Nat := fun state =>
  match given with
  | some span => .ok span.start { state with next := max state.next span.start }
  | none =>
    if state.next + 1 < Limit.offset then
      .ok state.next { state with next := state.next + 1 }
    else
      .error (.overflow .outOfRange) state

/-- The span of a part that opened at `start`. -/
def closeSpan (start : Nat) (given : Option Span) : Layout Span := fun state =>
  match given with
  | some span => .ok span { state with next := max state.next span.stop }
  | none =>
    let stop := max state.next (start + 1)
    if stop + 1 < Limit.offset then
      .ok ⟨start, stop⟩ { state with next := stop + 1 }
    else
      .error (.overflow .outOfRange) state

/-- Takes the next statement index, to be filled once the parts are laid out. -/
def reserveStatement (parent : StatementRef) : Layout StatementId := fun state =>
  .ok state.tree.nextStatement
    { state with tree := state.tree.addStatement ⟨.empty, Span.dummy, parent⟩ }

/-- Fills a reserved statement. -/
def fillStatement (id : StatementId) (content : StatementContent) (span : Span) : Layout Unit :=
  fun state =>
    let fill (node : StatementNode) : StatementNode :=
      { node with content := content, span := span }
    .ok () { state with tree := state.tree.modifyStatement (some id) fill }

/-- Takes the next expression index, to be filled once the parts are laid out. -/
def reserveExpression (statement : StatementId) (parent : ExpressionRef) : Layout ExpressionId :=
  fun state =>
    .ok state.tree.nextExpression
      { state with
        tree := state.tree.addExpression ⟨.literal "", Span.dummy, some statement, parent⟩ }

/-- Fills a reserved expression. -/
def fillExpression (id : ExpressionId) (content : ExpressionContent) (span : Span) :
    Layout Unit :=
  fun state =>
    let fill (node : ExpressionNode) : ExpressionNode :=
      { node with content := content, span := span }
    .ok () { state with tree := state.tree.modifyExpression (some id) fill }

/-- Refuses a statement enclosed by as many statements as the limit. -/
def checkStatementDepth (depth : Nat) : Layout Unit := fun state =>
  if depth < Limit.statementNesting then
    .ok () state
  else
    .error (.refused (.statementsTooDeep state.tree.name Limit.statementNesting)) state

/-- Refuses an expression or pattern enclosed by as many of them as the limit. -/
def checkExpressionDepth (depth : Nat) : Layout Unit := fun state =>
  if depth < Limit.expressionNesting then
    .ok () state
  else
    .error (.refused (.expressionsTooDeep state.tree.name Limit.expressionNesting)) state

/-- A bound name with its span. -/
def binding (ident : Ident) : Layout Binding := do
  let start ← openSpan ident.span
  return ⟨ident.name, ← closeSpan start ident.span⟩

/-- The bound name that a pattern may have. -/
def optionalBinding : Option Ident → Layout (Option Binding)
  | none => return none
  | some ident => return some (← binding ident)

/-! ## Expressions -/

mutual

/-- Lays out an expression that `depth` expressions and patterns enclose. -/
def expression (statement : StatementId) (depth : Nat) (parent : ExpressionRef) :
    Expression → Layout ExpressionId
  | .mk given form => do
    checkExpressionDepth depth
    let start ← openSpan given
    let id ← reserveExpression statement parent
    let content ← expressionForm statement (depth + 1) id form
    let span ← closeSpan start given
    fillExpression id content span
    return id

/-- Lays out the parts of the expression at `id`. -/
def expressionForm (statement : StatementId) (depth : Nat) (id : ExpressionId) :
    ExpressionForm → Layout ExpressionContent
  | .name name => return .name name
  | .literal value => return .literal value
  | .unary operator operand => do
    let operand ← expression statement depth (some id) operand
    return .unary operator (some operand)
  | .binary operator left right => do
    let left ← expression statement depth (some id) left
    let right ← expression statement depth (some id) right
    return .binary operator (some left) (some right)
  | .choice condition whenTrue whenFalse => do
    let condition ← expression statement depth (some id) condition
    let whenTrue ← expression statement depth (some id) whenTrue
    let whenFalse ← expression statement depth (some id) whenFalse
    return .choice (some condition) (some whenTrue) (some whenFalse)
  | .paren inner => do
    let inner ← expression statement depth (some id) inner
    return .paren (some inner)
  | .call callee arguments => do
    let callee ← expression statement depth (some id) callee
    let arguments ← expressions statement depth (some id) arguments
    return .call (some callee) arguments
  | .member target member => do
    let target ← expression statement depth (some id) target
    return .member (some target) member
  | .assign target value => do
    let target ← expression statement depth (some id) target
    let value ← expression statement depth (some id) value
    return .assign (some target) (some value)
  | .test operand pattern => do
    let operand ← expression statement depth (some id) operand
    let pattern ← Layout.pattern statement depth (some id) pattern
    return .test (some operand) pattern
  | .outVariable type name => do
    let name ← binding name
    return .outVariable type name
  | .out name => return .out name

/-- Lays out expressions one after the other. -/
def expressions (statement : StatementId) (depth : Nat) (parent : ExpressionRef) :
    List Expression → Layout (List ExpressionRef)
  | [] => return []
  | first :: rest => do
    let first ← expression statement depth parent first
    let rest ← expressions statement depth parent rest
    return some first :: rest

/-- Lays out a pattern that `depth` expressions and patterns enclose; its constants become parts of
the expression `parent`. -/
def pattern (statement : StatementId) (depth : Nat) (parent : ExpressionRef) :
    Pattern → Layout PatternNode
  | .type type => do
    checkExpressionDepth depth
    return .type type
  | .declaration type name => do
    checkExpressionDepth depth
    let name ← binding name
    return .declaration type name
  | .anyValue name => do
    checkExpressionDepth depth
    let name ← binding name
    return .anyValue name
  | .constant value => do
    checkExpressionDepth depth
    let value ← expression statement (depth + 1) parent value
    return .constant (some value)
  | .discard => do
    checkExpressionDepth depth
    return .discard
  | .recursive type subpatterns name => do
    checkExpressionDepth depth
    let subpatterns ← patterns statement (depth + 1) parent subpatterns
    let name ← optionalBinding name
    return .recursive type subpatterns name
  | .negated inner => do
    checkExpressionDepth depth
    let inner ← pattern statement (depth + 1) parent inner
    return .negated inner

/-- Lays out patterns one after the other. -/
def patterns (statement : StatementId) (depth : Nat) (parent : ExpressionRef) :
    List Pattern → Layout (List PatternNode)
  | [] => return []
  | first :: rest => do
    let first ← pattern statement depth parent first
    let rest ← patterns statement depth parent rest
    return first :: rest

end

/-! ## Statements -/

/-- Lays out an expression in the header of a statement. -/
def header (statement : StatementId) (value : Expression) : Layout ExpressionRef :=
  return some (← expression statement 0 none value)

/-- Lays out an expression that a header may lack. -/
def optionalHeader (statement : StatementId) : Option Expression → Layout ExpressionRef
  | none => return none
  | some value => header statement value

/-- Lays out a declarator: its name, then its initial value. -/
def declarator (statement : StatementId) (value : Declarator) : Layout DeclaratorNode := do
  let name ← binding value.name
  return ⟨name, ← optionalHeader statement value.initializer⟩

/-- Lays out a label: its pattern, then its guard. -/
def label (statement : StatementId) (value : Label) : Layout LabelNode := do
  let start ← openSpan none
  let (pattern, guard) ←
    match value with
    | .matching pattern guard => do
      let pattern ← Layout.pattern statement 0 none pattern
      let guard ← optionalHeader statement guard
      pure (some pattern, guard)
    | .otherwise => pure (none, none)
  return ⟨pattern, guard, ← closeSpan start none⟩

mutual

/-- Lays out a statement that `depth` statements enclose. -/
def statement (depth : Nat) (parent : StatementRef) : Statement → Layout StatementId
  | .mk given form => do
    checkStatementDepth depth
    let start ← openSpan given
    let id ← reserveStatement parent
    let content ← statementForm (depth + 1) id form
    let span ← closeSpan start given
    fillStatement id content span
    return id

/-- Lays out the parts of the statement at `id`, in the order in which they run. -/
def statementForm (depth : Nat) (id : StatementId) : StatementForm → Layout StatementContent
  | .block members => do
    let members ← statements depth (some id) members
    return .block members
  | .branch condition thenBody none => do
    let condition ← header id condition
    let thenBody ← statement depth (some id) thenBody
    return .branch condition (some thenBody) none
  | .branch condition thenBody (some elseBody) => do
    let condition ← header id condition
    let thenBody ← statement depth (some id) thenBody
    let elseBody ← statement depth (some id) elseBody
    return .branch condition (some thenBody) (some elseBody)
  | .whileLoop condition body => do
    let condition ← header id condition
    let body ← statement depth (some id) body
    return .whileLoop condition (some body)
  | .doLoop body condition => do
    let body ← statement depth (some id) body
    let condition ← header id condition
    return .doLoop (some body) condition
  | .forLoop declarators initializers condition incrementors body => do
    let declarators ← declarators.mapM (declarator id)
    let initializers ← initializers.mapM (header id)
    let condition ← optionalHeader id condition
    let incrementors ← incrementors.mapM (header id)
    let body ← statement depth (some id) body
    return .forLoop declarators initializers condition incrementors (some body)
  | .forEachLoop element collection body => do
    let element ← binding element
    let collection ← header id collection
    let body ← statement depth (some id) body
    return .forEachLoop element collection (some body)
  | .resource declarators held body => do
    let declarators ← declarators.mapM (declarator id)
    let held ← optionalHeader id held
    let body ← statement depth (some id) body
    return .resource declarators held (some body)
  | .switch subject parts => do
    let subject ← header id subject
    let parts ← sections depth (some id) parts
    return .switch subject parts
  | .localDeclaration declarators => do
    let declarators ← declarators.mapM (declarator id)
    return .localDeclaration declarators
  | .evaluation value => do
    let value ← header id value
    return .evaluation value
  | .returning value => do
    let value ← optionalHeader id value
    return .returning value
  | .throwing value => do
    let value ← optionalHeader id value
    return .throwing value
  | .breaking => return .breaking
  | .continuing => return .continuing
  | .labeled name body => do
    let body ← statement depth (some id) body
    return .labeled name (some body)
  | .empty => return .empty

/-- Lays out statements one after the other. -/
def statements (depth : Nat) (parent : StatementRef) :
    List Statement → Layout (List StatementRef)
  | [] => return []
  | first :: rest => do
    let first ← statement depth parent first
    let rest ← statements depth parent rest
    return some first :: rest

/-- Lays out a section; it does not count as a statement around its members. -/
def switchSection (depth : Nat) (parent : StatementRef) : Section → Layout StatementId
  | .mk given labels members => do
    let start ← openSpan given
    let id ← reserveStatement parent
    let labels ← labels.mapM (label id)
    let members ← statements depth (some id) members
    let span ← closeSpan start given
    fillStatement id (.switchSection labels members) span
    return id

/-- Lays out sections one after the other. -/
def sections (depth : Nat) (parent : StatementRef) : List Section → Layout (List StatementRef)
  | [] => return []
  | first :: rest => do
    let first ← switchSection depth parent first
    let rest ← sections depth parent rest
    return some first :: rest

end

/-- Lays out the parameters of a procedure, then its body. -/
def procedure (value : Procedure) : Layout Unit := do
  let parameters ← value.parameters.mapM binding
  let root ← statement 0 none value.body
  modify fun state =>
    { state with tree := { state.tree with parameters := parameters, root := some root } }

end Layout

/-- The statement tree of a procedure. -/
def StatementTree.ofProcedure (procedure : Procedure) : Except LayoutError StatementTree :=
  match Layout.procedure procedure ⟨.empty procedure.name, 0⟩ with
  | .ok () state => .ok state.tree
  | .error error _ => .error error

end LexicalScope
