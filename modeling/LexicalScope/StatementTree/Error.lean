import LexicalScope.Limit
import LexicalScope.StatementTree.Index

/-!
# Faults of statement trees
-/

namespace LexicalScope

/-- What is wrong with a statement tree, or with a procedure that was to become one. -/
inductive TreeError where
  /-- No statement is at the root reference. -/
  | missingRoot (procedure : String)
  /-- A statement lists a child that does not exist. -/
  | danglingStatement (parent child : StatementRef)
  /-- The header of a statement leads to an expression that does not exist. -/
  | danglingExpression (statement : StatementRef) (expression : ExpressionRef)
  /-- A listed child names another parent. -/
  | parentMismatch (child expected found : StatementRef)
  /-- An expression names another owner than the statement whose header leads to it. -/
  | ownerMismatch (expression : ExpressionRef) (expected found : StatementRef)
  /-- A switch lists a statement that is no section. -/
  | misplacedSection (switch child : StatementRef)
  /-- Too many statements enclose a statement. -/
  | statementsTooDeep (procedure : String) (limit : Nat)
  /-- Too many expressions and patterns enclose an expression or pattern. -/
  | expressionsTooDeep (procedure : String) (limit : Nat)
deriving DecidableEq, Repr

namespace TreeError

/-- The name of a fault in a document. -/
def name : TreeError → String
  | missingRoot _ => "MissingRoot"
  | danglingStatement _ _ => "DanglingStatement"
  | danglingExpression _ _ => "DanglingExpression"
  | parentMismatch _ _ _ => "ParentMismatch"
  | ownerMismatch _ _ _ => "ExpressionOwnerMismatch"
  | misplacedSection _ _ => "MisplacedSection"
  | statementsTooDeep _ _ => "StatementsTooDeep"
  | expressionsTooDeep _ _ => "ExpressionsTooDeep"

/-- The wording of a fault. -/
def message : TreeError → String
  | missingRoot procedure => "procedure `" ++ procedure ++ "` has no root statement"
  | danglingStatement parent child =>
    "statement " ++ StatementRef.text parent ++ " refers to missing statement " ++
      StatementRef.text child
  | danglingExpression statement expression =>
    "statement " ++ StatementRef.text statement ++ " refers to missing expression " ++
      ExpressionRef.text expression
  | parentMismatch child expected found =>
    "statement " ++ StatementRef.text child ++ " lists parent " ++ StatementRef.text found ++
      " but is owned by " ++ StatementRef.text expected
  | ownerMismatch expression expected found =>
    "expression " ++ ExpressionRef.text expression ++ " lists owning statement " ++
      StatementRef.text found ++ " but is owned by " ++ StatementRef.text expected
  | misplacedSection switch child =>
    "switch " ++ StatementRef.text switch ++ " contains non-section statement " ++
      StatementRef.text child
  | statementsTooDeep procedure limit =>
    "statements in `" ++ procedure ++ "` are nested more than " ++ toString limit ++
      " levels deep"
  | expressionsTooDeep procedure limit =>
    "expressions in `" ++ procedure ++ "` are nested more than " ++ toString limit ++
      " levels deep"

end TreeError

end LexicalScope
