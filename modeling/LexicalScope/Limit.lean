/-!
# Limits

Bounds that keep hostile input from exhausting the analysis, and the ranges of numbers.
-/

namespace LexicalScope.Limit

/-- Statements enclosing a statement when a procedure is laid out; one more is refused. -/
def statementNesting : Nat := 1000

/-- Expressions and patterns enclosing an expression or pattern; one more is refused. -/
def expressionNesting : Nat := 2000

/-- Steps taken when walking from a region towards the root of its region tree. -/
def regionWalk : Nat := 10000

/-- Steps taken when walking from a statement towards the root of its statement tree. -/
def statementWalk : Nat := 10000

/-- The first number that is no text offset: offsets are thirty-two bits wide. -/
def offset : Nat := 4294967296

/-- The first number that does not fit into sixty-four bits. -/
def wideNumber : Nat := 18446744073709551616

end LexicalScope.Limit
