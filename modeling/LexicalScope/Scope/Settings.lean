import LexicalScope.Limit

/-!
# Settings of the scope analysis
-/

namespace LexicalScope

/-- What the analysis checks, and how deep a procedure may nest. -/
structure ScopeSettings where
  /-- The number of unbraced bodies from which on a declaration is warned about, none to warn about
  no declaration. -/
  bleedThreshold : Option Nat
  /-- Whether references that find no declaration are reported. -/
  checksReferences : Bool
  /-- Names that references find without a declaration. -/
  globals : List String
  /-- The greatest number of statements around a statement. -/
  nestingLimit : Nat
deriving DecidableEq, Repr

/-- No optional check, no globals, the usual nesting limit. -/
def ScopeSettings.default : ScopeSettings := ⟨none, false, [], Limit.statementNesting⟩

instance : Inhabited ScopeSettings := ⟨.default⟩

end LexicalScope
