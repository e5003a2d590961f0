import LexicalScope.Files.Memory
import LexicalScope.Main
import LexicalScope.Options.LogFormat
import LexicalScope.Procedure.Build
import LexicalScope.Proofs.Appending.Extension
import LexicalScope.Proofs.Layout.Overflow
import LexicalScope.Proofs.Layout.Parts
import LexicalScope.Proofs.Pass.Exclusion
import LexicalScope.Proofs.Rewording.Renaming
import LexicalScope.Proofs.Scope.Bleed
import LexicalScope.Proofs.Scope.Boundaries
import LexicalScope.Proofs.Scope.Deepening
import LexicalScope.Proofs.Scope.Deepest
import LexicalScope.Proofs.Scope.DepthError
import LexicalScope.Proofs.Scope.Endless
import LexicalScope.Proofs.Scope.Leaving
import LexicalScope.Proofs.Scope.Lookup
import LexicalScope.Proofs.Scope.LowestRegion
import LexicalScope.Proofs.Scope.Numbering
import LexicalScope.Proofs.Scope.Order
import LexicalScope.Proofs.Scope.Outline
import LexicalScope.Proofs.Scope.References
import LexicalScope.Proofs.Scope.Surroundings
import LexicalScope.Proofs.Scope.Symmetry
import LexicalScope.Proofs.Scope.Unambiguous
import LexicalScope.Proofs.Scope.Visible
import LexicalScope.Proofs.Scope.Wording
import LexicalScope.Proofs.StatementTree.BackReferences
import LexicalScope.Proofs.Trace.Labels
import LexicalScope.StatementTree.Reading
