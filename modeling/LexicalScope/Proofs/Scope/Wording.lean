import LexicalScope.Procedure.Build
import LexicalScope.Proofs.Text.Substitution
import LexicalScope.Scope.Analysis

/-!
# The wording of findings

A finding says its name in a message of the catalogue. Most messages have places for the name only,
and these show it just as it is written. The message about a declaration that is visible far outside
its body has a place for a number behind it, and takes the placeholder of that place inside a name
for another such place.
-/

namespace LexicalScope

namespace Message

theorem find?_code {message : Message} (member : message ∈ all) :
    find? message.code = some message := by
  have known : ∀ message ∈ all, find? message.code = some message := by decide
  exact known message member

private theorem template_nestedBleed : nestedBleed.template =
    String.ofList ("Variable '".toList ++ (Text.placeholder 0 ++
      ('\x27' :: " is scoped to a region ".toList ++ (Text.placeholder 1 ++
        " unbraced nested statements above its declaration.".toList)))) := by
  decide

end Message

namespace Finding

/-- The name of a finding has the placeholder of a number that the message shows behind it. -/
def HoldsPlaceholder : Finding → Prop
  | nestedBleed name _ _ _ => Text.placeholder 1 <:+: name.toList
  | _ => False

theorem message_mem_all (finding : Finding) : finding.message ∈ Message.all := by
  cases finding with
  | conflict _ _ _ _ _ reason =>
      cases reason <;> simp [message, ConflictReason.message, Message.all]
  | unresolved => simp [message, Message.all]
  | nestedBleed => simp [message, Message.all]

private theorem text_nestedBleed_iff (name : String) (declaration : DeclarationId) (span : Span)
    (depth : Nat) :
    (nestedBleed name declaration span depth).text =
        Text.substitute Message.nestedBleed.template [name, toString depth] ↔
      ¬ Text.placeholder 1 <:+: name.toList := by
  have inFront : '{' ∉ "Variable '".toList := by decide
  have inMiddle : '{' ∉ '\x27' :: " is scoped to a region ".toList := by decide
  have inBehind : '{' ∉ " unbraced nested statements above its declaration.".toList := by decide
  have apart : '\x27' ∉ Text.placeholder 1 := by decide
  obtain ⟨digit, digits, isDepth⟩ : ∃ digit digits, Nat.toDigits 10 depth = digit :: digits :=
    List.exists_cons_of_ne_nil Nat.toDigits_ne_nil
  have member : digit ∈ Nat.toDigits 10 depth := isDepth ▸ List.mem_cons_self
  have isDigit : digit.isDigit = true := Text.isDigit_of_mem_toDigits member
  have noBrace : digit ≠ '{' := by
    rintro rfl
    exact absurd isDigit (by decide)
  have shown : (toString depth).toList = digit :: digits := by
    rw [Nat.toString_eq_repr, Nat.toList_repr, isDepth]
  rw [text, message, arguments, Message.template_nestedBleed,
    Text.fill_pair name (toString depth) inFront inMiddle inBehind apart,
    Text.substitute_pair name (toString depth) inFront inMiddle inBehind, String.ofList_inj,
    List.append_cancel_left_eq, List.append_cancel_right_eq, shown,
    Text.replaceAll_eq_self_iff noBrace]

/-- The only text that differs from its message with everything put in at once is that of a finding
whose name has the placeholder of the number behind it. -/
theorem text_eq_substitute_iff (finding : Finding) :
    finding.text = Text.substitute finding.message.template finding.arguments ↔
      ¬ finding.HoldsPlaceholder := by
  cases finding with
  | conflict => exact iff_of_true (Text.fill_eq_substitute (Text.unmixed_singleton _ _)) not_false
  | unresolved => exact iff_of_true (Text.fill_eq_substitute (Text.unmixed_singleton _ _)) not_false
  | nestedBleed name declaration span depth =>
      exact text_nestedBleed_iff name declaration span depth

private theorem text_toDiagnostic (finding : Finding) (file : String) :
    (finding.toDiagnostic file).text = finding.text := by
  have known := Message.find?_code finding.message_mem_all
  have text : (Diagnostic.ofCode file finding.span.start finding.span.length finding.message.code
      finding.arguments).text = finding.text := by
    rw [Diagnostic.ofCode, known]
    rfl
  cases finding <;> exact text

private theorem related_toDiagnostic (finding : Finding) (file : String) :
    ∀ related ∈ (finding.toDiagnostic file).related,
      related.text = Text.substitute Message.alsoDeclared.template [finding.name] := by
  have known := Message.find?_code finding.message_mem_all
  have nothing : (Diagnostic.ofCode file finding.span.start finding.span.length
      finding.message.code finding.arguments).related = [] := by
    rw [Diagnostic.ofCode, known]
  intro related member
  cases finding with
  | conflict name _ _ _ _ _ =>
      rw [toDiagnostic, Diagnostic.addRelated, nothing, List.nil_append,
        List.mem_singleton] at member
      rw [member]
      exact Text.fill_eq_substitute (Text.unmixed_singleton _ _)
  | unresolved => exact absurd (nothing ▸ member) List.not_mem_nil
  | nestedBleed => exact absurd (nothing ▸ member) List.not_mem_nil

/-- Filling a template is putting in all arguments at once as long as none of them, with what stands
around it, makes up the placeholder of a later one, for which it is enough that there are no further
opening braces. Among the findings only those fail this whose name has the placeholder of the number
behind it; every other message, and every mention of the other declaration, shows the name as it is
written. -/
theorem wording_exact (template : String) (arguments : List String) (finding : Finding)
    (file : String) :
    (Text.Unmixed template arguments →
      Text.fill template arguments = Text.substitute template arguments) ∧
    ((∀ argument ∈ arguments.dropLast, '{' ∉ argument.toList) →
      .char '{' ∉ Text.cut arguments.length template.toList → Text.Unmixed template arguments) ∧
    (finding.toDiagnostic file).text = finding.text ∧
    (finding.text = Text.substitute finding.message.template finding.arguments ↔
      ¬ finding.HoldsPlaceholder) ∧
    ∀ related ∈ (finding.toDiagnostic file).related,
      related.text = Text.substitute Message.alsoDeclared.template [finding.name] :=
  ⟨Text.fill_eq_substitute, Text.unmixed_of_openingBrace_notMem, finding.text_toDiagnostic file,
    finding.text_eq_substitute_iff, finding.related_toDiagnostic file⟩

/-- The message about a name of braces without a number shows the name. -/
theorem wording_exact_braces :
    ¬ (nestedBleed "\x7bx\x7d" ⟨0⟩ .dummy 3).HoldsPlaceholder ∧
      (nestedBleed "\x7bx\x7d" ⟨0⟩ .dummy 3).text = "Variable '\x7bx\x7d' is scoped to a region " ++
        "3 unbraced nested statements above its declaration." ∧
      Text.Unmixed "\x7b1\x7d of \x7b0\x7d" ["\x7bx\x7d", "\x7b0\x7d"] ∧
      Text.fill "\x7b1\x7d of \x7b0\x7d" ["\x7bx\x7d", "\x7b0\x7d"] = "\x7b0\x7d of \x7bx\x7d" := by
  have without : ¬ (nestedBleed "\x7bx\x7d" ⟨0⟩ .dummy 3).HoldsPlaceholder := by
    unfold HoldsPlaceholder
    decide
  have unmixed : Text.Unmixed "\x7b1\x7d of \x7b0\x7d" ["\x7bx\x7d", "\x7b0\x7d"] := by
    decide +kernel
  obtain ⟨fills, _, _, worded, _⟩ := wording_exact "\x7b1\x7d of \x7b0\x7d"
    ["\x7bx\x7d", "\x7b0\x7d"] (nestedBleed "\x7bx\x7d" ⟨0⟩ .dummy 3) "in.json"
  exact ⟨without, (worded.mpr without).trans (by decide +kernel), unmixed,
    (fills unmixed).trans (by decide +kernel)⟩

end Finding

/-- A procedure with a test, below three unbraced conditionals, that declares a name which reads as
a placeholder. -/
def Procedure.naming : Procedure :=
  .plain "p" ["a"] (.ifThen (.name "a") (.ifThen (.name "a")
    (.ifThen (.testAs (.name "a") "int" "\x7b1\x7d") (.block []))))

/-- A message shows a number in the place of a name. -/
theorem ScopeAnalysis.exists_misworded :
    ∃ tree analysis finding,
      ofProcedure { ScopeSettings.default with bleedThreshold := some 2 } .naming =
        .ok (tree, analysis) ∧
      finding ∈ analysis.findings ∧ finding.name = "\x7b1\x7d" ∧
      finding.text = "Variable '2' is scoped to a region 2 unbraced nested statements above " ++
        "its declaration." ∧
      Text.substitute finding.message.template finding.arguments =
        "Variable '\x7b1\x7d' is scoped to a region 2 unbraced nested statements above " ++
          "its declaration." := by
  have computed : (match ofProcedure { ScopeSettings.default with bleedThreshold := some 2 }
        .naming with
      | .error _ => false
      | .ok (_, analysis) => decide (∃ finding ∈ analysis.findings, finding.name = "\x7b1\x7d" ∧
          finding.text = "Variable '2' is scoped to a region 2 unbraced nested statements above " ++
            "its declaration." ∧
          Text.substitute finding.message.template finding.arguments =
            "Variable '\x7b1\x7d' is scoped to a region 2 unbraced nested statements above " ++
              "its declaration.")) = true := by
    decide +kernel
  split at computed
  next => cases computed
  next tree analysis analyzed =>
    obtain ⟨finding, member, worded⟩ := of_decide_eq_true computed
    exact ⟨tree, analysis, finding, analyzed, member, worded⟩

end LexicalScope
