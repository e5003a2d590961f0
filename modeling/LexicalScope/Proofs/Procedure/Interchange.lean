import LexicalScope.Procedure.Decoding
import LexicalScope.Procedure.Encoding
import LexicalScope.Proofs.Json.Fields
import LexicalScope.Proofs.Procedure.Placement

/-!
# Procedures written and read back

What is written for a procedure is read back as the procedure, if its stated spans lie within the
range of offsets. The text has to nest no deeper than the reader goes.
-/

namespace LexicalScope

open Json Members

/-- Both ends of a span are offsets. -/
def Span.InRange (span : Span) : Prop :=
  span.start < Limit.offset ∧ span.stop < Limit.offset

instance (span : Span) : Decidable span.InRange :=
  inferInstanceAs (Decidable (_ ∧ _))

private theorem Span.decodes {span : Span} (range : span.InRange) :
    Decodes Span.ofJson? span.toJson span where
  fit := ⟨Nat.lt_trans range.1 (by decide), Nat.lt_trans range.2 (by decide), trivial⟩
  notNull := object_ne_null _
  read := by
    have distinct : ["start", "end"].Nodup := by decide
    have fields : Members.record? [("start", .natural span.start), ("end", .natural span.stop)]
        ["start", "end"] = some _ := record?_of_sublist distinct (List.Sublist.refl _) _
    simp [Span.toJson, Span.ofJson?, Json.record?, fields, Members.required, word?, range.1,
      range.2]

theorem Span.decodes_option {span : Option Span} (ranges : ∀ stated ∈ span.toList, stated.InRange) :
    ∀ stated ∈ span, Decodes Span.ofJson? stated.toJson stated :=
  fun stated isStated => Span.decodes (ranges stated (Option.mem_toList.mpr isStated))

theorem Ident.decodes {ident : Ident} (ranges : ∀ span ∈ ident.stated, span.InRange) :
    Decodes Ident.ofJson? ident.toJson ident where
  fit := ⟨trivial, numbersFit_member? "span" (Span.decodes_option ranges)⟩
  notNull := object_ne_null _
  read := by
    have distinct : ["name", "span"].Nodup := by decide
    have names : ((("name", Json.string ident.name) :: Span.member ident.span).map (·.1)).Sublist
        ["name", "span"] := (names_member? "span" (ident.span.map Span.toJson)).cons_cons "name"
    have fields : Members.record? (("name", .string ident.name) :: Span.member ident.span)
        ["name", "span"] = some _ := record?_of_sublist distinct names _
    simp [Ident.toJson, Ident.ofJson?, fields, Members.required, text?, optional_eq,
      readOptional_map (Span.decodes_option ranges)]

private theorem Ident.decodes_option {ident : Option Ident}
    (ranges : ∀ span ∈ ident.toList.flatMap Ident.stated, span.InRange) :
    ∀ present ∈ ident, Decodes Ident.ofJson? present.toJson present :=
  fun present isPresent => Ident.decodes fun span stated =>
    ranges span (List.mem_flatMap.mpr ⟨present, Option.mem_toList.mpr isPresent, stated⟩)

private theorem Ident.decodes_list {idents : List Ident}
    (ranges : ∀ span ∈ idents.flatMap Ident.stated, span.InRange) :
    ∀ ident ∈ idents, Decodes Ident.ofJson? ident.toJson ident :=
  fun ident member => Ident.decodes fun span stated =>
    ranges span (List.mem_flatMap.mpr ⟨ident, member, stated⟩)

theorem text?_decodes (text : Option String) :
    ∀ present ∈ text, Decodes text? (.string present) present :=
  fun _ _ => ⟨trivial, nofun, rfl⟩

/-! ## Parts -/

section Parts

variable {α : Type} {read : Nat → Json → Option α} {stated : α → List Span} {encode : α → Json}
  {depth : Nat}

/-- A part is decoded from its value with any fuel that covers the nesting of the value, if the
spans that it states lie in range. -/
def IsDecoded (read : Nat → Json → Option α) (stated : List Span) (json : Json) (value : α) :
    Prop :=
  ∀ depth, (∀ span ∈ stated, span.InRange) → json.nesting ≤ depth →
    Decodes (read depth) json value

private theorem IsDecoded.option {value : Option α}
    (done : ∀ present ∈ value, IsDecoded read (stated present) (encode present) present)
    (ranges : ∀ span ∈ value.toList.flatMap stated, span.InRange)
    (bounds : ∀ present ∈ value, (encode present).nesting ≤ depth) :
    ∀ present ∈ value, Decodes (read depth) (encode present) present := by
  intro present isPresent
  refine done present isPresent depth (fun span isStated => ranges span ?_)
    (bounds present isPresent)
  exact List.mem_flatMap.mpr ⟨present, Option.mem_toList.mpr isPresent, isStated⟩

theorem IsDecoded.list {values : List α}
    (done : ∀ value ∈ values, IsDecoded read (stated value) (encode value) value)
    (ranges : ∀ span ∈ values.flatMap stated, span.InRange)
    (bounds : ∀ value ∈ values, (encode value).nesting ≤ depth) :
    ∀ value ∈ values, Decodes (read depth) (encode value) value := by
  intro value member
  refine done value member depth (fun span isStated => ranges span ?_) (bounds value member)
  exact List.mem_flatMap.mpr ⟨value, member, isStated⟩

end Parts

/-! ## Forms -/

section Forms

variable {κ : Type} {all : List κ} {name : κ → String} {fields : κ → List String} {tag : κ}
  {span : Option Span} {parts : Members}

private theorem names_formObject (names : (parts.map (·.1)).Sublist (fields tag)) (kind : String) :
    ((Span.member span ++ ("kind", .string kind) :: parts).map (·.1)).Sublist
      ("span" :: "kind" :: fields tag) := by
  rw [List.map_append]
  exact (names_member? "span" (span.map Span.toJson)).append (names.cons_cons "kind")

theorem spanned?_formObject (found : kind? all name (.string (name tag)) = some tag)
    (distinct : ("span" :: "kind" :: fields tag).Nodup)
    (names : (parts.map (·.1)).Sublist (fields tag))
    (ranges : ∀ stated ∈ span.toList, stated.InRange) :
    spanned? all name fields (formObject span (name tag) parts) =
      some (span, tag, Span.member span ++ ("kind", .string (name tag)) :: parts) := by
  have listed : ((Span.member span ++ ("kind", .string (name tag)) :: parts).map (·.1)).Sublist
      ("span" :: "kind" :: fields tag) := names_formObject names (name tag)
  have record := record?_of_sublist distinct listed
  have notSpan : Members.find parts "span" = none :=
    find_eq_none fun member => (List.nodup_cons.mp distinct).1
      (List.mem_cons_of_mem "kind" (names.subset member))
  simp [spanned?, formObject, members?, record, optional_eq, Members.required, found,
    readOptional_map (Span.decodes_option ranges), notSpan]

theorem tagged?_tagObject (found : kind? all name (.string (name tag)) = some tag)
    (distinct : ("kind" :: fields tag).Nodup) (names : (parts.map (·.1)).Sublist (fields tag)) :
    tagged? all name fields (tagObject (name tag) parts) =
      some (tag, ("kind", .string (name tag)) :: parts) := by
  have listed : ((("kind", Json.string (name tag)) :: parts).map (·.1)).Sublist
      ("kind" :: fields tag) := names.cons_cons "kind"
  have record := record?_of_sublist distinct listed
  simp [tagged?, tagObject, record, Members.required, found]

theorem numbersFit_formObject (ranges : ∀ stated ∈ span.toList, stated.InRange) {kind : String}
    (fit : NumbersFitInMembers parts) : (formObject span kind parts).NumbersFit :=
  numbersFit_append.mpr ⟨numbersFit_member? "span" (Span.decodes_option ranges), trivial, fit⟩

theorem nesting_formObject {kind : String} {depth : Nat}
    (bound : (formObject span kind parts).nesting ≤ depth) :
    ∃ below, depth = below + 1 ∧ nestingOfMembers parts ≤ below := by
  simp only [formObject, nesting, nesting_append, nestingOfMembers] at bound
  exact ⟨depth - 1, by omega, by omega⟩

theorem nesting_tagObject {kind : String} {depth : Nat}
    (bound : (tagObject kind parts).nesting ≤ depth) :
    ∃ below, depth = below + 1 ∧ nestingOfMembers parts ≤ below := by
  simp only [tagObject, nesting, nestingOfMembers] at bound
  exact ⟨depth - 1, by omega, by omega⟩

end Forms

/-! ## Expressions and patterns -/

private theorem Expression.listToJson_eq_map (values : List Expression) :
    Expression.listToJson values = values.map Expression.toJson := by
  induction values with
  | nil => rfl
  | cons first rest induction => rw [Expression.listToJson, induction, List.map_cons]

private theorem Pattern.listToJson_eq_map (patterns : List Pattern) :
    Pattern.listToJson patterns = patterns.map Pattern.toJson := by
  induction patterns with
  | nil => rfl
  | cons first rest induction => rw [Pattern.listToJson, induction, List.map_cons]

private theorem Expression.statedInAll_eq_flatMap (values : List Expression) :
    Expression.statedInAll values = values.flatMap Expression.stated := by
  induction values with
  | nil => rfl
  | cons first rest induction => rw [Expression.statedInAll, induction, List.flatMap_cons]

private theorem Pattern.statedInAll_eq_flatMap (patterns : List Pattern) :
    Pattern.statedInAll patterns = patterns.flatMap Pattern.stated := by
  induction patterns with
  | nil => rfl
  | cons first rest induction => rw [Pattern.statedInAll, induction, List.flatMap_cons]

def Expression.IsDecoded (value : Expression) : Prop :=
  LexicalScope.IsDecoded Expression.ofJson? value.stated value.toJson value

def Pattern.IsDecoded (pattern : Pattern) : Prop :=
  LexicalScope.IsDecoded Pattern.ofJson? pattern.stated pattern.toJson pattern

/-- A form is decoded if its parts are written as numbers that fit and read back as the form. -/
theorem Expression.isDecoded_of {span : Option Span} {form : ExpressionForm} {parts : Members}
    (tag : ExpressionTag)
    (written : (Expression.mk span form).toJson = formObject span tag.text parts)
    (names : (parts.map (·.1)).Sublist tag.fields)
    (done : ∀ depth, (∀ stated ∈ form.stated, stated.InRange) → nestingOfMembers parts ≤ depth →
      NumbersFitInMembers parts ∧
        ExpressionForm.ofParts? (Expression.ofJson? depth) (Pattern.ofJson? depth)
          (Span.member span ++ ("kind", .string tag.text) :: parts) tag = some form) :
    (Expression.mk span form).IsDecoded := by
  intro depth ranges bound
  rw [written] at bound ⊢
  obtain ⟨outer, inner⟩ := List.forall_mem_append.mp ranges
  obtain ⟨depth, rfl, below⟩ := nesting_formObject bound
  obtain ⟨fit, read⟩ := done depth inner below
  have found : kind? ExpressionTag.all ExpressionTag.text (.string tag.text) = some tag := by
    cases tag <;> rfl
  have distinct : ("span" :: "kind" :: tag.fields).Nodup := by cases tag <;> decide
  refine ⟨numbersFit_formObject outer fit, object_ne_null _, ?_⟩
  simp [Expression.ofJson?, spanned?_formObject found distinct names outer, read]

theorem Pattern.isDecoded_of {pattern : Pattern} {parts : Members} (tag : PatternTag)
    (written : pattern.toJson = tagObject tag.name parts)
    (names : (parts.map (·.1)).Sublist tag.fields)
    (done : ∀ depth, (∀ stated ∈ pattern.stated, stated.InRange) →
      nestingOfMembers parts ≤ depth → NumbersFitInMembers parts ∧
        Pattern.ofParts? (Expression.ofJson? depth) (Pattern.ofJson? depth)
          (("kind", .string tag.name) :: parts) tag = some pattern) : pattern.IsDecoded := by
  intro depth ranges bound
  rw [written] at bound ⊢
  obtain ⟨depth, rfl, below⟩ := nesting_tagObject bound
  obtain ⟨fit, read⟩ := done depth ranges below
  have found : kind? PatternTag.all PatternTag.name (.string tag.name) = some tag := by
    cases tag <;> rfl
  have distinct : ("kind" :: tag.fields).Nodup := by cases tag <;> decide
  refine ⟨⟨trivial, fit⟩, object_ne_null _, ?_⟩
  simp [Pattern.ofJson?, tagged?_tagObject found distinct names, read]

private theorem ExpressionForm.isDecoded_choice {span : Option Span}
    {condition whenTrue whenFalse : Expression} (conditionPart : condition.IsDecoded)
    (truePart : whenTrue.IsDecoded) (falsePart : whenFalse.IsDecoded) :
    (Expression.mk span (.choice condition whenTrue whenFalse)).IsDecoded := by
  refine Expression.isDecoded_of .choice rfl (List.Sublist.refl _) fun depth ranges below => ?_
  simp only [nestingOfMembers, Nat.max_le] at below
  obtain ⟨ranges, falseRanges⟩ := List.forall_mem_append.mp ranges
  obtain ⟨conditionRanges, trueRanges⟩ := List.forall_mem_append.mp ranges
  have conditionDone := conditionPart depth conditionRanges below.1
  have trueDone := truePart depth trueRanges below.2.1
  have falseDone := falsePart depth falseRanges below.2.2.1
  refine ⟨⟨conditionDone.fit, trueDone.fit, falseDone.fit, trivial⟩, ?_⟩
  simp [ExpressionForm.ofParts?, Members.required, conditionDone.read, trueDone.read,
    falseDone.read]

private theorem ExpressionForm.isDecoded_call {span : Option Span} {callee : Expression}
    {arguments : List Expression} (calleePart : callee.IsDecoded)
    (argumentParts : ∀ argument ∈ arguments, argument.IsDecoded) :
    (Expression.mk span (.call callee arguments)).IsDecoded := by
  refine Expression.isDecoded_of .call rfl (List.Sublist.refl _) fun depth ranges below => ?_
  simp only [nestingOfMembers, nesting, Expression.listToJson_eq_map, Nat.max_le] at below
  obtain ⟨calleeRanges, argumentRanges⟩ := List.forall_mem_append.mp ranges
  rw [Expression.statedInAll_eq_flatMap] at argumentRanges
  have calleeDone := calleePart depth calleeRanges below.1
  have argumentsDone := IsDecoded.list argumentParts argumentRanges
    (nesting_map.mp (Nat.le_of_succ_le below.2.1))
  have argumentsFit := numbersFit_map argumentsDone
  rw [← Expression.listToJson_eq_map] at argumentsFit
  refine ⟨⟨calleeDone.fit, argumentsFit, trivial⟩, ?_⟩
  simp [ExpressionForm.ofParts?, Members.required, listOrEmpty_eq, readListed,
    Expression.listToJson_eq_map, calleeDone.read, list?_map argumentsDone]

private theorem ExpressionForm.isDecoded_outVariable (span : Option Span) (type : Option String)
    (name : Ident) : (Expression.mk span (.outVariable type name)).IsDecoded := by
  refine Expression.isDecoded_of .outVariable rfl
    (names_append (names_member? "ty" (type.map .string)) (List.Sublist.refl ["name"]))
    fun _ ranges _ => ?_
  have nameDone := Ident.decodes ranges
  refine ⟨numbersFit_append.mpr ⟨numbersFit_member? "ty" (text?_decodes type), nameDone.fit,
    trivial⟩, ?_⟩
  simp [ExpressionForm.ofParts?, Members.required, optional_eq, nameDone.read,
    readOptional_map (text?_decodes type)]

private theorem Pattern.isDecoded_recursive {type : Option String} {subpatterns : List Pattern}
    {name : Option Ident} (subpatternParts : ∀ pattern ∈ subpatterns, pattern.IsDecoded) :
    (Pattern.recursive type subpatterns name).IsDecoded := by
  refine Pattern.isDecoded_of .recursive rfl
    (names_append (names_member? "ty" (type.map .string))
      ((names_member? "name" (name.map Ident.toJson)).cons_cons "subpatterns"))
    fun _ ranges below => ?_
  simp only [nesting_append, nestingOfMembers, nesting, Pattern.listToJson_eq_map,
    Nat.max_le] at below
  obtain ⟨subpatternRanges, nameRanges⟩ := List.forall_mem_append.mp ranges
  rw [Pattern.statedInAll_eq_flatMap] at subpatternRanges
  have subpatternsDone := IsDecoded.list subpatternParts subpatternRanges
    (nesting_map.mp (Nat.le_of_succ_le below.2.1))
  have subpatternsFit := numbersFit_map subpatternsDone
  rw [← Pattern.listToJson_eq_map] at subpatternsFit
  have nameDone := Ident.decodes_option nameRanges
  refine ⟨numbersFit_append.mpr ⟨numbersFit_member? "ty" (text?_decodes type), subpatternsFit,
    numbersFit_member? "name" nameDone⟩, ?_⟩
  simp [Pattern.ofParts?, optional_eq, listOrEmpty_eq, readListed, Pattern.listToJson_eq_map,
    readOptional_map (text?_decodes type), readOptional_map nameDone, list?_map subpatternsDone]

mutual

/-- An expression is decoded from its value if the fuel covers the nesting of the value. -/
theorem Expression.isDecoded : ∀ value : Expression, value.IsDecoded
  | .mk span form => form.isDecoded span

theorem ExpressionForm.isDecoded : ∀ (form : ExpressionForm) (span : Option Span),
    (Expression.mk span form).IsDecoded
  | .name name, _ => by
    refine Expression.isDecoded_of .name rfl (List.Sublist.refl _) fun _ _ _ => ?_
    refine ⟨⟨trivial, trivial⟩, ?_⟩
    simp [ExpressionForm.ofParts?, Members.required, text?]
  | .literal value, _ => by
    refine Expression.isDecoded_of .literal rfl (List.Sublist.refl _) fun _ _ _ => ?_
    refine ⟨⟨trivial, trivial⟩, ?_⟩
    simp [ExpressionForm.ofParts?, Members.required, text?]
  | .unary operator operand, _ => by
    refine Expression.isDecoded_of .unary rfl (List.Sublist.refl _) fun depth ranges below => ?_
    simp only [nestingOfMembers, Nat.max_le] at below
    have operandDone := operand.isDecoded depth ranges below.2.1
    refine ⟨⟨trivial, operandDone.fit, trivial⟩, ?_⟩
    simp [ExpressionForm.ofParts?, Members.required, text?, operandDone.read]
  | .binary operator left right, _ => by
    refine Expression.isDecoded_of .binary rfl (List.Sublist.refl _) fun depth ranges below => ?_
    simp only [nestingOfMembers, Nat.max_le] at below
    simp only [ExpressionForm.stated, List.forall_mem_append] at ranges
    have leftDone := left.isDecoded depth ranges.1 below.2.1
    have rightDone := right.isDecoded depth ranges.2 below.2.2.1
    refine ⟨⟨trivial, leftDone.fit, rightDone.fit, trivial⟩, ?_⟩
    simp [ExpressionForm.ofParts?, Members.required, text?, leftDone.read, rightDone.read]
  | .choice condition whenTrue whenFalse, _ =>
    ExpressionForm.isDecoded_choice condition.isDecoded whenTrue.isDecoded whenFalse.isDecoded
  | .paren body, _ => by
    refine Expression.isDecoded_of .paren rfl (List.Sublist.refl _) fun depth ranges below => ?_
    simp only [nestingOfMembers, Nat.max_le] at below
    have bodyDone := body.isDecoded depth ranges below.1
    refine ⟨⟨bodyDone.fit, trivial⟩, ?_⟩
    simp [ExpressionForm.ofParts?, Members.required, bodyDone.read]
  | .call callee arguments, _ =>
    ExpressionForm.isDecoded_call callee.isDecoded (Expression.allDecoded arguments)
  | .member target member, _ => by
    refine Expression.isDecoded_of .member rfl (List.Sublist.refl _) fun depth ranges below => ?_
    simp only [nestingOfMembers, Nat.max_le] at below
    have targetDone := target.isDecoded depth ranges below.1
    refine ⟨⟨targetDone.fit, trivial, trivial⟩, ?_⟩
    simp [ExpressionForm.ofParts?, Members.required, text?, targetDone.read]
  | .assign target value, _ => by
    refine Expression.isDecoded_of .assign rfl (List.Sublist.refl _) fun depth ranges below => ?_
    simp only [nestingOfMembers, Nat.max_le] at below
    simp only [ExpressionForm.stated, List.forall_mem_append] at ranges
    have targetDone := target.isDecoded depth ranges.1 below.1
    have valueDone := value.isDecoded depth ranges.2 below.2.1
    refine ⟨⟨targetDone.fit, valueDone.fit, trivial⟩, ?_⟩
    simp [ExpressionForm.ofParts?, Members.required, targetDone.read, valueDone.read]
  | .test operand pattern, _ => by
    refine Expression.isDecoded_of .test rfl (List.Sublist.refl _) fun depth ranges below => ?_
    simp only [nestingOfMembers, Nat.max_le] at below
    simp only [ExpressionForm.stated, List.forall_mem_append] at ranges
    have operandDone := operand.isDecoded depth ranges.1 below.1
    have patternDone := pattern.isDecoded depth ranges.2 below.2.1
    refine ⟨⟨operandDone.fit, patternDone.fit, trivial⟩, ?_⟩
    simp [ExpressionForm.ofParts?, Members.required, operandDone.read, patternDone.read]
  | .outVariable type name, span => ExpressionForm.isDecoded_outVariable span type name
  | .out name, _ => by
    refine Expression.isDecoded_of .out rfl (List.Sublist.refl _) fun _ _ _ => ?_
    refine ⟨⟨trivial, trivial⟩, ?_⟩
    simp [ExpressionForm.ofParts?, Members.required, text?]

theorem Pattern.isDecoded : ∀ pattern : Pattern, pattern.IsDecoded
  | .type type => by
    refine Pattern.isDecoded_of .type rfl (List.Sublist.refl _) fun _ _ _ => ?_
    refine ⟨⟨trivial, trivial⟩, ?_⟩
    simp [Pattern.ofParts?, Members.required, text?]
  | .declaration type name => by
    refine Pattern.isDecoded_of .declaration rfl (List.Sublist.refl _) fun _ ranges _ => ?_
    have nameDone := Ident.decodes ranges
    refine ⟨⟨trivial, nameDone.fit, trivial⟩, ?_⟩
    simp [Pattern.ofParts?, Members.required, text?, nameDone.read]
  | .anyValue name => by
    refine Pattern.isDecoded_of .anyValue rfl (List.Sublist.refl _) fun _ ranges _ => ?_
    have nameDone := Ident.decodes ranges
    refine ⟨⟨nameDone.fit, trivial⟩, ?_⟩
    simp [Pattern.ofParts?, Members.required, nameDone.read]
  | .constant value => by
    refine Pattern.isDecoded_of .constant rfl (List.Sublist.refl _) fun depth ranges below => ?_
    simp only [nestingOfMembers, Nat.max_le] at below
    have valueDone := value.isDecoded depth ranges below.1
    refine ⟨⟨valueDone.fit, trivial⟩, ?_⟩
    simp [Pattern.ofParts?, Members.required, valueDone.read]
  | .discard => by
    exact Pattern.isDecoded_of .discard rfl (List.Sublist.refl _) fun _ _ _ => ⟨trivial, rfl⟩
  | .recursive _ subpatterns _ => Pattern.isDecoded_recursive (Pattern.allDecoded subpatterns)
  | .negated pattern => by
    refine Pattern.isDecoded_of .negated rfl (List.Sublist.refl _) fun depth ranges below => ?_
    simp only [nestingOfMembers, Nat.max_le] at below
    have patternDone := pattern.isDecoded depth ranges below.1
    refine ⟨⟨patternDone.fit, trivial⟩, ?_⟩
    simp [Pattern.ofParts?, Members.required, patternDone.read]

theorem Expression.allDecoded : ∀ values : List Expression, ∀ value ∈ values, value.IsDecoded
  | [] => nofun
  | first :: rest => List.forall_mem_cons.mpr ⟨first.isDecoded, Expression.allDecoded rest⟩

theorem Pattern.allDecoded : ∀ patterns : List Pattern, ∀ pattern ∈ patterns, pattern.IsDecoded
  | [] => nofun
  | first :: rest => List.forall_mem_cons.mpr ⟨first.isDecoded, Pattern.allDecoded rest⟩

end

theorem Expression.decodes_option {value : Option Expression} {depth : Nat}
    (ranges : ∀ span ∈ Expression.statedIfPresent value, span.InRange)
    (bounds : ∀ present ∈ value, present.toJson.nesting ≤ depth) :
    ∀ present ∈ value, Decodes (Expression.ofJson? depth) present.toJson present :=
  IsDecoded.option (fun present _ => present.isDecoded) ranges bounds

private theorem Expression.decodes_list {values : List Expression} {depth : Nat}
    (ranges : ∀ span ∈ values.flatMap Expression.stated, span.InRange)
    (bounds : ∀ value ∈ values, value.toJson.nesting ≤ depth) :
    ∀ value ∈ values, Decodes (Expression.ofJson? depth) value.toJson value :=
  IsDecoded.list (fun value _ => value.isDecoded) ranges bounds

/-! ## Declarators and labels -/

theorem Declarator.isDecoded (declarator : Declarator) :
    IsDecoded Declarator.ofJson? declarator.stated declarator.toJson declarator := by
  intro depth ranges bound
  obtain ⟨name, initializer⟩ := declarator
  simp only [Declarator.stated, List.forall_mem_append] at ranges
  simp only [Declarator.toJson, nesting, nestingOfMembers] at bound
  have below : nestingOfMembers (member? "initializer" (initializer.map Expression.toJson)) ≤
      depth := by omega
  have nameDone := Ident.decodes ranges.1
  have initializerDone := Expression.decodes_option ranges.2 (nesting_member?.mp below)
  have distinct : ["name", "initializer"].Nodup := by decide
  have names : ((("name", name.toJson) ::
      member? "initializer" (initializer.map Expression.toJson)).map (·.1)).Sublist
        ["name", "initializer"] :=
    (names_member? "initializer" (initializer.map Expression.toJson)).cons_cons "name"
  refine ⟨⟨nameDone.fit, numbersFit_member? "initializer" initializerDone⟩, object_ne_null _, ?_⟩
  have fields := record?_of_sublist distinct names ["name", "initializer"]
  simp [Declarator.toJson, Declarator.ofJson?, Json.record?, fields, Members.required,
    nameDone.read, optional_eq, readOptional_map initializerDone]

private theorem LabelTag.kind?_name (tag : LabelTag) :
    kind? LabelTag.all LabelTag.name (.string tag.name) = some tag := by
  cases tag <;> rfl

private theorem Label.isDecoded (label : Label) :
    IsDecoded Label.ofJson? label.stated label.toJson label := by
  intro depth ranges bound
  cases label with
  | otherwise =>
      have tagged : tagged? LabelTag.all LabelTag.name LabelTag.fields
          (tagObject (LabelTag.name .otherwise) []) = some (.otherwise, _) :=
        tagged?_tagObject (LabelTag.kind?_name .otherwise) (by decide) (List.Sublist.refl _)
      refine ⟨⟨trivial, trivial⟩, object_ne_null _, ?_⟩
      rw [Label.toJson, Label.ofJson?, ← LabelTag.name, tagged]
      rfl
  | matching pattern guard =>
      simp only [Label.stated, List.forall_mem_append] at ranges
      obtain ⟨below, rfl, inside⟩ := nesting_tagObject bound
      have bounds := Nat.max_le.mp inside
      have patternDone := pattern.isDecoded _ ranges.1 (Nat.le_succ_of_le bounds.1)
      have guardDone := Expression.decodes_option ranges.2 fun present isPresent =>
        Nat.le_succ_of_le (nesting_member?.mp bounds.2 present isPresent)
      have names := (names_member? "when" (guard.map Expression.toJson)).cons_cons "pattern"
      have tagged : tagged? LabelTag.all LabelTag.name LabelTag.fields
          (tagObject (LabelTag.name .matching) (("pattern", pattern.toJson) ::
            member? "when" (guard.map Expression.toJson))) = some (.matching, _) :=
        tagged?_tagObject (LabelTag.kind?_name .matching) (by decide) names
      refine ⟨⟨trivial, patternDone.fit, numbersFit_member? "when" guardDone⟩, object_ne_null _, ?_⟩
      rw [Label.toJson, Label.ofJson?, ← LabelTag.name, tagged]
      simp [Members.required, patternDone.read, optional_eq, readOptional_map guardDone]

/-! ## Statements and sections -/

theorem Statement.listToJson_eq_map (statements : List Statement) :
    Statement.listToJson statements = statements.map Statement.toJson := by
  induction statements with
  | nil => rfl
  | cons first rest induction => rw [Statement.listToJson, induction, List.map_cons]

private theorem Section.listToJson_eq_map (sections : List Section) :
    Section.listToJson sections = sections.map Section.toJson := by
  induction sections with
  | nil => rfl
  | cons first rest induction => rw [Section.listToJson, induction, List.map_cons]

theorem Statement.statedInAll_eq_flatMap (statements : List Statement) :
    Statement.statedInAll statements = statements.flatMap Statement.stated := by
  induction statements with
  | nil => rfl
  | cons first rest induction => rw [Statement.statedInAll, induction, List.flatMap_cons]

private theorem Section.statedInAll_eq_flatMap (sections : List Section) :
    Section.statedInAll sections = sections.flatMap Section.stated := by
  induction sections with
  | nil => rfl
  | cons first rest induction => rw [Section.statedInAll, induction, List.flatMap_cons]

def Statement.IsDecoded (statement : Statement) : Prop :=
  LexicalScope.IsDecoded Statement.ofJson? statement.stated statement.toJson statement

def Section.IsDecoded (part : Section) : Prop :=
  LexicalScope.IsDecoded (fun depth => Section.ofParts? depth (Statement.ofJson? depth))
    part.stated part.toJson part

theorem Statement.isDecoded_of {span : Option Span} {form : StatementForm} {parts : Members}
    (tag : StatementTag)
    (written : (Statement.mk span form).toJson = formObject span tag.name parts)
    (names : (parts.map (·.1)).Sublist tag.fields)
    (done : ∀ depth, (∀ stated ∈ form.stated, stated.InRange) → nestingOfMembers parts ≤ depth →
      NumbersFitInMembers parts ∧ StatementForm.ofParts? depth (Statement.ofJson? depth)
        (Span.member span ++ ("kind", .string tag.name) :: parts) tag = some form) :
    (Statement.mk span form).IsDecoded := by
  intro depth ranges bound
  rw [written] at bound ⊢
  obtain ⟨outer, inner⟩ := List.forall_mem_append.mp ranges
  obtain ⟨depth, rfl, below⟩ := nesting_formObject bound
  obtain ⟨fit, read⟩ := done depth inner below
  have found : kind? StatementTag.all StatementTag.name (.string tag.name) = some tag := by
    cases tag <;> rfl
  have distinct : ("span" :: "kind" :: tag.fields).Nodup := by cases tag <;> decide
  refine ⟨numbersFit_formObject outer fit, object_ne_null _, ?_⟩
  simp [Statement.ofJson?, spanned?_formObject found distinct names outer, read]

private theorem Section.decodes_object {span : Option Span} {labels : List Label}
    {statements : List Statement} {depth : Nat} (ranges : ∀ stated ∈ span.toList, stated.InRange)
    (labelsDone : ∀ label ∈ labels, Decodes (Label.ofJson? depth) label.toJson label)
    (statementsDone : ∀ statement ∈ statements,
      Decodes (Statement.ofJson? depth) statement.toJson statement) :
    Decodes (Section.ofParts? depth (Statement.ofJson? depth))
      (Section.mk span labels statements).toJson (.mk span labels statements) := by
  have spanDone := Span.decodes_option ranges
  let lists : Members := [("labels", .array (labels.map Label.toJson)),
    ("statements", .array (statements.map Statement.toJson))]
  have names : ((Span.member span ++ lists).map (·.1)).Sublist ["span", "labels", "statements"] :=
    names_append (names_member? "span" (span.map Span.toJson)) (List.Sublist.refl _)
  have fields := record?_of_sublist (by decide) names ["span", "labels", "statements"]
  rw [Section.toJson, Statement.listToJson_eq_map]
  refine ⟨numbersFit_append.mpr ⟨numbersFit_member? "span" spanDone, numbersFit_map labelsDone,
    numbersFit_map statementsDone, trivial⟩, object_ne_null _, ?_⟩
  simp only [lists] at fields
  simp [Section.ofParts?, Json.record?, fields, Members.required, optional_eq, listOrEmpty_eq,
    readListed, readOptional_map spanDone, list?_map labelsDone, list?_map statementsDone]

private theorem StatementForm.isDecoded_block {span : Option Span} {statements : List Statement}
    (parts : ∀ statement ∈ statements, statement.IsDecoded) :
    (Statement.mk span (.block statements)).IsDecoded := by
  refine Statement.isDecoded_of .block rfl (List.Sublist.refl _) fun _ ranges below => ?_
  simp only [nestingOfMembers, nesting, Statement.listToJson_eq_map, Nat.max_le] at below
  have inner : ∀ span ∈ statements.flatMap Statement.stated, span.InRange :=
    Statement.statedInAll_eq_flatMap statements ▸ ranges
  have statementsDone := IsDecoded.list parts inner (nesting_map.mp (Nat.le_of_succ_le below.1))
  have statementsFit := numbersFit_map statementsDone
  rw [← Statement.listToJson_eq_map] at statementsFit
  refine ⟨⟨statementsFit, trivial⟩, ?_⟩
  simp [StatementForm.ofParts?, listOrEmpty_eq, readListed, Statement.listToJson_eq_map,
    list?_map statementsDone]

private theorem StatementForm.isDecoded_ifElse {span : Option Span} {condition : Expression}
    {thenBody elseBody : Statement} (thenPart : thenBody.IsDecoded)
    (elsePart : elseBody.IsDecoded) :
    (Statement.mk span (.branch condition thenBody (some elseBody))).IsDecoded := by
  refine Statement.isDecoded_of .branch rfl (List.Sublist.refl _) fun depth ranges below => ?_
  simp only [nestingOfMembers, Nat.max_le] at below
  obtain ⟨ranges, elseRanges⟩ := List.forall_mem_append.mp ranges
  obtain ⟨conditionRanges, thenRanges⟩ := List.forall_mem_append.mp ranges
  have conditionDone := condition.isDecoded depth conditionRanges below.1
  have thenDone := thenPart depth thenRanges below.2.1
  have elseDone := elsePart depth elseRanges below.2.2.1
  refine ⟨⟨conditionDone.fit, thenDone.fit, elseDone.fit, trivial⟩, ?_⟩
  simp [StatementForm.ofParts?, Members.required, optional_eq,
    readOptional.eq_3 _ _ elseDone.notNull, conditionDone.read, thenDone.read, elseDone.read]

private theorem StatementForm.isDecoded_forLoop {span : Option Span} {declarators : List Declarator}
    {initializers : List Expression} {condition : Option Expression}
    {incrementors : List Expression} {body : Statement} (part : body.IsDecoded) :
    (Statement.mk span
      (.forLoop declarators initializers condition incrementors body)).IsDecoded := by
  refine Statement.isDecoded_of .forLoop rfl
    (names_append (names_append (names_append (names_append (names_listMember "declarators" _)
      (names_listMember "initializers" _)) (names_member? "condition" _))
      (names_listMember "incrementors" _)) (List.Sublist.refl ["body"]))
    fun depth ranges below => ?_
  simp only [nesting_append, nestingOfMembers, Nat.max_le, nesting_member?] at below
  obtain ⟨⟨⟨⟨inDeclarators, inInitializers⟩, inCondition⟩, inIncrementors⟩, inBody, -⟩ := below
  obtain ⟨ranges, bodyRanges⟩ := List.forall_mem_append.mp ranges
  obtain ⟨ranges, incrementorRanges⟩ := List.forall_mem_append.mp ranges
  obtain ⟨ranges, conditionRanges⟩ := List.forall_mem_append.mp ranges
  obtain ⟨declaratorRanges, initializerRanges⟩ := List.forall_mem_append.mp ranges
  have declaratorsDone := IsDecoded.list (fun declarator _ => declarator.isDecoded)
    declaratorRanges (nesting_listMember inDeclarators)
  have initializersDone :=
    Expression.decodes_list initializerRanges (nesting_listMember inInitializers)
  have conditionDone := Expression.decodes_option conditionRanges inCondition
  have incrementorsDone :=
    Expression.decodes_list incrementorRanges (nesting_listMember inIncrementors)
  have bodyDone := part depth bodyRanges inBody
  refine ⟨?_, ?_⟩
  · simp only [numbersFit_append]
    exact ⟨⟨⟨⟨numbersFit_listMember _ declaratorsDone, numbersFit_listMember _ initializersDone⟩,
      numbersFit_member? _ conditionDone⟩, numbersFit_listMember _ incrementorsDone⟩,
      bodyDone.fit, trivial⟩
  · simp [StatementForm.ofParts?, Members.required, optional_eq, listOrEmpty_eq,
      readListed_map declaratorsDone, readListed_map initializersDone,
      readOptional_map conditionDone, readListed_map incrementorsDone, bodyDone.read]

private theorem StatementForm.isDecoded_resource {span : Option Span}
    {declarators : List Declarator} {held : Option Expression} {body : Statement}
    (part : body.IsDecoded) : (Statement.mk span (.resource declarators held body)).IsDecoded := by
  refine Statement.isDecoded_of .resource rfl
    (names_append (names_append (names_listMember "declarators" _) (names_member? "resource" _))
      (List.Sublist.refl ["body"]))
    fun depth ranges below => ?_
  simp only [nesting_append, nestingOfMembers, Nat.max_le, nesting_member?] at below
  obtain ⟨ranges, bodyRanges⟩ := List.forall_mem_append.mp ranges
  obtain ⟨declaratorRanges, heldRanges⟩ := List.forall_mem_append.mp ranges
  have declaratorsDone := IsDecoded.list (fun declarator _ => declarator.isDecoded)
    declaratorRanges (nesting_listMember below.1.1)
  have heldDone := Expression.decodes_option heldRanges below.1.2
  have bodyDone := part depth bodyRanges below.2.1
  refine ⟨?_, ?_⟩
  · simp only [numbersFit_append]
    exact ⟨⟨numbersFit_listMember _ declaratorsDone, numbersFit_member? _ heldDone⟩,
      bodyDone.fit, trivial⟩
  · simp [StatementForm.ofParts?, Members.required, optional_eq, listOrEmpty_eq,
      readListed_map declaratorsDone, readOptional_map heldDone, bodyDone.read]

private theorem StatementForm.isDecoded_switch {span : Option Span} {subject : Expression}
    {sections : List Section} (parts : ∀ part ∈ sections, part.IsDecoded) :
    (Statement.mk span (.switch subject sections)).IsDecoded := by
  refine Statement.isDecoded_of .switch rfl (List.Sublist.refl _) fun depth ranges below => ?_
  simp only [nestingOfMembers, nesting, Section.listToJson_eq_map, Nat.max_le] at below
  obtain ⟨subjectRanges, sectionRanges⟩ := List.forall_mem_append.mp ranges
  rw [Section.statedInAll_eq_flatMap] at sectionRanges
  have subjectDone := subject.isDecoded depth subjectRanges below.1
  have sectionsDone := IsDecoded.list parts sectionRanges
    (nesting_map.mp (Nat.le_of_succ_le below.2.1))
  have sectionsFit := numbersFit_map sectionsDone
  rw [← Section.listToJson_eq_map] at sectionsFit
  refine ⟨⟨subjectDone.fit, sectionsFit, trivial⟩, ?_⟩
  simp [StatementForm.ofParts?, Members.required, listOrEmpty_eq, readListed,
    Section.listToJson_eq_map, subjectDone.read, list?_map sectionsDone]

private theorem Section.isDecoded_mk {span : Option Span} {labels : List Label}
    {statements : List Statement} (parts : ∀ statement ∈ statements, statement.IsDecoded) :
    (Section.mk span labels statements).IsDecoded := by
  intro depth ranges bound
  simp only [Section.toJson, nesting, nesting_append, nestingOfMembers,
    Statement.listToJson_eq_map, Nat.max_lt, Nat.succ_le_iff] at bound
  obtain ⟨ranges, statementRanges⟩ := List.forall_mem_append.mp ranges
  obtain ⟨spanRanges, labelRanges⟩ := List.forall_mem_append.mp ranges
  rw [Statement.statedInAll_eq_flatMap] at statementRanges
  have labelsDone : ∀ label ∈ labels, Decodes (Label.ofJson? depth) label.toJson label :=
    IsDecoded.list (fun label _ => label.isDecoded) labelRanges (nesting_map.mp (by omega))
  have statementsDone : ∀ statement ∈ statements,
      Decodes (Statement.ofJson? depth) statement.toJson statement :=
    IsDecoded.list parts statementRanges (nesting_map.mp (by omega))
  exact Section.decodes_object spanRanges labelsDone statementsDone

mutual

/-- A statement is decoded from its value if the fuel covers the nesting of the value. -/
theorem Statement.isDecoded : ∀ statement : Statement, statement.IsDecoded
  | .mk span form => form.isDecoded span

theorem StatementForm.isDecoded : ∀ (form : StatementForm) (span : Option Span),
    (Statement.mk span form).IsDecoded
  | .block statements, _ => StatementForm.isDecoded_block (Statement.allDecoded statements)
  | .branch condition thenBody none, _ => by
    refine Statement.isDecoded_of .branch rfl (List.sublist_append_left ["condition", "then"]
      ["else"]) fun depth ranges below => ?_
    simp only [nestingOfMembers, Nat.max_le] at below
    simp only [StatementForm.stated, List.forall_mem_append] at ranges
    have conditionDone := condition.isDecoded depth ranges.1 below.1
    have thenDone := thenBody.isDecoded depth ranges.2 below.2.1
    refine ⟨⟨conditionDone.fit, thenDone.fit, trivial⟩, ?_⟩
    simp [StatementForm.ofParts?, Members.required, optional_eq, readOptional, conditionDone.read,
      thenDone.read]
  | .branch _ thenBody (some elseBody), _ =>
    StatementForm.isDecoded_ifElse thenBody.isDecoded elseBody.isDecoded
  | .whileLoop condition body, _ => by
    refine Statement.isDecoded_of .whileLoop rfl (List.Sublist.refl _) fun depth ranges below => ?_
    simp only [nestingOfMembers, Nat.max_le] at below
    simp only [StatementForm.stated, List.forall_mem_append] at ranges
    have conditionDone := condition.isDecoded depth ranges.1 below.1
    have bodyDone := body.isDecoded depth ranges.2 below.2.1
    refine ⟨⟨conditionDone.fit, bodyDone.fit, trivial⟩, ?_⟩
    simp [StatementForm.ofParts?, Members.required, conditionDone.read, bodyDone.read]
  | .doLoop body condition, _ => by
    refine Statement.isDecoded_of .doLoop rfl (List.Sublist.refl _) fun depth ranges below => ?_
    simp only [nestingOfMembers, Nat.max_le] at below
    simp only [StatementForm.stated, List.forall_mem_append] at ranges
    have bodyDone := body.isDecoded depth ranges.1 below.1
    have conditionDone := condition.isDecoded depth ranges.2 below.2.1
    refine ⟨⟨bodyDone.fit, conditionDone.fit, trivial⟩, ?_⟩
    simp [StatementForm.ofParts?, Members.required, conditionDone.read, bodyDone.read]
  | .forLoop _ _ _ _ body, _ => StatementForm.isDecoded_forLoop body.isDecoded
  | .forEachLoop element collection body, _ => by
    refine Statement.isDecoded_of .forEachLoop rfl
      (List.Sublist.refl _) fun depth ranges below => ?_
    simp only [nestingOfMembers, Nat.max_le] at below
    simp only [StatementForm.stated, List.forall_mem_append] at ranges
    have elementDone := Ident.decodes ranges.1.1
    have collectionDone := collection.isDecoded depth ranges.1.2 below.2.1
    have bodyDone := body.isDecoded depth ranges.2 below.2.2.1
    refine ⟨⟨elementDone.fit, collectionDone.fit, bodyDone.fit, trivial⟩, ?_⟩
    simp [StatementForm.ofParts?, Members.required, elementDone.read, collectionDone.read,
      bodyDone.read]
  | .resource _ _ body, _ => StatementForm.isDecoded_resource body.isDecoded
  | .switch _ sections, _ => StatementForm.isDecoded_switch (Section.allDecoded sections)
  | .localDeclaration declarators, _ => by
    refine Statement.isDecoded_of .localDeclaration rfl
      (List.Sublist.refl _) fun _ ranges below => ?_
    simp only [nestingOfMembers, nesting, Nat.max_le] at below
    have declaratorsDone := IsDecoded.list (fun declarator _ => declarator.isDecoded) ranges
      (nesting_map.mp (Nat.le_of_succ_le below.1))
    refine ⟨⟨numbersFit_map declaratorsDone, trivial⟩, ?_⟩
    simp [StatementForm.ofParts?, Members.required, list?_map declaratorsDone]
  | .evaluation expression, _ => by
    refine Statement.isDecoded_of .evaluation rfl (List.Sublist.refl _) fun depth ranges below => ?_
    simp only [nestingOfMembers, Nat.max_le] at below
    have expressionDone := expression.isDecoded depth ranges below.1
    refine ⟨⟨expressionDone.fit, trivial⟩, ?_⟩
    simp [StatementForm.ofParts?, Members.required, expressionDone.read]
  | .returning value, _ => by
    refine Statement.isDecoded_of .returning rfl (names_member? "value" _) fun _ ranges below => ?_
    have valueDone := Expression.decodes_option ranges (nesting_member?.mp below)
    refine ⟨numbersFit_member? "value" valueDone, ?_⟩
    simp [StatementForm.ofParts?, optional_eq, readOptional_map valueDone]
  | .throwing value, _ => by
    refine Statement.isDecoded_of .throwing rfl (names_member? "value" _) fun _ ranges below => ?_
    have valueDone := Expression.decodes_option ranges (nesting_member?.mp below)
    refine ⟨numbersFit_member? "value" valueDone, ?_⟩
    simp [StatementForm.ofParts?, optional_eq, readOptional_map valueDone]
  | .breaking, _ =>
    Statement.isDecoded_of .breaking rfl (List.Sublist.refl _) fun _ _ _ => ⟨trivial, rfl⟩
  | .continuing, _ =>
    Statement.isDecoded_of .continuing rfl (List.Sublist.refl _) fun _ _ _ => ⟨trivial, rfl⟩
  | .labeled label body, _ => by
    refine Statement.isDecoded_of .labeled rfl (List.Sublist.refl _) fun depth ranges below => ?_
    simp only [nestingOfMembers, Nat.max_le] at below
    have bodyDone := body.isDecoded depth ranges below.2.1
    refine ⟨⟨trivial, bodyDone.fit, trivial⟩, ?_⟩
    simp [StatementForm.ofParts?, Members.required, text?, bodyDone.read]
  | .empty, _ =>
    Statement.isDecoded_of .empty rfl (List.Sublist.refl _) fun _ _ _ => ⟨trivial, rfl⟩

theorem Statement.allDecoded : ∀ statements : List Statement,
    ∀ statement ∈ statements, statement.IsDecoded
  | [] => nofun
  | first :: rest => List.forall_mem_cons.mpr ⟨first.isDecoded, Statement.allDecoded rest⟩

theorem Section.isDecoded : ∀ part : Section, part.IsDecoded
  | .mk _ _ statements => Section.isDecoded_mk (Statement.allDecoded statements)

theorem Section.allDecoded : ∀ sections : List Section, ∀ part ∈ sections, part.IsDecoded
  | [] => nofun
  | first :: rest => List.forall_mem_cons.mpr ⟨first.isDecoded, Section.allDecoded rest⟩

end

/-! ## Procedures -/

/-- The stated spans of a procedure lie within the range of offsets. -/
def Procedure.InRange (procedure : Procedure) : Prop :=
  ∀ span ∈ procedure.stated, span.InRange

instance (procedure : Procedure) : Decidable procedure.InRange :=
  inferInstanceAs (Decidable (∀ span ∈ procedure.stated, span.InRange))

theorem Procedure.decodes {procedure : Procedure} (inRange : procedure.InRange) :
    Decodes Procedure.ofJson? procedure.toJson procedure := by
  obtain ⟨name, parameters, body⟩ := procedure
  obtain ⟨parameterRanges, bodyRanges⟩ := List.forall_mem_append.mp inRange
  let members : Members := ("name", .string name) ::
    (listMember "parameters" (parameters.map Ident.toJson) ++ [("body", body.toJson)])
  have bound : body.toJson.nesting ≤ (Json.object members).nesting := by
    simp only [members, nesting, nesting_append, nestingOfMembers]
    omega
  have parametersDone := Ident.decodes_list parameterRanges
  have bodyDone := body.isDecoded _ bodyRanges bound
  have bodyNames : ([("body", body.toJson)].map (·.1)).Sublist ["body"] := List.Sublist.refl _
  have names : (members.map (·.1)).Sublist ["name", "parameters", "body"] :=
    (names_append (names_listMember "parameters" (parameters.map Ident.toJson))
      bodyNames).cons_cons "name"
  have fields := record?_of_sublist (by decide) names ["name", "parameters", "body"]
  refine ⟨⟨trivial, numbersFit_append.mpr ⟨numbersFit_listMember "parameters" parametersDone,
    bodyDone.fit, trivial⟩⟩, object_ne_null _, ?_⟩
  have read : Procedure.ofJson? (.object members) = some ⟨name, parameters, body⟩ := by
    rw [Procedure.ofJson?, Json.record?, fields]
    have bodyRead := bodyDone.read
    simp only [members] at bodyRead ⊢
    simp [Members.required, text?, listOrEmpty_eq, readListed_map parametersDone, bodyRead]
  exact read

/-- A procedure written without blanks by itself is read back as the only one. -/
theorem Procedure.parseAll_single {procedure : Procedure} (inRange : procedure.InRange)
    (bound : procedure.toJson.nesting ≤ nestingLimit) :
    Procedure.parseAll procedure.toJson.compact = .ok [procedure] := by
  have done := Procedure.decodes inRange
  have single : list? Procedure.ofJson? procedure.toJson = none := rfl
  simp [Procedure.parseAll, readFront_compact done.fit bound, Procedure.listOfJson?, single,
    done.read, checkEnd, dropGap, bind, Except.bind, pure, Except.pure]

/-- Procedures written without blanks are read back unchanged, a list of them as well as a single
one. -/
theorem Procedure.parseAll_compact :
    (∀ procedures : List Procedure, (∀ procedure ∈ procedures, procedure.InRange) →
      (Json.array (procedures.map Procedure.toJson)).nesting ≤ nestingLimit →
        Procedure.parseAll (Json.array (procedures.map Procedure.toJson)).compact =
          .ok procedures) ∧
    ∀ procedure : Procedure, procedure.InRange → procedure.toJson.nesting ≤ nestingLimit →
      Procedure.parseAll procedure.toJson.compact = .ok [procedure] := by
  refine ⟨fun procedures inRange bound => ?_,
    fun procedure inRange bound => parseAll_single inRange bound⟩
  have done := fun procedure member => Procedure.decodes (inRange procedure member)
  have fit : (Json.array (procedures.map Procedure.toJson)).NumbersFit := numbersFit_map done
  simp [Procedure.parseAll, readFront_compact fit bound, Procedure.listOfJson?, list?_map done,
    checkEnd, dropGap, bind, Except.bind, pure, Except.pure]

/-- A loop over a switch, with stated spans and names of any characters. -/
def Procedure.exchanged : Procedure :=
  ⟨"p \"é\\", [⟨"a", some ⟨0, 1⟩⟩, ⟨"\n", none⟩], .mk (some ⟨2, 4294967295⟩) (.forLoop
    [⟨⟨"i", none⟩, some (.mk none (.literal "0"))⟩] [] (some (.mk none (.name "i")))
    [.mk (some ⟨4, 5⟩) (.unary "++" (.mk none (.name "i")))] (.mk none (.switch
      (.mk none (.name "a")) [.mk none [.matching (.recursive none
        [.declaration "T" ⟨"x", some ⟨7, 8⟩⟩, .discard] none) (some (.mk none (.name "x"))),
          .otherwise] [.mk none .breaking, .mk none (.returning none)]])))⟩

theorem Procedure.parseAll_compact_exchanged :
    Procedure.parseAll (Json.array ([Procedure.exchanged, .exchanged].map
        Procedure.toJson)).compact = .ok [.exchanged, .exchanged] ∧
      Procedure.parseAll Procedure.exchanged.toJson.compact = .ok [.exchanged] := by
  have inRange : Procedure.exchanged.InRange := by decide
  have both : ∀ procedure ∈ [Procedure.exchanged, .exchanged], procedure.InRange := by
    simp [inRange]
  exact ⟨parseAll_compact.1 _ both (by decide), parseAll_compact.2 _ inRange (by decide)⟩

end LexicalScope
