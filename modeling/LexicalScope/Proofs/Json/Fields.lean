import LexicalScope.Json.Record
import LexicalScope.Procedure.Encoding
import LexicalScope.Proofs.Json.Rereading
import Mathlib.Data.List.Nodup

/-!
# Fields read back from records

A record is written as an object that leaves out what is absent or empty. Each field is found again
under its name, and a field that was left out is read as absent or empty again.
-/

namespace LexicalScope.Json

/-- A value is decoded from its JSON value, which is present and holds only numbers that fit. -/
structure Decodes {α : Type} (read : Json → Option α) (json : Json) (value : α) : Prop where
  fit : json.NumbersFit
  notNull : json ≠ null
  read : read json = some value

theorem object_ne_null (members : Members) : object members ≠ null := nofun

/-! ## Finding -/

namespace Members

@[simp] theorem find_nil (name : String) : Members.find [] name = none := rfl

@[simp] theorem find_cons (first : String) (value : Json) (members : Members) (name : String) :
    Members.find ((first, value) :: members) name =
      if first = name then some value else members.find name := by
  by_cases same : first = name <;> simp [Members.find, same]

@[simp] theorem find_append (left right : Members) (name : String) :
    Members.find (left ++ right) name = (left.find name).or (right.find name) := by
  simp only [Members.find, List.find?_append, Option.map_or]

@[simp] theorem find_member? (first : String) (value : Option Json) (name : String) :
    Members.find (member? first value) name = if first = name then value else none := by
  cases value <;> simp [member?]

/-- The value of a list that is left out when it is empty. -/
def listed? : List Json → Option Json
  | [] => none
  | items => some (.array items)

@[simp] theorem find_listMember (first : String) (items : List Json) (name : String) :
    Members.find (listMember first items) name = if first = name then listed? items else none := by
  cases items <;> simp [listMember, listed?]

@[simp] theorem find_spanMember (span : Option Span) (name : String) :
    Members.find (Span.member span) name =
      if "span" = name then span.map Span.toJson else none :=
  find_member? ..

theorem find_eq_none {members : Members} {name : String} (other : name ∉ members.map (·.1)) :
    members.find name = none := by
  induction members with
  | nil => rfl
  | cons first members induction =>
      simp only [List.map_cons, List.mem_cons, not_or] at other
      rw [find_cons, if_neg (Ne.symm other.1), induction other.2]

/-! ## Distinct names -/

private theorem areDistinct_of_nodup {members : Members} (distinct : (members.map (·.1)).Nodup)
    (names : List String) : members.areDistinct names = true := by
  refine List.all_eq_true.mpr fun name _ => decide_eq_true ?_
  have once := List.nodup_iff_count_le_one.mp distinct name
  rwa [List.count, List.countP_map] at once

theorem record?_of_sublist {members : Members} {all : List String} (distinct : all.Nodup)
    (names : (members.map (·.1)).Sublist all) (fields : List String) :
    members.record? fields = some members := by
  rw [Members.record?, areDistinct_of_nodup (distinct.sublist names), if_pos rfl]

theorem names_member? (name : String) (value : Option Json) :
    ((member? name value).map (·.1)).Sublist [name] := by
  cases value with
  | none => exact List.nil_sublist _
  | some value => exact List.Sublist.refl _

theorem names_listMember (name : String) (items : List Json) :
    ((listMember name items).map (·.1)).Sublist [name] := by
  cases items with
  | nil => exact List.nil_sublist _
  | cons item items => exact List.Sublist.refl _

theorem names_append {left right : Members} {first rest : List String}
    (leftNames : (left.map (·.1)).Sublist first) (rightNames : (right.map (·.1)).Sublist rest) :
    ((left ++ right).map (·.1)).Sublist (first ++ rest) := by
  rw [List.map_append]
  exact leftNames.append rightNames

/-! ## Fields -/

/-- Reads a field that may be missing or `null`. -/
def readOptional {α : Type} (read : Json → Option α) : Option Json → Option (Option α)
  | none => some none
  | some null => some none
  | some value => (read value).map some

/-- Reads a list that may be missing. -/
def readListed {α : Type} (read : Json → Option α) : Option Json → Option (List α)
  | none => some []
  | some value => list? read value

variable {α : Type} {read : Json → Option α} {encode : α → Json}

theorem optional_eq (members : Members) (name : String) :
    members.optional name read = readOptional read (members.find name) := rfl

theorem listOrEmpty_eq (members : Members) (name : String) :
    members.listOrEmpty name read = readListed read (members.find name) := rfl

theorem readOptional_map {value : Option α}
    (decodes : ∀ present ∈ value, Decodes read (encode present) present) :
    readOptional read (value.map encode) = some value := by
  cases value with
  | none => rfl
  | some present =>
      have decode := decodes present rfl
      rw [Option.map_some, readOptional.eq_3 _ _ decode.notNull, decode.read, Option.map_some]

private theorem mapM_map {values : List α}
    (decodes : ∀ value ∈ values, Decodes read (encode value) value) :
    (values.map encode).mapM read = some values := by
  induction values with
  | nil => rfl
  | cons first rest induction =>
      have decode := decodes first List.mem_cons_self
      have others := induction fun value member => decodes value (List.mem_cons_of_mem first member)
      simp [decode.read, others]

theorem list?_map {values : List α}
    (decodes : ∀ value ∈ values, Decodes read (encode value) value) :
    list? read (.array (values.map encode)) = some values :=
  mapM_map decodes

theorem readListed_map {values : List α}
    (decodes : ∀ value ∈ values, Decodes read (encode value) value) :
    readListed read (listed? (values.map encode)) = some values := by
  cases values with
  | nil => rfl
  | cons first rest => exact list?_map decodes

/-! ## Numbers -/

theorem numbersFit_append {left right : Members} :
    NumbersFitInMembers (left ++ right) ↔ NumbersFitInMembers left ∧ NumbersFitInMembers right := by
  induction left with
  | nil => simp [NumbersFitInMembers]
  | cons first left induction => simp [NumbersFitInMembers, induction, and_assoc]

theorem numbersFit_member? (name : String) {value : Option α}
    (decodes : ∀ present ∈ value, Decodes read (encode present) present) :
    NumbersFitInMembers (member? name (value.map encode)) := by
  cases value with
  | none => exact trivial
  | some present => exact ⟨(decodes present rfl).fit, trivial⟩

theorem numbersFit_map {values : List α}
    (decodes : ∀ value ∈ values, Decodes read (encode value) value) :
    NumbersFitInItems (values.map encode) := by
  induction values with
  | nil => exact trivial
  | cons first rest induction =>
      exact ⟨(decodes first List.mem_cons_self).fit,
        induction fun value member => decodes value (List.mem_cons_of_mem first member)⟩

theorem numbersFit_listMember (name : String) {values : List α}
    (decodes : ∀ value ∈ values, Decodes read (encode value) value) :
    NumbersFitInMembers (listMember name (values.map encode)) := by
  cases values with
  | nil => exact trivial
  | cons first rest => exact ⟨numbersFit_map decodes, trivial⟩

/-! ## Nesting -/

theorem nesting_append (left right : Members) :
    nestingOfMembers (left ++ right) = max (nestingOfMembers left) (nestingOfMembers right) := by
  induction left with
  | nil => simp [nestingOfMembers]
  | cons first left induction => simp [nestingOfMembers, induction, Nat.max_assoc]

theorem nesting_member? {name : String} {value : Option α} {depth : Nat} :
    nestingOfMembers (member? name (value.map encode)) ≤ depth ↔
      ∀ present ∈ value, (encode present).nesting ≤ depth := by
  cases value <;> simp [member?, nestingOfMembers]

theorem nesting_map {values : List α} {depth : Nat} :
    nestingOfItems (values.map encode) ≤ depth ↔
      ∀ value ∈ values, (encode value).nesting ≤ depth := by
  induction values with
  | nil => simp [nestingOfItems]
  | cons first rest induction =>
      rw [List.map_cons, nestingOfItems, Nat.max_le, induction, List.forall_mem_cons]

theorem nesting_listMember {name : String} {values : List α} {depth : Nat}
    (bound : nestingOfMembers (listMember name (values.map encode)) ≤ depth) :
    ∀ value ∈ values, (encode value).nesting ≤ depth := by
  refine nesting_map.mp ?_
  cases values with
  | nil => exact Nat.zero_le _
  | cons first rest =>
      simp only [List.map_cons, listMember, nestingOfMembers, nesting] at bound ⊢
      omega

end Members

end LexicalScope.Json
