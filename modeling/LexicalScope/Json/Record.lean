import LexicalScope.Json.Basic

/-!
# Records in JSON

A record with named fields is an object, or an array of the fields in their order. A tagged record
has the name of its kind among its members, or first in its array; the kind may also be given by its
place in the list of kinds. Nothing distinguishes the faults here: any wrong shape is `none`.
-/

namespace LexicalScope.Json

/-- The members of an object. -/
abbrev Members := List (String × Json)

/-- The value of the first member of a name. -/
def Members.find (members : Members) (name : String) : Option Json :=
  (List.find? (fun member => member.1 == name) members).map (·.2)

/-- Whether no member of the given names is repeated. -/
def Members.areDistinct (members : Members) (names : List String) : Bool :=
  names.all fun name => List.countP (fun member => member.1 == name) members ≤ 1

/-- The members of a record with the fields `names`; other members do not count. -/
def Members.record? (members : Members) (names : List String) : Option Members :=
  if members.areDistinct names then some members else none

/-- Names the items of an array by the fields `names`, of which the last may be left out. -/
def nameItems? (items : List Json) (names : List String) : Option Members :=
  if items.length ≤ names.length then some (names.zip items) else none

/-- The members of an object. -/
def members? : Json → Option Members
  | object members => some members
  | _ => none

/-- The fields of a record given as an object or as an array. -/
def record? (names : List String) : Json → Option Members
  | object members => Members.record? members names
  | array items => nameItems? items names
  | _ => none

/-- A field that has to be present. -/
def Members.required {α : Type} (members : Members) (name : String) (read : Json → Option α) :
    Option α :=
  (members.find name).bind read

/-- A field that may be missing or `null`. -/
def Members.optional {α : Type} (members : Members) (name : String) (read : Json → Option α) :
    Option (Option α) :=
  match members.find name with
  | none => some none
  | some null => some none
  | some value => (read value).map some

/-- The items of an array. -/
def list? {α : Type} (read : Json → Option α) : Json → Option (List α)
  | array items => items.mapM read
  | _ => none

/-- A list that may be missing and is then empty. -/
def Members.listOrEmpty {α : Type} (members : Members) (name : String)
    (read : Json → Option α) : Option (List α) :=
  match members.find name with
  | none => some []
  | some value => list? read value

/-- The text of a string. -/
def text? : Json → Option String
  | string value => some value
  | _ => none

/-- A number that is a text offset or another word of thirty-two bits. -/
def word? (limit : Nat) : Json → Option Nat
  | natural value => if value < limit then some value else none
  | _ => none

/-- One of the kinds `all`, given by its name or by its place among them. -/
def kind? {κ : Type} (all : List κ) (name : κ → String) : Json → Option κ
  | string value => all.find? fun kind => name kind == value
  | natural place => all[place]?
  | _ => none

/-- The kind of a tagged record and its other members. -/
def tagged? {κ : Type} (all : List κ) (name : κ → String) (fields : κ → List String) :
    Json → Option (κ × Members)
  | object members => do
    let members ← Members.record? members ["kind"]
    let kind ← members.required "kind" (kind? all name)
    return (kind, ← members.record? (fields kind))
  | array (tag :: items) => do
    let kind ← kind? all name tag
    return (kind, ← nameItems? items (fields kind))
  | _ => none

end LexicalScope.Json
