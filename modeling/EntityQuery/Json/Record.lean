import EntityQuery.Json.Document

/-! # Records in documents

A record with given field names is written as an object or as a list. In an object fields come in
any order, unknown ones are passed over and known ones stand once. In a list the values come in the
order of the names, and the last ones may be left out. -/

namespace EntityQuery.Json.Document
set_option autoImplicit false

/-- The document of a field in an object: `none` if it stands there twice. -/
def field? (fields : List (Option String × Document)) (name : String) : Option (Option Document) :=
  match fields.filter (fun f => f.1 == some name) with
  | [] => some none
  | [f] => some (some f.2)
  | _ => none

/-- The documents of a record's fields, one for each name, each absent or present. -/
def record? (names : List String) : Document → Option (List (Option Document))
  | .object fields => if fields.all (·.1.isSome) then names.mapM (field? fields) else none
  | .list items =>
    if items.length ≤ names.length then
      some (items.map some ++ List.replicate (names.length - items.length) none)
    else none
  | _ => none

/-! ## Values of fields -/

/-- A field that has to be there. -/
def required {α : Type} (read : Document → Option α) (field : Option Document) : Option α :=
  field.bind read

/-- A field that has a default. -/
def withDefault {α : Type} (value : α) (read : Document → Option α) : Option Document → Option α
  | none => some value
  | some d => read d

/-- A field that may be absent or `null`. -/
def optional {α : Type} (read : Document → Option α) : Option Document → Option (Option α)
  | none => some none
  | some .null => some none
  | some d => (read d).map some

def string? : Document → Option String
  | .text s => s
  | _ => none

/-- A natural number of at most 64 bits, written without point and exponent. -/
def natural? : Document → Option Nat
  | .number n =>
    match n.toInt? with
    | some i => if 0 ≤ i ∧ i ≤ maxInteger then some i.toNat else none
    | none => none
  | _ => none

/-- A list of which every item is read. -/
def listOf? {α : Type} (read : Document → Option α) : Document → Option (List α)
  | .list items => items.mapM read
  | _ => none

/-- An object of which every value is read, with its names as they stand. -/
def entriesOf? {α : Type} (read : Document → Option α) : Document → Option (List (String × α))
  | .object fields => fields.mapM fun f => do
      let name ← f.1
      let value ← read f.2
      return (name, value)
  | _ => none

end EntityQuery.Json.Document
