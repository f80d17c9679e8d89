import EntityQuery.Decimal.Double

/-! # JSON values

Numbers are integers or doubles, and the two never mix: `1` and `1.0` are different values. The
fields of an object are sorted by name, which is what makes a value's text canonical. -/

namespace EntityQuery
set_option autoImplicit false

/-- A JSON value. -/
inductive Json where
  | null
  | bool (value : Bool)
  | int (value : Int)
  | double (value : Double)
  | text (value : String)
  | list (items : List Json)
  | object (fields : List (String × Json))
deriving Inhabited

namespace Json

/-- Writes a field into fields sorted by name, in place of the one of that name. -/
def setField (name : String) (value : Json) : List (String × Json) → List (String × Json)
  | [] => [(name, value)]
  | (n, v) :: fields =>
    if name == n then (n, value) :: fields
    else if name < n then (name, value) :: (n, v) :: fields
    else (n, v) :: setField name value fields

/-- The object with these fields; of two with one name the later one counts. -/
def ofFields (fields : List (String × Json)) : Json :=
  .object (fields.foldl (fun fs f => setField f.1 f.2 fs) [])

end Json

end EntityQuery
