import EntityQuery.Activator
import EntityQuery.Entries
import EntityQuery.Json.Text

/-! # Reading rows

Without collections every row gives one value. With collections, rows that agree on the root
identity give one value together, and each of its collections gets one element for each element
identity among them; a row in which that identity is all null adds nothing. -/

namespace EntityQuery
set_option autoImplicit false

/-- A row of results, by position. -/
abbrev Row := List Json

namespace Row

/-- The cell at a position; outside the row it is null. -/
def cell (row : Row) (i : Nat) : Json := row.getD i .null

def isNull : Json → Bool
  | .null => true
  | _ => false

/-- The texts of cells, which identify what is built from them. -/
def identity (row : Row) (cells : List Nat) : String :=
  "\x1f".intercalate (cells.map fun i => (row.cell i).compact)

/-- Whether there are cells and all of them are null. -/
def isAbsent (row : Row) (cells : List Nat) : Bool :=
  !cells.isEmpty && cells.all fun i => isNull (row.cell i)

end Row

namespace Activator

mutual

/-- The value built from one row; collections start empty. -/
def build (row : Row) : Activator → Json
  | .cell i => row.cell i
  | .object _ identity members =>
    if row.isAbsent identity then .null else Json.ofFields (buildMembers row members)
  | .collection _ => .list []

/-- The members built from one row. -/
def buildMembers (row : Row) : List (String × Activator) → List (String × Json)
  | [] => []
  | (n, a) :: ms => (n, build row a) :: buildMembers row ms

end

/-- Applies `f` to the field of a name. -/
def updateField (name : String) (f : Json → Json) (fields : List (String × Json)) :
    List (String × Json) :=
  fields.map fun field => if field.1 == name then (field.1, f field.2) else field

/-- Adds an element to a list. -/
def append (element : Json) : Json → Json
  | .list items => .list (items ++ [element])
  | v => v

/-- Adds the row's element to the collection `name`, unless it is absent or seen before. -/
def gather (row : Row) (path name : String) (element : Activator)
    (st : List (String × Json) × List String) : List (String × Json) × List String :=
  let cells := element.elementIdentity
  let key := path ++ "#" ++ row.identity cells
  if row.isAbsent cells || st.2.contains key then st
  else (updateField name (append (element.build row)) st.1, key :: st.2)

mutual

/-- Adds what the row holds for the collections below a value. The second part of the state are
the elements seen so far. -/
def merge (row : Row) : Activator → String → Json × List String → Json × List String
  | .object _ _ members, path, (.object fields, seen) =>
    let (fields, seen) := mergeMembers row members path (fields, seen)
    (.object fields, seen)
  | _, _, st => st

/-- Adds what the row holds for the collections below members. -/
def mergeMembers (row : Row) : List (String × Activator) → String →
    List (String × Json) × List String → List (String × Json) × List String
  | [], _, st => st
  | (n, .collection element) :: ms, path, st =>
    mergeMembers row ms path (gather row (path ++ "/" ++ n) n element st)
  | (n, a) :: ms, path, (fields, seen) =>
    match fields.lookup n with
    | some v =>
      let (v, seen) := merge row a (path ++ "/" ++ n) (v, seen)
      mergeMembers row ms path (updateField n (fun _ => v) fields, seen)
    | none => mergeMembers row ms path (fields, seen)

end

/-- Adds a row to the roots read so far. -/
def readRow (a : Activator) (st : List (String × Json) × List String) (row : Row) :
    List (String × Json) × List String :=
  let key := row.identity a.rootIdentity
  let root := (st.1.lookup key).getD (a.build row)
  let (root, seen) := a.merge row key (root, st.2)
  (Entries.put key root st.1, seen)

/-- The values that rows hold, in the order in which they come up first. -/
def read (a : Activator) (rows : List Row) : List Json :=
  if a.hasCollection then (rows.foldl a.readRow ([], [])).1.map (·.2)
  else rows.map fun row => a.build row

end Activator

end EntityQuery
