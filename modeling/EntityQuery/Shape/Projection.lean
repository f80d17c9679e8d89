import EntityQuery.Activator
import EntityQuery.Shape.Basic
import EntityQuery.Sql.Statement

/-! # Projection of shapes

Both functions of this module select every scalar of a shape as a column of a statement, in the
order of the members and collections included. A column is named after the member it is read for,
scalars that are no member after `base`. -/

namespace EntityQuery.Shape
set_option autoImplicit false

mutual

/-- The shape as it is seen through a derived table that holds the statement: each scalar is the
column selected for it. Conditions and filters stay behind. -/
def rebind (base table : String) : Shape → Option String → Sql.Statement → Shape × Sql.Statement
  | .scalar e, hint, st =>
    let (st, e) := st.expose e hint base table
    (.scalar e, st)
  | .object ⟨entity, key, members, _, _⟩, _, st =>
    let (members, st) := rebindMembers base table members st
    (.object { entity, key, members }, st)
  | .collection element _ _, _, st =>
    let (element, st) := rebind base table element none st
    (.collection element none none, st)

/-- The members as they are seen through a derived table. -/
def rebindMembers (base table : String) :
    List (String × Shape) → Sql.Statement → List (String × Shape) × Sql.Statement
  | [], st => ([], st)
  | (n, s) :: ms, st =>
    let (s, st) := rebind base table s (some n) st
    let (ms, st) := rebindMembers base table ms st
    ((n, s) :: ms, st)

end

/-- The cells of the key members that are scalars, in order of the key. -/
def identityCells (key : List String) (members : List (String × Activator)) : List Nat :=
  key.filterMap fun k =>
    match members.lookup k with
    | some (.cell i) => some i
    | _ => none

mutual

/-- The recipe that builds the shape from rows of the statement: each scalar is read from the
column selected for it. -/
def activator (base : String) : Shape → Option String → Sql.Statement → Activator × Sql.Statement
  | .scalar e, hint, st =>
    let (st, i) := st.project e hint base
    (.cell i, st)
  | .object ⟨entity, key, members, _, _⟩, _, st =>
    let (members, st) := memberActivators base members st
    (.object entity (identityCells key members) members, st)
  | .collection element _ _, _, st =>
    let (element, st) := activator base element none st
    (.collection element, st)

/-- The recipes for members. -/
def memberActivators (base : String) :
    List (String × Shape) → Sql.Statement → List (String × Activator) × Sql.Statement
  | [], st => ([], st)
  | (n, s) :: ms, st =>
    let (a, st) := activator base s (some n) st
    let (as, st) := memberActivators base ms st
    ((n, a) :: as, st)

end

end EntityQuery.Shape
