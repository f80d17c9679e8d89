import EntityQuery.Catalog.Basic
import EntityQuery.Entries
import EntityQuery.Sql.Expr

/-! # Shapes

The shape of a result says what is built from it and from which expressions: a scalar, an object
with named members, or a collection of elements that come from joined rows. -/

namespace EntityQuery
set_option autoImplicit false

/-- An object whose members have shapes of type `μ`. -/
structure ObjectOf (μ : Type) where
  -- None for a record made by a projection.
  entity : Option String := none
  key : List String := []
  members : List (String × μ) := []
  condition : Option Sql.Expr := none
  filter : Option Sql.Expr := none

/-- The shape of a result, and the expressions it is built from. -/
inductive Shape where
  | scalar (expr : Sql.Expr)
  | object (node : ObjectOf Shape)
  | collection (element : Shape) (condition filter : Option Sql.Expr)

namespace ObjectOf

/-- Sets a member. -/
def withMember {μ : Type} (o : ObjectOf μ) (name : String) (m : μ) : ObjectOf μ :=
  { o with members := Entries.put name m o.members }

/-- The object of an entity whose table is visible under `label`: one scalar for each column. -/
def ofEntity (e : Entity) (label : String) : ObjectOf Shape :=
  e.primitives.foldl
    (fun o p => o.withMember p.name (.scalar (.column ⟨label, p.columnName⟩)))
    { entity := some e.name, key := e.key }

end ObjectOf

namespace Shape

/-! ## Parts -/

/-- The member of a name; only objects have members. -/
def member? (s : Shape) (name : String) : Option Shape :=
  match s with
  | .object o => o.members.lookup name
  | _ => none

/-- The shape reached by a path of members. -/
def atPath? (s : Shape) (path : List String) : Option Shape :=
  path.foldlM member? s

/-- The entity that a shape is, or that its elements are. -/
def entity? : Shape → Option String
  | .scalar _ => none
  | .object o => o.entity
  | .collection element _ _ => element.entity?

def scalar? : Shape → Option Sql.Expr
  | .scalar e => some e
  | _ => none

def isCollection : Shape → Bool
  | .collection .. => true
  | _ => false

mutual

/-- Whether a collection is somewhere in the shape. -/
def hasCollection : Shape → Bool
  | .scalar _ => false
  | .object ⟨_, _, members, _, _⟩ => anyCollection members
  | .collection .. => true

def anyCollection : List (String × Shape) → Bool
  | [] => false
  | (_, s) :: ms => hasCollection s || anyCollection ms

end

mutual

/-- The scalars outside collections, in order of the members. -/
def leaves : Shape → List Sql.Expr
  | .scalar e => [e]
  | .object ⟨_, _, members, _, _⟩ => memberLeaves members
  | .collection .. => []

/-- The scalars of members outside collections. -/
def memberLeaves : List (String × Shape) → List Sql.Expr
  | [] => []
  | (_, s) :: ms => leaves s ++ memberLeaves ms

end

/-! ## Equality -/

mutual

/-- Equality of shapes. The order of an object's members does not matter. -/
def same : Shape → Shape → Bool
  | .scalar e, .scalar e' => e == e'
  | .object ⟨n, k, ms, c, f⟩, .object o =>
    n == o.entity && k == o.key && (ms.length == o.members.length && sameMembers ms o.members)
      && c == o.condition && f == o.filter
  | .collection s c f, .collection s' c' f' => same s s' && c == c' && f == f'
  | _, _ => false

/-- Whether each of the members has an equal one of its name among the others. -/
def sameMembers : List (String × Shape) → List (String × Shape) → Bool
  | [], _ => true
  | (n, s) :: ms, others =>
    (match others.lookup n with
      | some s' => same s s'
      | none => false)
    && sameMembers ms others

end

instance : BEq Shape := ⟨same⟩

end Shape

end EntityQuery
