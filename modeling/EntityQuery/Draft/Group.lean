import EntityQuery.Draft.Basic

/-! # Grouping

Rows are grouped by the keys of one or more selectors. What comes after sees a group: a record with
the `key` and the `elements`, of which the latter make sense inside aggregates only. -/

namespace EntityQuery
set_option autoImplicit false

/-- How rows are grouped, and what becomes of the groups. -/
structure Grouping where
  keys : List Lambda
  having : List Lambda := []
  -- Without any, the sorting stays as it is.
  orderings : List (Lambda × Sql.Direction) := []
  selector : Lambda

namespace Draft

/-- The expressions and the shape of a group key. -/
def groupKey (d : Draft) (env : Env) (f : Lambda) :
    Except CompileError (List Sql.Expr × Shape) := do
  let s ← d.scopeOf env f d.result
  let keys ← s.groupKeys f
  let shape ← s.selection f
  return (keys, shape)

/-- The members `item1`, `item2`, … of a key made by several selectors. -/
def itemMembers : Nat → List Shape → List (String × Shape)
  | _, [] => []
  | k, s :: ss => ("item" ++ toString k, s) :: itemMembers (k + 1) ss

/-- The shape of a group's key: what the one selector selects, or a record of what several do. -/
def keyShape : List Shape → Shape
  | [shape] => shape
  | shapes => .object { members := itemMembers 1 shapes }

/-- The shape of a group, which has a key and elements. -/
def groupShape (key elements : Shape) : Shape :=
  .object { members := [("key", key), ("elements", elements)] }

/-- The condition that a predicate puts on a group. -/
def groupCondition (d : Draft) (env : Env) (group : Shape) (f : Lambda) :
    Except CompileError Sql.Expr := do
  let s ← d.scopeOf env f group
  s.predicate f

/-- The ordering of groups by a lambda. -/
def groupOrdering (d : Draft) (env : Env) (group : Shape) (o : Lambda × Sql.Direction) :
    Except CompileError Sql.Ordering := do
  let s ← d.scopeOf env o.1 group
  let expr ← s.expression o.1
  return { expr, direction := o.2 }

/-- Replaces the orderings, if there are any to replace them by. -/
def setOrderings (d : Draft) (orderings : List Sql.Ordering) : Draft :=
  if orderings.isEmpty then d else { d with orderings, inherited := false }

/-- Groups the rows by what the key selectors select. The conditions, the orderings and the selector
are read with their parameter bound to the group. -/
def group (d : Draft) (env : Env) (g : Grouping) : Except CompileError Draft := do
  d.ensureNoCollection "GroupBy"
  if g.keys.isEmpty then .error (.unsupported .noGroupKeys)
  else
    let keys ← g.keys.mapM (d.groupKey env)
    let shape := groupShape (keyShape (keys.map (·.2))) d.result
    let having ← g.having.mapM (d.groupCondition env shape)
    let orderings ← g.orderings.mapM (d.groupOrdering env shape)
    let s ← d.scopeOf env g.selector shape
    let result ← s.selection g.selector
    let grouped := { d with groupBy := d.groupBy ++ keys.flatMap (·.1) }
    return { (having.foldl addHaving grouped).setOrderings orderings with result }

end Draft

end EntityQuery
