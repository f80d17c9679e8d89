import EntityQuery.Query.Derived
import EntityQuery.Reader

/-! # Compilation

A query is built operator by operator. An operator that fits the stage is added to the statement at
hand; any other is added to a statement that reads from it. A finished query gives a statement and
the recipe to read its rows. -/

namespace EntityQuery
set_option autoImplicit false

/-- The largest number of rows that can be left out. -/
def maxCount : Nat := 0xFFFFFFFFFFFFFFFF

namespace Query

/-- Loads a navigation chain. -/
def load (d : Draft) (env : Env) (chain : NavigationChain) : Except CompileError Draft :=
  match d.load env chain with
  | (d, none) => .ok d
  | (_, some e) => .error e

/-- Adds an operator to a query at the general stage, which takes every operator. -/
def acceptGeneral (d : Draft) (env : Env) (op : Operator) : Except CompileError Query := do
  match op with
  | .filter f => return { draft := ← d.filter env f }
  | .orderBy f direction placement => return { draft := ← d.orderBy env f direction placement }
  | .select f => return { draft := ← d.select env f }
  | .skip n =>
    d.ensureNoCollection "Skip"
    return { draft := d, stage := .skip n }
  | .take n =>
    d.ensureNoCollection "Take"
    return { draft := d, stage := .take n }
  | .distinct =>
    d.ensureNoCollection "Distinct"
    return { draft := d, stage := .distinct }
  | .aggregate function args distinct =>
    return { draft := ← d.aggregate env function args distinct, stage := .aggregate }
  | .groupBy g => return { draft := ← d.group env g, stage := .grouping }
  | .load chain => return { draft := ← load d env chain }
  | .join kind inner condition selector =>
    ({ draft := d } : Query).join env kind inner condition selector

/-- Selects without leaving the stage. -/
def selectInPlace (q : Query) (env : Env) (f : Lambda) : Except CompileError Query := do
  return { q with draft := ← q.draft.select env f }

/-- Adds an operator. It goes into the statement at hand if the stage admits that, else into one that
reads from the query as a derived table. Nothing follows an aggregate. -/
def accept (q : Query) (env : Env) (op : Operator) : Except CompileError Query :=
  match q.stage, op with
  | .aggregate, op => .error (.unsupported (.afterAggregate op.name))
  | .general, op => acceptGeneral q.draft env op
  | _, .join kind inner condition selector => q.join env kind inner condition selector
  | stage, .load chain => .error (.unsupported (.includeAfter chain.path stage.name))
  | .skip _, .select f => q.selectInPlace env f
  | .skip n, .skip m => .ok { q with stage := .skip (min (n + m) maxCount) }
  | .skip n, .take m => .ok { q with stage := .limit n m }
  | .take _, .select f => q.selectInPlace env f
  | .take n, .take m => .ok { q with stage := .take (min n m) }
  | .limit _ _, .select f => q.selectInPlace env f
  | .limit s n, .take m => .ok { q with stage := .limit s (min n m) }
  | .distinct, .distinct => .ok q
  | .grouping, .select f => q.selectInPlace env f
  | .grouping, .skip n => .ok { q with stage := .skip n }
  | .grouping, .take n => .ok { q with stage := .take n }
  | .grouping, .distinct => .ok { q with stage := .distinct }
  | _, op => do
    let d ← q.promote env
    acceptGeneral d env op

/-- Adds operators one after the other; the first that fails ends it. -/
def acceptAll (q : Query) (env : Env) (ops : List Operator) : Except CompileError Query :=
  ops.foldlM (fun q op => q.accept env op) q

/-- The query that operators build from an entity. -/
def build (env : Env) (entity : String) (ops : List Operator) : Except CompileError Query := do
  let q ← root env entity
  q.acceptAll env ops

end Query

/-- A finished query: what to execute, and how to read the rows. -/
structure Mapping where
  statement : Sql.Statement
  activator : Activator

namespace Mapping

/-- The statement of a query with the scalars of the result as its columns, equal ones only once, and
the recipe that reads them. -/
def ofQuery (env : Env) (q : Query) : Mapping :=
  let (activator, statement) := q.draft.result.activator env.settings.columnStem none q.statement
  { statement, activator }

/-- The results that rows of the statement hold. -/
def read (m : Mapping) (rows : List Row) : List Json := m.activator.read rows

end Mapping

/-- Compiles operators on an entity: what to execute, and how to read the rows. -/
def compile (env : Env) (entity : String) (ops : List Operator) : Except CompileError Mapping := do
  let q ← Query.build env entity ops
  return Mapping.ofQuery env q

end EntityQuery
