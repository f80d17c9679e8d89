import EntityQuery.Query.Basic

/-! # Queries as derived tables

A query can be wrapped as a derived table, to go on from it or to join it to another query. Its
result and its orderings become columns of the wrapped statement. -/

namespace EntityQuery
set_option autoImplicit false

/-- Orderings as they are seen through a derived table that holds the statement. -/
def rebindOrderings (base table : String) :
    List Sql.Ordering → Sql.Statement → List Sql.Ordering × Sql.Statement
  | [], st => ([], st)
  | o :: os, st =>
    let (st, expr) := st.expose o.expr none base table
    let (os, st) := rebindOrderings base table os st
    ({ o with expr } :: os, st)

namespace Query

/-- A query seen through a derived table. -/
structure Wrapped where
  statement : Sql.Statement
  result : Shape
  orderings : List Sql.Ordering

/-- The query seen through a derived table of the given alias. The scalars of the result and then the
orderings become columns, equal ones only once. -/
def wrap (q : Query) (env : Env) (table : String) : Wrapped :=
  let base := env.settings.columnStem
  let (result, st) := q.draft.result.rebind base table none q.statement
  let (orderings, st) := rebindOrderings base table q.draft.orderings st
  { statement := st, result, orderings }

/-- The draft that reads from the query as a derived table. -/
def promote (q : Query) (env : Env) : Except CompileError Draft := do
  q.draft.ensureNoCollection "Subquery promotion"
  let (label, aliases) := q.draft.aliases.enclose env.settings.tableStem
  let w := q.wrap env label
  return {
    bindings := q.draft.bindings
    aliases
    sources := ⟨.derived w.statement label, []⟩
    orderings := w.orderings
    inherited := true
    result := w.result }

/-- The query that reads from the query as a derived table. -/
def asSubquery (q : Query) (env : Env) : Except CompileError Query := do
  let draft ← q.promote env
  return { draft }

/-- A query as the right side of a join. -/
structure JoinSide where
  result : Shape
  join : Sql.Join

/-- The join with a query whose alias is already taken. -/
def joinUnder (q : Query) (env : Env) (kind : Sql.JoinKind) (condition : Lambda)
    (bindings : Bindings) (aliases : Aliases) (label : String) : Except CompileError JoinSide := do
  let w := q.wrap env label
  let p ← condition.lastParam
  let s : Scope :=
    { bindings := bindings.bind p w.result, aliases, depthLimit := env.settings.expressionDepth }
  let on ← s.predicate condition
  return { result := w.result, join := { kind, source := .derived w.statement label, on } }

/-- The query as the right side of a join, for a query with the given bindings and aliases. The
aliases are given back also on failure, because one may have been taken. -/
def joinSide (q : Query) (env : Env) (kind : Sql.JoinKind) (condition : Lambda)
    (bindings : Bindings) (aliases : Aliases) : Aliases × Except CompileError JoinSide :=
  match q.draft.ensureNoCollection "Join" with
  | .error e => (aliases, .error e)
  | .ok () =>
    let (label, aliases) := aliases.reserve env.settings.tableStem
    (aliases, q.joinUnder env kind condition bindings aliases label)

/-- Joins `inner` to the query, which is wrapped first. -/
def join (q : Query) (env : Env) (kind : Sql.JoinKind) (inner : Query)
    (condition selector : Lambda) : Except CompileError Query := do
  condition.expectArity 2
  selector.expectArity 2
  let outer ← q.promote env
  let bindings := outer.bindings.bind (← condition.firstParam) outer.result
  let (aliases, side) := inner.joinSide env kind condition bindings outer.aliases
  let side ← side
  let outer := { outer with aliases, sources := outer.sources.join side.join }
  let bindings := (outer.bindings.bind (← selector.firstParam) outer.result).bind
    (← selector.lastParam) side.result
  let result ← (outer.scope env bindings).selection selector
  return { draft := { outer with result } }

end Query

end EntityQuery
