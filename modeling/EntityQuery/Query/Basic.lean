import EntityQuery.Draft.Group
import EntityQuery.Draft.Load

/-! # Queries

A query is a draft together with the stage it has reached, which decides what the next operator can
add to the same statement. -/

namespace EntityQuery
set_option autoImplicit false

/-- What a query has been narrowed to. -/
inductive Stage where
  | general
  | skip (count : Nat)
  | take (count : Nat)
  | limit (skip take : Nat)
  | distinct
  | aggregate
  | grouping
deriving DecidableEq

/-- What messages call a stage. -/
def Stage.name : Stage → String
  | .general => "General"
  | .skip _ => "Skip"
  | .take _ => "Take"
  | .limit _ _ => "Limit"
  | .distinct => "Distinct"
  | .aggregate => "Aggregate"
  | .grouping => "Grouping"

/-- A query in the making. -/
structure Query where
  draft : Draft
  stage : Stage := .general

namespace Query

/-- The query for all rows of an entity. -/
def root (env : Env) (entity : String) : Except CompileError Query := do
  let draft ← Draft.root env entity
  return { draft }

/-- The statement of a query, without columns yet: the clauses of the draft and what the stage adds. -/
def statement (q : Query) : Sql.Statement :=
  match q.stage with
  | .skip n => { q.draft.statement with skip := some n }
  | .take n => { q.draft.statement with take := some n }
  | .limit s t => { q.draft.statement with skip := some s, take := some t }
  | .distinct => { q.draft.statement with distinct := true }
  | _ => q.draft.statement

end Query

/-- An operator of a query. The inner query of a join is built before. -/
inductive Operator where
  | filter (predicate : Lambda)
  | orderBy (key : Lambda) (direction : Sql.Direction) (placement : Placement)
  | select (selector : Lambda)
  | skip (count : Nat)
  | take (count : Nat)
  | distinct
  | aggregate (function : Sql.AggregateFunction) (args : List Lambda) (distinct : Bool)
  | groupBy (grouping : Grouping)
  | load (chain : NavigationChain)
  | join (kind : Sql.JoinKind) (inner : Query) (condition selector : Lambda)

/-- What messages call an operator. -/
def Operator.name : Operator → String
  | .filter _ => "Where"
  | .orderBy _ _ .primary => "OrderBy"
  | .orderBy _ _ .secondary => "ThenBy"
  | .select _ => "Select"
  | .skip _ => "Skip"
  | .take _ => "Take"
  | .distinct => "Distinct"
  | .aggregate .. => "Aggregate"
  | .groupBy _ => "GroupBy"
  | .load _ => "Include"
  | .join .. => "Join"

end EntityQuery
