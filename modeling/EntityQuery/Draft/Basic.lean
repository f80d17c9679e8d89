import EntityQuery.Catalog.Basic
import EntityQuery.Lambda.Arity
import EntityQuery.Settings
import EntityQuery.Shape.Projection
import EntityQuery.Denotation.Selection

/-! # Drafts

A draft is a statement in the making: its clauses so far, the shape of its result, and the names in
use. Lambdas are read with their parameter bound to the shape of the result. -/

namespace EntityQuery
set_option autoImplicit false

/-- What compilations share. -/
structure Env where
  catalog : Catalog
  settings : Settings := {}

/-- The entity of a name. -/
def Env.entity (env : Env) (name : String) : Except CompileError Entity :=
  match env.catalog.entity? name with
  | some e => .ok e
  | none => .error (.unknownEntity name)

/-- A statement in the making. -/
structure Draft where
  bindings : Bindings := {}
  aliases : Aliases
  sources : Sql.Sources
  condition : Option Sql.Expr := none
  groupBy : List Sql.Expr := []
  having : Option Sql.Expr := none
  orderings : List Sql.Ordering := []
  -- Carried over from a wrapped statement, not asked for.
  inherited : Bool := false
  result : Shape

/-- Whether an ordering starts a sort or refines the one before it. -/
inductive Placement where
  | primary
  | secondary
deriving DecidableEq

namespace Draft

/-- The draft that reads all rows of an entity. -/
def root (env : Env) (entity : String) : Except CompileError Draft := do
  let e ← env.entity entity
  let (label, aliases) := ({} : Aliases).reserve e.table
  return { aliases, sources := ⟨.table e.table label, []⟩, result := .object (.ofEntity e label) }

/-- The statement with the clauses of the draft and no columns yet. -/
def statement (d : Draft) : Sql.Statement :=
  { sources := d.sources
    condition := d.condition
    groupBy := d.groupBy
    having := d.having
    orderings := d.orderings }

/-- Keeps only the rows for which the condition holds too. -/
def addCondition (d : Draft) (e : Sql.Expr) : Draft :=
  { d with condition := some (Sql.Expr.andAlso d.condition e) }

/-- Keeps only the groups for which the condition holds too. -/
def addHaving (d : Draft) (e : Sql.Expr) : Draft :=
  { d with having := some (Sql.Expr.andAlso d.having e) }

/-- Fails if the result holds a collection, whose rows the operation would take for rows of the
result. -/
def ensureNoCollection (d : Draft) (operation : String) : Except CompileError Unit :=
  if d.result.hasCollection then .error (.notProvided (.overCollections operation)) else .ok ()

/-- The scope of the draft with the given bindings. -/
def scope (d : Draft) (env : Env) (bindings : Bindings) : Scope :=
  { bindings, aliases := d.aliases, depthLimit := env.settings.expressionDepth }

/-- The scope of a lambda whose one parameter stands for `shape`. -/
def scopeOf (d : Draft) (env : Env) (f : Lambda) (shape : Shape) : Except CompileError Scope := do
  f.expectArity 1
  let p ← f.firstParam
  return d.scope env (d.bindings.bind p shape)

/-! ## Operations -/

/-- Keeps the rows that satisfy a predicate. -/
def filter (d : Draft) (env : Env) (f : Lambda) : Except CompileError Draft := do
  let s ← d.scopeOf env f d.result
  let e ← s.predicate f
  return d.addCondition e

/-- Sorts the rows. A primary ordering replaces those before it, and inherited ones are always
replaced. -/
def orderBy (d : Draft) (env : Env) (f : Lambda) (direction : Sql.Direction)
    (placement : Placement) : Except CompileError Draft := do
  let s ← d.scopeOf env f d.result
  let expr ← s.expression f
  if d.inherited || placement == .primary then
    return { d with orderings := [{ expr, direction }], inherited := false }
  else return { d with orderings := d.orderings ++ [{ expr, direction }] }

/-- Replaces the result by what a selector makes of it. -/
def select (d : Draft) (env : Env) (f : Lambda) : Except CompileError Draft := do
  d.ensureNoCollection "Select"
  let s ← d.scopeOf env f d.result
  let result ← s.selection f
  return { d with result }

/-- The expression of a lambda on the result. -/
def argument (d : Draft) (env : Env) (f : Lambda) : Except CompileError Sql.Expr := do
  let s ← d.scopeOf env f d.result
  s.expression f

/-- Collapses the rows to one aggregate. Sorting and grouping are dropped. -/
def aggregate (d : Draft) (env : Env) (function : Sql.AggregateFunction) (args : List Lambda)
    (distinct : Bool) : Except CompileError Draft := do
  d.ensureNoCollection "Aggregate"
  if args.isEmpty && !function.allowsNoArgument then
    .error (.unsupported (.missingArgument function))
  else
    let args ← args.mapM (d.argument env)
    return {
      bindings := d.bindings
      aliases := d.aliases
      sources := d.sources
      condition := d.condition
      result := .scalar (.aggregate function args distinct) }

end Draft

end EntityQuery
