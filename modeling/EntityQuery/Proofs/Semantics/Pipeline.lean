import EntityQuery.Proofs.Semantics.Lambda
import EntityQuery.Proofs.Semantics.Statement
import EntityQuery.Proofs.Translation
import EntityQuery.Query.Compile

/-! # The meaning of row-level operators

A relation is a list of data of one form. Each row-level operator makes one relation of another, by
what its lambdas make of the data. Statements and stages play no part here: this is what a chain of
operators is meant to compute. -/

namespace EntityQuery
set_option autoImplicit false

/-! ## Relations -/

/-- Data of one form. The form is kept as a datum with all scalars null, which is what outer joins
put in place of a missing side. -/
structure Relation where
  rows : List Datum
  blank : Datum

/-- The object of an entity's row: its columns. -/
def Datum.ofEntity (e : Entity) (row : String → Json) : Datum :=
  .object e.key (Entries.ofList (e.primitives.map fun p => (p.name, .scalar (row p.columnName))))

namespace Relation

/-- The objects of an entity's table. -/
def ofEntity (db : Database) (e : Entity) : Relation :=
  ⟨(db e.table).map (Datum.ofEntity e), Datum.ofEntity e fun _ => .null⟩

variable (I : Interpretation)

/-- Keeps the data for which the predicate is true. -/
def filter (r : Relation) (f : Lambda) : Relation :=
  { r with rows := r.rows.filter fun d => I.holds (f.eval I [d]).value = some true }

/-- Makes something of each datum. -/
def select (r : Relation) (f : Lambda) : Relation :=
  ⟨r.rows.map fun d => f.eval I [d], (f.eval I [r.blank]).blank⟩

def skip (r : Relation) (n : Nat) : Relation := { r with rows := r.rows.drop n }

def take (r : Relation) (n : Nat) : Relation := { r with rows := r.rows.take n }

/-- Keeps the first of data that are the same. -/
def distinct (r : Relation) : Relation := { r with rows := firsts (Datum.same I) r.rows }

/-- Makes something of the pairs that satisfy a condition. -/
def join (r : Relation) (kind : Sql.JoinKind) (s : Relation) (condition selector : Lambda) : Relation :=
  ⟨kind.pairs (fun a b => I.holds (condition.eval I [a, b]).value = some true)
      (fun a b => selector.eval I [a, b]) r.blank s.blank r.rows s.rows,
    (selector.eval I [r.blank, s.blank]).blank⟩

/-- Collapses the data to one aggregate of the values of the arguments. -/
def aggregate (r : Relation) (function : Sql.AggregateFunction) (args : List Lambda)
    (distinct : Bool) : Relation :=
  ⟨[.scalar (I.aggregate function distinct
      (r.rows.map fun d => args.map fun f => (f.eval I [d]).value))], .scalar .null⟩

end Relation

/-! ## Commands -/

/-- A row-level operator whose inner query, if it joins one, is still to be built. -/
inductive Command where
  | filter (predicate : Lambda)
  | select (selector : Lambda)
  | skip (count : Nat)
  | take (count : Nat)
  | distinct
  | join (kind : Sql.JoinKind) (entity : String) (inner : List Command) (condition selector : Lambda)
  | aggregate (function : Sql.AggregateFunction) (args : List Lambda) (distinct : Bool)

namespace Command

mutual

/-- The operator of a command; the inner query of a join is built first. -/
def operator (env : Env) : Command → Except CompileError Operator
  | .filter f => .ok (.filter f)
  | .select f => .ok (.select f)
  | .skip n => .ok (.skip n)
  | .take n => .ok (.take n)
  | .distinct => .ok .distinct
  | .join kind entity inner condition selector => do
    let ops ← operators env inner
    let q ← Query.build env entity ops
    return .join kind q condition selector
  | .aggregate function args d => .ok (.aggregate function args d)

def operators (env : Env) : List Command → Except CompileError (List Operator)
  | [] => .ok []
  | c :: cs => do
    let op ← operator env c
    let ops ← operators env cs
    return op :: ops

end

variable (I : Interpretation) (db : Database) (catalog : Catalog)

mutual

/-- What a command makes of a relation. Joining an entity that is not there changes nothing. -/
def run : Command → Relation → Relation
  | .filter f, r => r.filter I f
  | .select f, r => r.select I f
  | .skip n, r => r.skip n
  | .take n, r => r.take n
  | .distinct, r => r.distinct I
  | .join kind entity inner condition selector, r =>
    match catalog.entity? entity with
    | some e => r.join I kind (runAll inner (.ofEntity db e)) condition selector
    | none => r
  | .aggregate function args d, r => r.aggregate I function args d

/-- What commands make of a relation, one after the other. -/
def runAll : List Command → Relation → Relation
  | [], r => r
  | c :: cs, r => runAll cs (run c r)

end

mutual

/-- Every relation that comes up inside the command has at most `maxCount` rows. -/
def Small : Command → Prop
  | .join _ entity inner _ _ =>
    ∀ e, catalog.entity? entity = some e → AllSmall inner (.ofEntity db e)
  | _ => True

/-- Every relation that comes up while the commands are run has at most `maxCount` rows. -/
def AllSmall : List Command → Relation → Prop
  | [], r => r.rows.length ≤ maxCount
  | c :: cs, r => r.rows.length ≤ maxCount ∧ Small c ∧ AllSmall cs (run I db catalog c r)

end

end Command

/-- Whether the lambda has no aggregates and compares nulls only. -/
def Lambda.isRowLevel (f : Lambda) : Bool := !f.body.hasAggregate && f.body.comparesNulls

namespace Command

mutual

/-- Whether all lambdas of the command are row-level. -/
def isRowLevel : Command → Bool
  | .filter f => f.isRowLevel
  | .select f => f.isRowLevel
  | .skip _ => true
  | .take _ => true
  | .distinct => true
  | .join _ _ inner condition selector =>
    allRowLevel inner && condition.isRowLevel && selector.isRowLevel
  | .aggregate _ args _ => args.all Lambda.isRowLevel

def allRowLevel : List Command → Bool
  | [] => true
  | c :: cs => isRowLevel c && allRowLevel cs

end

end Command

end EntityQuery
