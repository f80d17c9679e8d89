import EntityQuery.Literal

/-! # SQL expressions

Expression trees over columns and literals. Equality is structural, except that float literals are
compared as numbers. -/

namespace EntityQuery.Sql
set_option autoImplicit false

/-- A comparison operator. -/
inductive Comparator where
  | eq
  | ne
  | lt
  | le
  | gt
  | ge
deriving DecidableEq

/-- An arithmetic operator. -/
inductive Arithmetic where
  | add
  | sub
  | mul
  | div
  | mod
deriving DecidableEq

/-- An aggregate function. The two counts differ only in the width of the number they stand for. -/
inductive AggregateFunction where
  | count
  | longCount
  | sum
  | avg
  | min
  | max
deriving DecidableEq

/-- Only the counts may be called without an argument. -/
def AggregateFunction.allowsNoArgument : AggregateFunction → Bool
  | .count | .longCount => true
  | _ => false

/-- A column of the table visible under an alias. -/
structure Column where
  table : String
  name : String
deriving DecidableEq

/-- A SQL expression. An aggregate without arguments ranges over whole rows. -/
inductive Expr where
  | column (column : Column)
  | literal (value : Literal)
  | compare (op : Comparator) (left right : Expr)
  | arithmetic (op : Arithmetic) (left right : Expr)
  | and (parts : List Expr)
  | or (parts : List Expr)
  | not (operand : Expr)
  | negate (operand : Expr)
  | isNull (operand : Expr) (negated : Bool)
  | inList (operand : Expr) (items : List Expr) (negated : Bool)
  | call (function : String) (args : List Expr)
  | aggregate (function : AggregateFunction) (args : List Expr) (distinct : Bool)

namespace Expr

/-! ## Equality -/

mutual

/-- Structural equality, with float literals compared as numbers. -/
def same : Expr → Expr → Bool
  | .column a, .column b => a == b
  | .literal a, .literal b => a == b
  | .compare o l r, .compare o' l' r' => o == o' && same l l' && same r r'
  | .arithmetic o l r, .arithmetic o' l' r' => o == o' && same l l' && same r r'
  | .and ps, .and ps' => sameAll ps ps'
  | .or ps, .or ps' => sameAll ps ps'
  | .not e, .not e' => same e e'
  | .negate e, .negate e' => same e e'
  | .isNull e n, .isNull e' n' => same e e' && n == n'
  | .inList e is n, .inList e' is' n' => same e e' && sameAll is is' && n == n'
  | .call f as, .call f' as' => f == f' && sameAll as as'
  | .aggregate f as d, .aggregate f' as' d' => f == f' && sameAll as as' && d == d'
  | _, _ => false

def sameAll : List Expr → List Expr → Bool
  | [], [] => true
  | e :: es, e' :: es' => same e e' && sameAll es es'
  | _, _ => false

end

instance : BEq Expr := ⟨same⟩

/-! ## Nodes -/

mutual

/-- The expression and all its parts, each node before its children. -/
def nodes : Expr → List Expr
  | .column c => [.column c]
  | .literal v => [.literal v]
  | .compare o l r => .compare o l r :: (nodes l ++ nodes r)
  | .arithmetic o l r => .arithmetic o l r :: (nodes l ++ nodes r)
  | .and ps => .and ps :: nodesAll ps
  | .or ps => .or ps :: nodesAll ps
  | .not e => .not e :: nodes e
  | .negate e => .negate e :: nodes e
  | .isNull e n => .isNull e n :: nodes e
  | .inList e is n => .inList e is n :: (nodes e ++ nodesAll is)
  | .call f as => .call f as :: nodesAll as
  | .aggregate f as d => .aggregate f as d :: nodesAll as

def nodesAll : List Expr → List Expr
  | [] => []
  | e :: es => nodes e ++ nodesAll es

end

def column? : Expr → Option Column
  | .column c => some c
  | _ => none

/-- The columns that an expression mentions, in the order of its nodes. -/
def columns (e : Expr) : List Column := e.nodes.filterMap column?

/-! ## Predicates -/

/-- Whether the expression is a truth value by its form. -/
def isPredicate : Expr → Bool
  | .compare .. | .and _ | .or _ | .not _ | .isNull .. | .inList .. => true
  | .literal (.bool _) => true
  | _ => false

/-- The expression as a truth value: a scalar is compared with `TRUE`. -/
def asPredicate (e : Expr) : Expr :=
  if e.isPredicate then e else .compare .eq e (.literal (.bool true))

/-- The conjuncts of an expression. -/
def conjuncts : Expr → List Expr
  | .and ps => ps
  | e => [e]

/-- The disjuncts of an expression. -/
def disjuncts : Expr → List Expr
  | .or ps => ps
  | e => [e]

/-- Adds a condition to one that may be absent, which stands for true. Conjunctions are flattened
by one level on both sides. -/
def andAlso : Option Expr → Expr → Expr
  | none, next => next
  | some e, next => .and (e.conjuncts ++ next.conjuncts)

end Expr

end EntityQuery.Sql
