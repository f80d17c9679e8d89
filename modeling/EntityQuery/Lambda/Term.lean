import EntityQuery.Sql.Expr

/-! # Lambdas

Functions of rows as a query is written with them: parameters, members of what they stand for,
operations, and records of named results. -/

namespace EntityQuery
set_option autoImplicit false

/-- A parameter of a lambda. The `id` says which one it is; the name is for messages. -/
structure Param where
  id : Nat
  name : String

def Param.same (a b : Param) : Bool := a.id == b.id

instance : BEq Param := ⟨Param.same⟩

/-- A binary operator. -/
inductive BinaryOp where
  | compare (op : Sql.Comparator)
  | and
  | or
  | arithmetic (op : Sql.Arithmetic)
deriving DecidableEq

/-- The body of a lambda. -/
inductive Term where
  | param (param : Param)
  | member (target : Term) (name : String)
  | const (value : Literal)
  | binary (op : BinaryOp) (left right : Term)
  | not (operand : Term)
  | negate (operand : Term)
  | call (function : String) (args : List Term)
  | isIn (operand : Term) (items : List Term)
  -- Over the rows of the group at hand.
  | aggregate (function : Sql.AggregateFunction) (argument : Option Term) (distinct : Bool)
  | record (members : List (String × Term))

namespace Term

mutual

/-- Structural equality, with parameters compared by id and floats as numbers. -/
def same : Term → Term → Bool
  | .param a, .param b => a == b
  | .member t m, .member t' m' => same t t' && m == m'
  | .const a, .const b => a == b
  | .binary o l r, .binary o' l' r' => o == o' && same l l' && same r r'
  | .not t, .not t' => same t t'
  | .negate t, .negate t' => same t t'
  | .call f as, .call f' as' => f == f' && sameAll as as'
  | .isIn t is, .isIn t' is' => same t t' && sameAll is is'
  | .aggregate f a d, .aggregate f' a' d' => f == f' && sameOption a a' && d == d'
  | .record ms, .record ms' => sameMembers ms ms'
  | _, _ => false

def sameAll : List Term → List Term → Bool
  | [], [] => true
  | t :: ts, t' :: ts' => same t t' && sameAll ts ts'
  | _, _ => false

def sameOption : Option Term → Option Term → Bool
  | none, none => true
  | some t, some t' => same t t'
  | _, _ => false

def sameMembers : List (String × Term) → List (String × Term) → Bool
  | [], [] => true
  | (n, t) :: ms, (n', t') :: ms' => n == n' && same t t' && sameMembers ms ms'
  | _, _ => false

end

instance : BEq Term := ⟨same⟩

end Term

/-- A function of one or more rows. -/
structure Lambda where
  params : List Param
  body : Term

def Lambda.same (a b : Lambda) : Bool := a.params == b.params && a.body == b.body

instance : BEq Lambda := ⟨Lambda.same⟩

end EntityQuery
