import EntityQuery.Lambda.Dump
import EntityQuery.Denotation.Member

/-! # Scalars and predicates

A term denotes a SQL expression where it stands for a scalar. Comparisons with the null constant
become tests for null; operands of logical operations are read as truth values. -/

namespace EntityQuery
set_option autoImplicit false

namespace Sql.Expr

def isNullConstant : Expr → Bool
  | .literal .null => true
  | _ => false

/-- The test for null that a comparison with the null constant stands for. -/
def nullTest (op : Comparator) (subject : Expr) : Except CompileError Expr :=
  match op with
  | .eq => .ok (.isNull subject false)
  | .ne => .ok (.isNull subject true)
  | op => .error (.unsupported (.orderAgainstNull op))

/-- The comparison of two expressions. -/
def comparison (op : Comparator) (left right : Expr) : Except CompileError Expr :=
  match left.isNullConstant, right.isNullConstant with
  | true, true => .error (.unsupported .nullAgainstNull)
  | false, true => nullTest op left
  | true, false => nullTest op right
  | false, false => .ok (.compare op left right)

/-- The operation of two expressions. Conjunctions and disjunctions are flattened by one level. -/
def operation (op : BinaryOp) (left right : Expr) : Except CompileError Expr :=
  match op with
  | .compare op => comparison op left right
  | .and => .ok (.and (left.asPredicate.conjuncts ++ right.asPredicate.conjuncts))
  | .or => .ok (.or (left.asPredicate.disjuncts ++ right.asPredicate.disjuncts))
  | .arithmetic op => .ok (.arithmetic op left right)

end Sql.Expr

namespace Scope

/-- The scalar that a chain of members denotes. -/
def scalarMember (s : Scope) (t : Term) (depth : Nat) : Except CompileError Sql.Expr := do
  match ← s.resolve t depth with
  | some (.scalar e) =>
    s.checkColumns e
    return e
  | some _ => .error (.unsupported (.notScalar t.describe))
  | none => .error (.unsupported (.notRooted t.describe))

mutual

/-- The expression that a term denotes. Every node counts as one level of nesting. -/
def scalar (s : Scope) : Term → Nat → Except CompileError Sql.Expr
  | .param p, depth => do
    let depth ← s.enter depth
    s.scalarMember (.param p) depth
  | .member t name, depth => do
    let depth ← s.enter depth
    s.scalarMember (.member t name) depth
  | .const v, depth => do
    let _ ← s.enter depth
    return .literal v
  | .binary op l r, depth => do
    let depth ← s.enter depth
    let l ← s.scalar l depth
    let r ← s.scalar r depth
    Sql.Expr.operation op l r
  | .not t, depth => do
    let depth ← s.enter depth
    let e ← s.scalar t depth
    return .not e.asPredicate
  | .negate t, depth => do
    let depth ← s.enter depth
    let e ← s.scalar t depth
    return .negate e
  | .call f as, depth => do
    let depth ← s.enter depth
    let as ← s.scalars as depth
    return .call f.toUpper as
  | .isIn t is, depth => do
    let depth ← s.enter depth
    let e ← s.scalar t depth
    let is ← s.scalars is depth
    return .inList e is false
  | .aggregate f none distinct, depth => do
    let _ ← s.enter depth
    if f.allowsNoArgument then return .aggregate f [] distinct
    else .error (.unsupported (.missingArgument f))
  | .aggregate f (some t) distinct, depth => do
    let depth ← s.enter depth
    let e ← s.scalar t depth
    return .aggregate f [e] distinct
  | .record _, depth => do
    let _ ← s.enter depth
    .error (.unsupported .recordAsScalar)

/-- The expressions that terms denote, one after the other. -/
def scalars (s : Scope) : List Term → Nat → Except CompileError (List Sql.Expr)
  | [], _ => .ok []
  | t :: ts, depth => do
    let e ← s.scalar t depth
    let es ← s.scalars ts depth
    return e :: es

end

/-- The expression that a lambda computes. -/
def expression (s : Scope) (f : Lambda) : Except CompileError Sql.Expr := s.scalar f.body 0

/-- The condition that a lambda states. -/
def predicate (s : Scope) (f : Lambda) : Except CompileError Sql.Expr := do
  let e ← s.expression f
  return e.asPredicate

end Scope

end EntityQuery
