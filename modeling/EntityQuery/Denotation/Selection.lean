import EntityQuery.Denotation.Scalar

/-! # Selections and group keys

A selector denotes a shape, a group key selector the expressions to group by. -/

namespace EntityQuery.Scope
set_option autoImplicit false

/-- The shape of a term that is no record: that of a chain of members, else a scalar. -/
def shapeOf (s : Scope) (t : Term) (depth : Nat) : Except CompileError Shape := do
  match ← s.resolve t depth with
  | some shape =>
    s.checkAll shape.leaves
    return shape
  | none => return .scalar (← s.scalar t depth)

mutual

/-- The shape that a term denotes: an object for a record, what a chain of members stands for, or else
a scalar. -/
def shape (s : Scope) : Term → Nat → Except CompileError Shape
  | .record members, depth => do
    let depth ← s.enter depth
    let members ← s.shapes members depth []
    return .object { members }
  | .param p, depth => do
    let depth ← s.enter depth
    s.shapeOf (.param p) depth
  | .member t name, depth => do
    let depth ← s.enter depth
    s.shapeOf (.member t name) depth
  | t, depth => do
    let depth ← s.enter depth
    return .scalar (← s.scalar t depth)

/-- The members of a record after those of `done`. No two may have one name. -/
def shapes (s : Scope) : List (String × Term) → Nat → List (String × Shape) →
    Except CompileError (List (String × Shape))
  | [], _, done => .ok done
  | (name, t) :: ms, depth, done => do
    if Entries.has name done then .error (.unsupported (.duplicateMember name))
    else
      let shape ← s.shape t depth
      s.shapes ms depth (done ++ [(name, shape)])

end

/-- The shape that a lambda selects. -/
def selection (s : Scope) (f : Lambda) : Except CompileError Shape := s.shape f.body 0

/-- The expressions that a term stands for as a group key: all scalars of the shape it denotes. -/
def keysOf (s : Scope) (t : Term) (depth : Nat) : Except CompileError (List Sql.Expr) := do
  match ← s.resolve t depth with
  | some (.collection ..) => .error (.unsupported (.collectionKey t.describe))
  | some shape =>
    s.checkAll shape.leaves
    return shape.leaves
  | none => return [← s.scalar t depth]

/-- The group keys that the members of a record stand for, one after the other. -/
def keysOfAll (s : Scope) : List (String × Term) → Nat → Except CompileError (List Sql.Expr)
  | [], _ => .ok []
  | (_, t) :: ms, depth => do
    let keys ← s.keysOf t depth
    let more ← s.keysOfAll ms depth
    return keys ++ more

/-- The expressions that a lambda groups by. Of a record these are the keys of its members, which may
not be records again. -/
def groupKeys (s : Scope) (f : Lambda) : Except CompileError (List Sql.Expr) :=
  match f.body with
  | .record members => do
    let depth ← s.enter 0
    s.keysOfAll members depth
  | t => s.keysOf t 0

end EntityQuery.Scope
