import EntityQuery.Scope

/-! # Members

A chain of members that starts at a parameter denotes a shape. -/

namespace EntityQuery.Scope
set_option autoImplicit false

/-- The shape that a parameter stands for. -/
def lookup (s : Scope) (p : Param) : Except CompileError Shape :=
  match s.bindings.get? p with
  | some shape => .ok shape
  | none => .error (.unboundParam p.name)

/-- The member of a shape. -/
def memberOf (shape : Shape) (name : String) : Except CompileError Shape :=
  match shape.member? name with
  | some m => .ok m
  | none => .error (.unknownMember name)

/-- The shape that a chain of members denotes, or `none` if the term is no chain from a parameter.
Every link counts as one level of nesting. -/
def resolve (s : Scope) : Term → Nat → Except CompileError (Option Shape)
  | .param p, depth => do
    let _ ← s.enter depth
    return some (← s.lookup p)
  | .member t name, depth => do
    let depth ← s.enter depth
    match ← s.resolve t depth with
    | some shape => return some (← memberOf shape name)
    | none => return none
  | _, depth => do
    let _ ← s.enter depth
    return none

end EntityQuery.Scope
