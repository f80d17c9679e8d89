import EntityQuery.Error
import EntityQuery.Lambda.Term

/-! # Parameters of lambdas -/

namespace EntityQuery.Lambda
set_option autoImplicit false

/-- Fails unless the lambda has exactly so many parameters. -/
def expectArity (f : Lambda) (expected : Nat) : Except CompileError Unit :=
  if f.params.length == expected then .ok () else .error (.arity expected f.params.length)

def firstParam (f : Lambda) : Except CompileError Param :=
  match f.params.head? with
  | some p => .ok p
  | none => .error (.arity 1 0)

def lastParam (f : Lambda) : Except CompileError Param :=
  match f.params.getLast? with
  | some p => .ok p
  | none => .error (.arity 1 0)

end EntityQuery.Lambda
