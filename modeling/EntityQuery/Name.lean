/-! # Fresh names

A fresh name is the first of `base`, `base1`, `base2`, … that no taken name clashes with. The
numbers tried need not exceed the number of taken names: among one more candidate than there are
taken names, one is free. -/

namespace EntityQuery.Name
set_option autoImplicit false

/-- The `k`-th name tried for `base`: `base` itself, then `base1`, `base2` and so on. -/
def candidate (base : String) : Nat → String
  | 0 => base
  | k + 1 => base ++ toString (k + 1)

/-- The first free candidate from the `k`-th on, looking at no more than `tries` of them before
settling for the next one. -/
def firstFree (isTaken : String → Bool) (base : String) : Nat → Nat → String
  | 0, k => candidate base k
  | tries + 1, k =>
    if isTaken (candidate base k) then firstFree isTaken base tries (k + 1) else candidate base k

/-- The first candidate for `base` that clashes with none of the taken names. -/
def fresh (clashes : String → String → Bool) (taken : List String) (base : String) : String :=
  firstFree (fun name => taken.any (clashes name)) base taken.length 0

def exactly (a b : String) : Bool := a == b

/-- Names clash when they differ at most in the case of ASCII letters. -/
def ignoringCase (a b : String) : Bool := a.toLower == b.toLower

end EntityQuery.Name
