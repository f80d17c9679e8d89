/-! # Activators

An activator is the recipe that builds values from result rows: which cell a scalar is read from,
which cells identify an object, and where collections gather their elements. -/

namespace EntityQuery
set_option autoImplicit false

/-- How a value is built from rows. -/
inductive Activator where
  | cell (ordinal : Nat)
  -- Absent if its identity has cells and all of them are null.
  | object (entity : Option String) (identity : List Nat) (members : List (String × Activator))
  -- The elements found in all rows of the same root.
  | collection (element : Activator)

namespace Activator

mutual

/-- Equality of activators; members are compared in order. -/
def same : Activator → Activator → Bool
  | .cell i, .cell j => i == j
  | .object n k ms, .object n' k' ms' => n == n' && k == k' && sameMembers ms ms'
  | .collection e, .collection e' => same e e'
  | _, _ => false

def sameMembers : List (String × Activator) → List (String × Activator) → Bool
  | [], [] => true
  | (n, a) :: ms, (n', a') :: ms' => n == n' && same a a' && sameMembers ms ms'
  | _, _ => false

end

instance : BEq Activator := ⟨same⟩

mutual

/-- Whether a collection is somewhere in what is built. -/
def hasCollection : Activator → Bool
  | .cell _ => false
  | .object _ _ members => anyCollection members
  | .collection _ => true

def anyCollection : List (String × Activator) → Bool
  | [] => false
  | (_, a) :: ms => hasCollection a || anyCollection ms

end

mutual

/-- The cells read outside collections, in order and with repetitions. -/
def outerCells : Activator → List Nat
  | .cell i => [i]
  | .object _ _ members => memberCells members
  | .collection _ => []

def memberCells : List (String × Activator) → List Nat
  | [] => []
  | (_, a) :: ms => outerCells a ++ memberCells ms

end

def addNew (seen : List Nat) (i : Nat) : List Nat := if seen.contains i then seen else seen ++ [i]

/-- The cells that identify a root: all those read outside collections, each once. -/
def rootIdentity (a : Activator) : List Nat := a.outerCells.foldl addNew []

/-- The cells that identify an element of a collection: its identity, or without one all the cells
it reads outside collections. -/
def elementIdentity (a : Activator) : List Nat :=
  match a with
  | .object _ (i :: is) _ => i :: is
  | a => a.rootIdentity

end Activator

end EntityQuery
