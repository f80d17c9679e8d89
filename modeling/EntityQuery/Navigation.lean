import EntityQuery.Lambda.Term

/-! # Navigation chains

A chain names navigation properties from the outside in. A step may narrow what it leads to by a
condition and a filter. -/

namespace EntityQuery
set_option autoImplicit false

/-- One navigation of a chain, with what narrows it. -/
structure NavigationStep where
  property : String
  condition : Option Lambda := none
  filter : Option Lambda := none

def NavigationStep.same (a b : NavigationStep) : Bool :=
  a.property == b.property && a.condition == b.condition && a.filter == b.filter

instance : BEq NavigationStep := ⟨NavigationStep.same⟩

/-- A chain of navigations, the outermost first. -/
structure NavigationChain where
  steps : List NavigationStep

namespace NavigationChain

def same (a b : NavigationChain) : Bool := a.steps == b.steps

instance : BEq NavigationChain := ⟨same⟩

def splitDots : List Char → List (List Char)
  | [] => [[]]
  | c :: cs =>
    if c = '.' then [] :: splitDots cs
    else
      match splitDots cs with
      | [] => [[c]]
      | part :: parts => (c :: part) :: parts

/-- The chain of the properties between the dots of a path; empty parts are passed over. -/
def ofPath (path : String) : NavigationChain :=
  ⟨((splitDots path.toList).filter (!·.isEmpty)).map fun p => { property := String.ofList p }⟩

def snoc (c : NavigationChain) (s : NavigationStep) : NavigationChain := ⟨c.steps ++ [s]⟩

def length (c : NavigationChain) : Nat := c.steps.length

/-- The properties with dots between them. -/
def path (c : NavigationChain) : String := ".".intercalate (c.steps.map (·.property))

end NavigationChain

end EntityQuery
