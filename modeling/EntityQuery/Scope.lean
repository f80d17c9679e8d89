import EntityQuery.Error
import EntityQuery.Lambda.Term
import EntityQuery.Name
import EntityQuery.Shape.Basic

/-! # Scopes

What a lambda is read against: the shapes its parameters stand for, the table aliases its columns
may belong to, and how deep it may be nested. -/

namespace EntityQuery
set_option autoImplicit false

/-! ## Bindings -/

/-- The shapes that parameters stand for. -/
structure Bindings where
  entries : List (Param × Shape) := []

namespace Bindings

/-- Binds a parameter; an earlier binding of it is replaced. -/
def bind (b : Bindings) (p : Param) (s : Shape) : Bindings := ⟨Entries.put p s b.entries⟩

/-- The shape that a parameter stands for. -/
def get? (b : Bindings) (p : Param) : Option Shape := b.entries.lookup p

def size (b : Bindings) : Nat := b.entries.length

end Bindings

/-! ## Aliases -/

/-- The table aliases of a query. An alias once taken is never given out again; only some of them
are visible to the statement at hand. -/
structure Aliases where
  taken : List String := []
  visible : List String := []
deriving DecidableEq

namespace Aliases

def insert (name : String) (names : List String) : List String :=
  if names.contains name then names else names ++ [name]

/-- Takes an alias and makes it visible. -/
def register (a : Aliases) (label : String) : Aliases :=
  ⟨insert label a.taken, insert label a.visible⟩

/-- An alias that is not taken, `base` if possible. -/
def fresh (a : Aliases) (base : String) : String := Name.fresh Name.exactly a.taken base

/-- Takes a fresh alias and makes it visible. -/
def reserve (a : Aliases) (base : String) : String × Aliases :=
  (a.fresh base, a.register (a.fresh base))

/-- Takes a fresh alias for a derived table around everything visible; afterwards only that alias
is visible. -/
def enclose (a : Aliases) (base : String) : String × Aliases :=
  (a.fresh base, ⟨insert (a.fresh base) a.taken, [a.fresh base]⟩)

def isVisible (a : Aliases) (label : String) : Bool := a.visible.contains label

end Aliases

/-! ## Scopes -/

/-- What a lambda is read against. -/
structure Scope where
  bindings : Bindings
  aliases : Aliases
  depthLimit : Nat

namespace Scope

/-- The depth one level further in, unless that is too deep. -/
def enter (s : Scope) (depth : Nat) : Except CompileError Nat :=
  if s.depthLimit ≤ depth then .error (.tooDeep s.depthLimit) else .ok (depth + 1)

/-- Fails at the first column whose table is not visible. -/
def checkColumns (s : Scope) (e : Sql.Expr) : Except CompileError Unit :=
  match e.columns.find? fun c => !s.aliases.isVisible c.table with
  | some c => .error (.aliasOutOfScope c.table)
  | none => .ok ()

/-- Checks the columns of expressions one after the other. -/
def checkAll (s : Scope) : List Sql.Expr → Except CompileError Unit
  | [] => .ok ()
  | e :: es => do
    s.checkColumns e
    s.checkAll es

end Scope

end EntityQuery
