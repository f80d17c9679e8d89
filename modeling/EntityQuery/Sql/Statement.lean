import EntityQuery.Name
import EntityQuery.Sql.Text

/-! # Statements

A statement selects columns from sources: a first table or derived table, and others joined to it.
A derived table holds a statement of its own. -/

namespace EntityQuery.Sql
set_option autoImplicit false

/-- The direction of a sort. -/
inductive Direction where
  | asc
  | desc
deriving DecidableEq

/-- What rows are sorted by. -/
structure Ordering where
  expr : Expr
  direction : Direction

def Ordering.same (a b : Ordering) : Bool := a.expr == b.expr && a.direction == b.direction

instance : BEq Ordering := ⟨Ordering.same⟩

def Ordering.text (o : Ordering) : String :=
  o.expr.text ++ (match o.direction with | .asc => " ASC" | .desc => " DESC")

/-- The kind of a join. -/
inductive JoinKind where
  | inner
  | left
  | right
  | full
deriving DecidableEq

/-- A selected expression under the alias that names it outside. -/
structure Projected where
  expr : Expr
  label : String

def Projected.same (a b : Projected) : Bool := a.expr == b.expr && a.label == b.label

instance : BEq Projected := ⟨Projected.same⟩

mutual

/-- A table or a nested statement, visible under an alias. -/
inductive Source where
  | table (name label : String)
  | derived (query : Statement) (label : String)

/-- A source joined to those before it. -/
structure Join where
  kind : JoinKind
  source : Source
  on : Expr

/-- The sources of a statement: the first one and those joined to it, in order. -/
structure Sources where
  first : Source
  joins : List Join := []

/-- A statement, with its clauses. -/
structure Statement where
  sources : Sources
  columns : List Projected := []
  condition : Option Expr := none
  groupBy : List Expr := []
  having : Option Expr := none
  orderings : List Ordering := []
  distinct : Bool := false
  skip : Option Nat := none
  take : Option Nat := none

end

/-! ## Equality -/

mutual

def Source.same : Source → Source → Bool
  | .table n a, .table n' a' => n == n' && a == a'
  | .derived q a, .derived q' a' => q.same q' && a == a'
  | _, _ => false

def Join.same : Join → Join → Bool
  | ⟨k, s, e⟩, ⟨k', s', e'⟩ => k == k' && s.same s' && e == e'

def Join.sameAll : List Join → List Join → Bool
  | [], [] => true
  | j :: js, j' :: js' => j.same j' && Join.sameAll js js'
  | _, _ => false

def Sources.same : Sources → Sources → Bool
  | ⟨s, js⟩, ⟨s', js'⟩ => s.same s' && Join.sameAll js js'

/-- Equality of statements. -/
def Statement.same : Statement → Statement → Bool
  | ⟨f, cs, c, g, h, o, d, s, t⟩, ⟨f', cs', c', g', h', o', d', s', t'⟩ =>
    f.same f' && cs == cs' && c == c' && g == g' && h == h' && o == o' && d == d' && s == s'
      && t == t'

end

instance : BEq Source := ⟨Source.same⟩
instance : BEq Join := ⟨Join.same⟩
instance : BEq Sources := ⟨Sources.same⟩
instance : BEq Statement := ⟨Statement.same⟩

/-! ## Aliases -/

def Source.label : Source → String
  | .table _ a => a
  | .derived _ a => a

/-- The aliases that the sources make visible, in order. -/
def Sources.aliases (s : Sources) : List String :=
  s.first.label :: s.joins.map fun j => j.source.label

def Sources.join (s : Sources) (j : Join) : Sources := { s with joins := s.joins ++ [j] }

@[simp] theorem Sources.aliases_join (s : Sources) (j : Join) :
    (s.join j).aliases = s.aliases ++ [j.source.label] := by
  simp [Sources.join, Sources.aliases]

/-! ## Columns -/

namespace Statement

/-- The position of the column that selects `e`. -/
def find? (s : Statement) (e : Expr) : Option Nat := s.columns.findIdx? (·.expr == e)

/-- Whether a column has this alias, up to the case of ASCII letters. -/
def isAliasTaken (s : Statement) (label : String) : Bool :=
  s.columns.any fun c => Name.ignoringCase label c.label

/-- A column alias that is not taken, `base` if possible. -/
def freshAlias (s : Statement) (base : String) : String :=
  Name.fresh Name.ignoringCase (s.columns.map (·.label)) base

/-- Selects `e` and tells its position. An equal column is used again; a new one is named after
`hint` if there is one, else after `base`. -/
def project (s : Statement) (e : Expr) (hint : Option String) (base : String) : Statement × Nat :=
  match s.find? e with
  | some i => (s, i)
  | none =>
    ({ s with columns := s.columns ++ [⟨e, s.freshAlias (hint.getD base)⟩] }, s.columns.length)

def label? (s : Statement) (i : Nat) : Option String := (s.columns[i]?).map (·.label)

/-- Selects `e` and gives the expression that denotes it outside, where the statement is visible
under `table`. -/
def expose (s : Statement) (e : Expr) (hint : Option String) (base table : String) :
    Statement × Expr :=
  let (s', i) := s.project e hint base
  (s', .column ⟨table, (s'.label? i).getD base⟩)

def isPaged (s : Statement) : Bool := s.skip.isSome || s.take.isSome

end Statement

end EntityQuery.Sql
