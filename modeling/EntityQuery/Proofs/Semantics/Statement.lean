import Mathlib.Data.List.Basic
import EntityQuery.Proofs.Semantics.Expr
import EntityQuery.Proofs.Semantics.Firsts
import EntityQuery.Sql.Statement

/-! # The meaning of statements

Statements denote lists of rows. Sources are read in order and joined by nested loops; what is left
after `WHERE` is grouped, sorted and projected, then equal rows are merged, then a window is cut
out. A projected aggregate without `GROUP BY` makes one group of all rows. -/

namespace EntityQuery
set_option autoImplicit false

/-! ## Nested loops -/

section Loops

variable {α β γ δ ζ ξ : Type}

/-- Whether rows of the left side that match nothing are kept. -/
def Sql.JoinKind.keepsLeft : Sql.JoinKind → Bool
  | .left | .full => true
  | _ => false

/-- Whether rows of the right side that match nothing are kept. -/
def Sql.JoinKind.keepsRight : Sql.JoinKind → Bool
  | .right | .full => true
  | _ => false

/-- The nested loops of a join: for each left item the right items that match it, or a blank one if
nothing does and the left side is kept; at the end the right items that match nothing, if they are
kept. -/
def Sql.JoinKind.pairs (kind : Sql.JoinKind) (test : α → β → Bool) (pair : α → β → γ)
    (blankLeft : α) (blankRight : β) (ls : List α) (rs : List β) : List γ :=
  (ls.flatMap fun a =>
    if (rs.filter (test a)).isEmpty && kind.keepsLeft then [pair a blankRight]
    else (rs.filter (test a)).map (pair a)) ++
  if kind.keepsRight then (rs.filter fun b => !ls.any (test · b)).map (pair blankLeft) else []

theorem Sql.JoinKind.map_pairs (kind : Sql.JoinKind) {test : α → β → Bool} {pair : α → β → γ}
    {test' : δ → ζ → Bool} {pair' : δ → ζ → ξ} {f : α → δ} {g : β → ζ} {F : γ → ξ}
    {a₀ : α} {b₀ : β} {ls : List α} {rs : List β}
    (htest : ∀ a ∈ ls, ∀ b ∈ rs, test a b = test' (f a) (g b))
    (hpair : ∀ a ∈ a₀ :: ls, ∀ b ∈ b₀ :: rs, F (pair a b) = pair' (f a) (g b)) :
    (kind.pairs test pair a₀ b₀ ls rs).map F =
      kind.pairs test' pair' (f a₀) (g b₀) (ls.map f) (rs.map g) := by
  have hfilter : ∀ a ∈ ls, (rs.map g).filter (test' (f a)) = (rs.filter (test a)).map g := by
    intro a ha
    rw [List.filter_map]
    congr 1
    exact List.filter_congr fun b hb => (htest a ha b hb).symm
  have hrest : (rs.map g).filter (fun b => !(ls.map f).any (test' · b)) =
      (rs.filter fun b => !ls.any (test · b)).map g := by
    rw [List.filter_map]
    congr 1
    refine List.filter_congr fun b hb => ?_
    simp only [Function.comp_def, List.any_map]
    congr 1
    rw [Bool.eq_iff_iff]
    simp only [List.any_eq_true]
    constructor
    · rintro ⟨a, ha, h⟩; exact ⟨a, ha, by rw [htest a ha b hb]; exact h⟩
    · rintro ⟨a, ha, h⟩; exact ⟨a, ha, by rw [← htest a ha b hb]; exact h⟩
  unfold pairs
  rw [List.map_append, hrest]
  congr 1
  · rw [List.map_flatMap, List.flatMap_map]
    refine List.flatMap_congr fun a ha => ?_
    rw [hfilter a ha, List.isEmpty_map]
    split
    · rw [List.map_singleton, hpair a (List.mem_cons_of_mem _ ha) b₀ (List.mem_cons_self ..)]
    · rw [List.map_map, List.map_map]
      refine List.map_congr_left fun b hb => ?_
      exact hpair a (List.mem_cons_of_mem _ ha) b (List.mem_cons_of_mem _ (List.mem_filter.mp hb).1)
  · split
    · rw [List.map_map, List.map_map]
      refine List.map_congr_left fun b hb => ?_
      exact hpair a₀ (List.mem_cons_self ..) b (List.mem_cons_of_mem _ (List.mem_filter.mp hb).1)
    · rfl

end Loops

/-! ## Statements -/

/-- The rows of each table, by the names of the columns. -/
abbrev Database := String → List (String → Json)

namespace Sql

def Expr.isAggregate : Expr → Bool
  | .aggregate .. => true
  | _ => false

/-- Whether an aggregate is somewhere in the expression. -/
def Expr.hasAggregate (e : Expr) : Bool := e.nodes.any isAggregate

namespace Valuation

/-- All columns are null. -/
def null : Valuation := fun _ => .null

/-- The row of a source becomes visible under its alias. -/
def bind (v : Valuation) (label : String) (row : String → Json) : Valuation :=
  fun c => if c.table = label then row c.name else v c

end Valuation

/-- The cells of a row by the names of the selected columns. -/
def named (columns : List Projected) (row : Row) : String → Json :=
  fun name => (((columns.map (·.label)).zip row).lookup name).getD .null

variable (I : Interpretation) (db : Database)

/-- Whether the first group may be sorted before the second. -/
def sortsBefore : List Ordering → List Valuation → List Valuation → Bool
  | [], _, _ => true
  | o :: os, g, g' =>
    let a := o.expr.eval I g
    let b := o.expr.eval I g'
    let (before, after) :=
      match o.direction with
      | .asc => (I.precedes a b, I.precedes b a)
      | .desc => (I.precedes b a, I.precedes a b)
    if before && after then sortsBefore os g g' else before

namespace Statement

/-- Whether the rows are collapsed although there is no `GROUP BY`. -/
def collapses (st : Statement) : Bool :=
  st.columns.any (·.expr.hasAggregate) || st.having.isSome

/-- The groups of the rows; without `GROUP BY` every row is one, unless all are collapsed. -/
def groups (st : Statement) (rows : List Valuation) : List (List Valuation) :=
  if st.groupBy.isEmpty then if st.collapses then [rows] else rows.map ([·])
  else
    let alike (v w : Valuation) := st.groupBy.all fun e => I.same (e.eval I [v]) (e.eval I [w])
    (firsts alike rows).map fun v => rows.filter (alike v)

/-- Whether a condition, if there is one, is true in a group. -/
def satisfies (condition : Option Expr) (g : List Valuation) : Bool :=
  condition.all fun e => e.truth I g = some true

/-- Merges equal rows if asked for. -/
def merge (distinct : Bool) (rows : List Row) : List Row :=
  if distinct then firsts (fun r r' => (r.zip r').all fun p => I.same p.1 p.2) rows else rows

/-- Leaves out rows at the front, then keeps so many. -/
def window {α : Type} (skip take : Option Nat) (rows : List α) : List α :=
  match take with
  | some n => (rows.drop (skip.getD 0)).take n
  | none => rows.drop (skip.getD 0)

/-- The rows that the statement makes of the rows of its sources. -/
def select (st : Statement) (rows : List Valuation) : List Row :=
  let kept := rows.filter fun v => satisfies I st.condition [v]
  let groups := (st.groups I kept).filter (satisfies I st.having)
  let sorted := groups.mergeSort (sortsBefore I st.orderings)
  let cells := sorted.map fun g => st.columns.map fun c => c.expr.eval I g
  window st.skip st.take (merge I st.distinct cells)

end Statement

mutual

/-- The rows of a source. -/
def Source.rows : Source → List (String → Json)
  | .table name _ => db name
  | .derived q _ => q.rows.map (named q.columns)

/-- Joins sources to rows, one after the other. -/
def Join.extend : List Join → List Valuation → List Valuation
  | [], vs => vs
  | ⟨kind, source, on⟩ :: js, vs =>
    Join.extend js <|
      kind.pairs (fun v row => on.truth I [v.bind source.label row] = some true)
        (fun v row => v.bind source.label row) .null (fun _ => .null) vs source.rows

/-- The rows of all sources together. -/
def Sources.valuations : Sources → List Valuation
  | ⟨first, joins⟩ => Join.extend joins (first.rows.map (Valuation.null.bind first.label))

/-- The rows of a statement. -/
def Statement.rows : Statement → List Row
  | ⟨f, cs, c, g, h, o, d, s, t⟩ => Statement.select I ⟨f, cs, c, g, h, o, d, s, t⟩ f.valuations

end

theorem Statement.rows_eq (st : Statement) : st.rows I db = st.select I (st.sources.valuations I db) := by
  cases st
  rfl

end Sql

end EntityQuery
