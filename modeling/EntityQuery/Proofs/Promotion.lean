import EntityQuery.Proofs.Projection
import EntityQuery.Proofs.Reachable
import EntityQuery.Proofs.Steps

/-! # Wrapping a query loses nothing

A query that is wrapped as a derived table keeps all its clauses, and what was its result is still
there, under other names: to read a column of the derived table is to read the expression selected
under that name. `Sql.Expr.unfold` undoes the renaming, and undone the wrapped query has the result
and the orderings it had before.

* `wrap_reexpresses`: what wrapping gives, for any query and any alias.
* `promote_reexpresses`: promotion of a query without collections, and the same query as the right
  side of a join. -/

namespace EntityQuery
set_option autoImplicit false

namespace Sql

/-- What a column stands for, if it is one of the derived table `table` with the given columns. -/
def Column.selected (table : String) (columns : List Projected) (c : Column) : Expr :=
  if c.table = table then ((columns.find? fun p => p.label = c.name).map (·.expr)).getD (.column c)
  else .column c

/-- The expression with the columns of a derived table replaced by what is selected under their
names. -/
def Expr.unfold (table : String) (columns : List Projected) : Expr → Expr :=
  Expr.replace (Column.selected table columns) .literal

theorem Distinguished.find?_label {columns : List Projected} (h : Distinguished columns)
    {col : Projected} (hcol : col ∈ columns) :
    columns.find? (fun p => p.label = col.label) = some col := by
  have hl := h.labels
  clear h
  induction columns with
  | nil => cases hcol
  | cons c cs ih =>
    rw [List.pairwise_cons] at hl
    rw [List.find?_cons]
    rcases List.mem_cons.mp hcol with rfl | hmem
    · simp
    · have hne : c.label ≠ col.label := fun e => hl.1 col hmem (by rw [e])
      simp only [hne, decide_false]
      exact ih hmem hl.2

theorem Statement.Exposes.unfold {table : String} {columns : List Projected}
    (hd : Distinguished columns) {e e' : Expr} (h : Exposes table columns e e') :
    (e.unfold table columns == e') = true := by
  obtain ⟨col, hcol, rfl, heq⟩ := h
  simp only [Expr.unfold, Expr.replace, Column.selected, if_true, hd.find?_label hcol]
  exact heq

end Sql

namespace Query

/-- The columns of a statement select, one each, the distinct scalars of a result and after them
the distinct orderings that are not among those. -/
def SelectsOnce (q : Query) (columns : List Sql.Projected) : Prop :=
  columns.map (·.expr) = q.draft.result.leaves.eraseDups ++
    ((q.draft.orderings.map (·.expr)).filter fun e =>
      !q.draft.result.leaves.any (· == e)).eraseDups

/-- The statement and the shape say under the alias `table` what the query says: the clauses are
the same, the columns are the scalars and orderings under names of their own, and with columns of
`table` unfolded the shape is that of the query without its conditions and filters. -/
structure Reexpresses (q : Query) (table : String) (st : Sql.Statement) (result : Shape) : Prop where
  clauses : st = { q.statement with columns := st.columns }
  selects : q.SelectsOnce st.columns
  distinguished : Sql.Distinguished st.columns
  unfolds : result.Rel (fun e e' => (e.unfold table st.columns == e') = true) q.draft.result
  bare : result.bare = result

/-- With columns of `table` unfolded, the orderings are those of the query. -/
def ReordersBy (q : Query) (table : String) (st : Sql.Statement) (os : List Sql.Ordering) : Prop :=
  List.Forall₂
    (fun o o' : Sql.Ordering =>
      o.direction = o'.direction ∧ (o.expr.unfold table st.columns == o'.expr) = true)
    os q.draft.orderings

theorem statement_columns (q : Query) : q.statement.columns = [] := by
  unfold statement
  split <;> rfl

theorem statement_sources (q : Query) : q.statement.sources = q.draft.sources := by
  unfold statement
  split <;> rfl

theorem statement_condition (q : Query) : q.statement.condition = q.draft.condition := by
  unfold statement
  split <;> rfl

theorem statement_groupBy (q : Query) : q.statement.groupBy = q.draft.groupBy := by
  unfold statement
  split <;> rfl

theorem statement_having (q : Query) : q.statement.having = q.draft.having := by
  unfold statement
  split <;> rfl

theorem statement_orderings (q : Query) : q.statement.orderings = q.draft.orderings := by
  unfold statement
  split <;> rfl

theorem any_eraseDups (es : List Sql.Expr) (e : Sql.Expr) :
    es.eraseDups.any (· == e) = es.any (· == e) := by
  rw [Bool.eq_iff_iff, ← Sql.foldl_addExpr_nil]
  suffices h : ∀ seen : List Sql.Expr, (es.foldl Sql.addExpr seen).any (· == e) = true ↔
      (seen.any (· == e) = true ∨ es.any (· == e) = true) by
    simpa using h []
  induction es with
  | nil => simp
  | cons x es ih =>
    intro seen
    rw [List.foldl_cons, ih, List.any_cons, Bool.or_eq_true, ← or_assoc]
    apply or_congr_left
    unfold Sql.addExpr
    cases hx : seen.any (· == x) with
    | false => simp
    | true =>
      obtain ⟨y, hy, hyx⟩ := List.any_eq_true.mp hx
      simp only [if_true]
      constructor
      · exact Or.inl
      · rintro (h | h)
        · exact h
        · exact List.any_eq_true.mpr ⟨y, hy, BEq.trans hyx h⟩

variable (q : Query) (env : Env) (table : String)

theorem wrap_widens : q.statement.Widens (q.wrap env table).statement :=
  (Shape.rebind_widens _ table q.draft.result none q.statement).trans
    (rebindOrderings_widens _ table q.draft.orderings _)

theorem wrap_distinguished : Sql.Distinguished (q.wrap env table).statement.columns := by
  apply rebindOrderings_distinguished
  apply Shape.rebind_distinguished
  rw [statement_columns]
  exact .nil

theorem wrap_exprs :
    (q.wrap env table).statement.columns.map (·.expr) =
      (q.draft.result.scalars ++ q.draft.orderings.map (·.expr)).eraseDups := by
  have h := rebindOrderings_exprs env.settings.columnStem table q.draft.orderings
    (q.draft.result.rebind env.settings.columnStem table none q.statement).2
  rw [Shape.rebind_exprs, statement_columns, ← List.foldl_append, List.map_nil,
    Sql.foldl_addExpr_nil] at h
  exact h

theorem wrap_exposes :
    (q.wrap env table).result.Rel
      (Sql.Statement.Exposes table (q.wrap env table).statement.columns) q.draft.result := by
  have hw := rebindOrderings_widens env.settings.columnStem table q.draft.orderings
    (q.draft.result.rebind env.settings.columnStem table none q.statement).2
  exact Shape.Rel.mono (fun _ _ h => h.mono hw.columns) _ _
    (Shape.rebind_exposes _ table q.draft.result none q.statement)

theorem hasCollection_wrap :
    (q.wrap env table).result.hasCollection = q.draft.result.hasCollection :=
  Shape.Rel.hasCollection _ _ (q.wrap_exposes env table)

theorem wrap_orderings_expose :
    List.Forall₂
      (fun o o' : Sql.Ordering => o.direction = o'.direction ∧
        Sql.Statement.Exposes table (q.wrap env table).statement.columns o.expr o'.expr)
      (q.wrap env table).orderings q.draft.orderings :=
  rebindOrderings_exposes env.settings.columnStem table q.draft.orderings
    (q.draft.result.rebind env.settings.columnStem table none q.statement).2

theorem wrap_selects (h : q.draft.result.hasCollection = false) :
    q.SelectsOnce (q.wrap env table).statement.columns := by
  unfold SelectsOnce
  rw [wrap_exprs, Shape.scalars_eq_leaves _ h, ← Sql.foldl_addExpr_nil, List.foldl_append,
    Sql.foldl_addExpr_nil, Sql.foldl_addExpr]
  simp only [any_eraseDups]

theorem wrap_reexpresses (h : q.draft.result.hasCollection = false) :
    q.Reexpresses table (q.wrap env table).statement (q.wrap env table).result where
  clauses := (q.wrap_widens env table).clauses
  selects := q.wrap_selects env table h
  distinguished := q.wrap_distinguished env table
  unfolds := Shape.Rel.mono (fun _ _ he => he.unfold (q.wrap_distinguished env table)) _ _
    (q.wrap_exposes env table)
  bare := Shape.rebind_bare _ table q.draft.result none q.statement

theorem wrap_reorders :
    q.ReordersBy table (q.wrap env table).statement (q.wrap env table).orderings := by
  refine (q.wrap_orderings_expose env table).imp ?_
  intro o o' ho
  exact ⟨ho.1, ho.2.unfold (q.wrap_distinguished env table)⟩

/-- **Promotion re-expresses the query.** A query without collections can be promoted. The draft
reads from the query as a derived table under an alias `table` that was not taken, and unfolding
the columns of `table` gives back the result and the orderings; nothing else is left over from the
query but its bindings, and only `table` is visible. As the right side of a join the query is
re-expressed in the same way, under an alias that the other side had not taken. -/
theorem promote_reexpresses (h : q.draft.result.hasCollection = false) :
    (∃ table st d, q.promote env = .ok d ∧ table ∉ q.draft.aliases.taken ∧
      d.sources = ⟨.derived st table, []⟩ ∧
      q.Reexpresses table st d.result ∧ q.ReordersBy table st d.orderings ∧
      d.condition = none ∧ d.groupBy = [] ∧ d.having = none ∧ d.bindings = q.draft.bindings ∧
      d.aliases.visible = [table] ∧ d.aliases.taken = q.draft.aliases.taken ++ [table]) ∧
    ∀ (kind : Sql.JoinKind) (condition : Lambda) (bindings : Bindings) (aliases : Aliases),
      ∃ table, table ∉ aliases.taken ∧
        (q.joinSide env kind condition bindings aliases).1 = aliases.register table ∧
        ∀ side, (q.joinSide env kind condition bindings aliases).2 = .ok side →
          ∃ st, side.join.kind = kind ∧ side.join.source = .derived st table ∧
            q.Reexpresses table st side.result := by
  constructor
  · have hfresh := q.draft.aliases.fresh_notMem env.settings.tableStem
    refine ⟨q.promotedLabel env, _, q.promoted env, promote_eq_ok.mpr ⟨h, rfl⟩, hfresh, rfl,
      q.wrap_reexpresses env _ h, q.wrap_reorders env _, rfl, rfl, rfl, rfl, rfl, ?_⟩
    simp [promoted, promotedLabel, Aliases.enclose, Aliases.insert, hfresh]
  · intro kind condition bindings aliases
    refine ⟨aliases.fresh env.settings.tableStem, aliases.fresh_notMem _, ?_, ?_⟩
    · simp only [joinSide, Draft.ensureNoCollection_eq_ok (u := ()).mpr h, Aliases.reserve]
    · intro side hside
      obtain ⟨-, -, hu⟩ := joinSide_eq_ok.mp (Prod.ext rfl hside)
      obtain ⟨p, e, -, -, rfl⟩ := joinUnder_eq_ok.mp hu
      exact ⟨_, rfl, rfl, q.wrap_reexpresses env _ h⟩

theorem promote_reexpresses_sorted : ∃ q, build Sample.env "Order" Sample.paidOrders = .ok q ∧
    q.draft.result.hasCollection = false ∧ q.draft.orderings.length = 1 ∧
    ∃ table st d, q.promote Sample.env = .ok d ∧ table ∉ q.draft.aliases.taken ∧
      d.sources = ⟨.derived st table, []⟩ ∧
      q.Reexpresses table st d.result ∧ q.ReordersBy table st d.orderings := by
  have h : (do
      let q ← build Sample.env "Order" Sample.paidOrders
      pure (q.draft.result.hasCollection, q.draft.orderings.length) :
        Except CompileError (Bool × Nat)) = .ok (false, 1) := ok_of_toOption (by decide +kernel)
  simp only [bind_eq_ok, pure_eq_ok, Prod.mk.injEq] at h
  obtain ⟨q, hq, hc, hn⟩ := h
  obtain ⟨⟨table, st, d, hd, hfresh, hs, hr, ho, -⟩, -⟩ := promote_reexpresses q Sample.env hc
  exact ⟨q, hq, hc, hn, table, st, d, hd, hfresh, hs, hr, ho⟩

end Query

end EntityQuery
