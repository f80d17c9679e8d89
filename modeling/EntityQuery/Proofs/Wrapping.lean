import EntityQuery.Proofs.Reading
import EntityQuery.Proofs.Resolution

/-! # Queries represent relations

A query represents a relation if its result, evaluated in the rows of its sources that satisfy its
condition and cut to the window of its stage, is that relation. The statement of such a query, with
the scalars of its result for columns, has a row for each datum; so the query wrapped as a derived
table represents the same relation. -/

namespace EntityQuery
set_option autoImplicit false

/-! ## What a query denotes -/

variable {I : Interpretation} {db : Database}

/-- The rows of the sources that satisfy the condition. -/
def Draft.kept (I : Interpretation) (db : Database) (d : Draft) : List Sql.Valuation :=
  (d.sources.valuations I db).filter fun v => Sql.Statement.satisfies I d.condition [v]

/-- The groups of rows that the result is evaluated in. -/
def Draft.contexts (I : Interpretation) (db : Database) (d : Draft) : List (List Sql.Valuation) :=
  if d.result.scalars.any Sql.Expr.hasAggregate then [d.kept I db] else (d.kept I db).map ([·])

/-- The data of the result. -/
def Draft.data (I : Interpretation) (db : Database) (d : Draft) : List Datum :=
  (d.contexts I db).map fun g => d.result.datum fun e => e.eval I g

/-- What is left of data at a stage. -/
def Stage.window (I : Interpretation) : Stage → List Datum → List Datum
  | .skip n, ds => ds.drop n
  | .take n, ds => ds.take n
  | .limit s n, ds => (ds.drop s).take n
  | .distinct, ds => firsts (Datum.same I) ds
  | _, ds => ds

@[simp] theorem Stage.window_general (ds : List Datum) : Stage.window I .general ds = ds := rfl

/-- The query computes the relation. Nothing is grouped or sorted, and no scalar of the result is
the null constant, which comparisons would take for a test. -/
structure Query.Represents (I : Interpretation) (db : Database) (q : Query) (r : Relation) : Prop where
  bindings : q.draft.bindings = {}
  groupBy : q.draft.groupBy = []
  having : q.draft.having = none
  orderings : q.draft.orderings = []
  flat : q.draft.result.hasCollection = false
  notNull : ∀ e ∈ q.draft.result.scalars, Scope.NotNull e
  plain : q.stage ≠ .aggregate → ∀ e ∈ q.draft.result.scalars, e.hasAggregate = false
  collapsed : q.stage = .aggregate → ∃ e, q.draft.result = .scalar e ∧ e.hasAggregate = true
  small : (q.draft.kept I db).length ≤ maxCount
  blank : r.blank = q.draft.result.form
  rows : r.rows = q.stage.window I (q.draft.data I db)

/-! ## Rows of the statement -/

theorem Sql.all_foldl_addExpr {p : Sql.Expr → Bool}
    (hp : ∀ a b : Sql.Expr, (a == b) = true → p a = p b) (seen es : List Sql.Expr) :
    (es.foldl Sql.addExpr seen).all p = (seen.all p && es.all p) := by
  induction es generalizing seen with
  | nil => simp
  | cons e es ih =>
    rw [List.foldl_cons, ih, List.all_cons]
    unfold Sql.addExpr
    cases h : seen.any (· == e) with
    | false => simp [Bool.and_assoc]
    | true =>
      obtain ⟨x, hx, hxe⟩ := List.any_eq_true.mp h
      rw [if_pos rfl]
      cases hs : seen.all p with
      | false => rfl
      | true =>
        have he : p e = true := (hp x e hxe) ▸ List.all_eq_true.mp hs x hx
        rw [he]
        rfl

namespace Shape

mutual

theorem same_datum {v w : Sql.Expr → Json} : ∀ s : Shape, s.hasCollection = false →
    Datum.same I (s.datum v) (s.datum w) = s.scalars.all fun e => I.same (v e) (w e)
  | .scalar e, _ => by simp [datum, Datum.same, scalars]
  | .object ⟨_, _, ms, _, _⟩, h => sameMembers_memberData ms h
  | .collection .., h => by cases h

theorem sameMembers_memberData {v w : Sql.Expr → Json} : ∀ ms : List (String × Shape),
    anyCollection ms = false →
    Datum.sameMembers I (memberData v ms) (memberData w ms) =
      (memberScalars ms).all fun e => I.same (v e) (w e)
  | [], _ => rfl
  | (_, s) :: ms, h => by
    rw [anyCollection, Bool.or_eq_false_iff] at h
    rw [memberData, memberData, Datum.sameMembers, same_datum s h.1, sameMembers_memberData ms h.2,
      memberScalars, List.all_append]

end

end Shape

namespace Query

variable {q : Query} {r : Relation}

/-- The cells that columns have in a group of rows. -/
def cells (I : Interpretation) (columns : List Sql.Projected) (g : List Sql.Valuation) : Row :=
  columns.map fun c => c.expr.eval I g

/-- The columns select the scalars of the result, each once. -/
def Selects (q : Query) (columns : List Sql.Projected) : Prop :=
  columns.map (·.expr) = q.draft.result.scalars.eraseDups

/-- The rows of a query that neither groups nor sorts. -/
theorem rows_eq_window (hg : q.draft.groupBy = []) (hh : q.draft.having = none)
    (ho : q.draft.orderings = []) {columns : List Sql.Projected} :
    Sql.Statement.rows I db { q.statement with columns } =
      Sql.Statement.window q.statement.skip q.statement.take
        (Sql.Statement.merge I q.statement.distinct
          ((if Sql.Statement.collapses { q.statement with columns } then [q.draft.kept I db]
            else (q.draft.kept I db).map ([·])).map (cells I columns))) := by
  have hgroups : Sql.Statement.groups I { q.statement with columns } (q.draft.kept I db) =
      if Sql.Statement.collapses { q.statement with columns } then [q.draft.kept I db]
      else (q.draft.kept I db).map ([·]) := by
    unfold Sql.Statement.groups
    simp [statement_groupBy, hg]
  have hhaving : ∀ gs : List (List Sql.Valuation),
      gs.filter (Sql.Statement.satisfies I q.statement.having) = gs := by
    intro gs
    rw [statement_having, hh]
    exact List.filter_eq_self.mpr fun _ _ => rfl
  have hsort : ∀ gs : List (List Sql.Valuation),
      gs.mergeSort (Sql.sortsBefore I q.statement.orderings) = gs := by
    intro gs
    rw [statement_orderings, ho]
    exact List.mergeSort_of_pairwise (List.pairwise_of_forall fun _ _ => rfl)
  have hkept : ((q.statement.sources.valuations I db).filter
      fun v => Sql.Statement.satisfies I q.statement.condition [v]) = q.draft.kept I db := by
    rw [statement_sources, statement_condition]
    rfl
  rw [Sql.Statement.rows_eq]
  simp only [Sql.Statement.select]
  rw [hkept, hgroups, hhaving, hsort]
  rfl

theorem collapses_eq_false (hh : q.draft.having = none) {columns : List Sql.Projected}
    (hc : q.Selects columns) (hplain : ∀ e ∈ q.draft.result.scalars, e.hasAggregate = false) :
    Sql.Statement.collapses { q.statement with columns } = false := by
  have hcolumns : columns.any (·.expr.hasAggregate) = (columns.map (·.expr)).any Sql.Expr.hasAggregate := by
    rw [List.any_map]
    rfl
  rw [Sql.Statement.collapses, statement_having, hh, hcolumns, hc, ← Sql.foldl_addExpr_nil,
    Option.isSome_none, Bool.or_false, List.any_eq_false]
  intro e he
  rw [hplain e ((Sql.mem_of_mem_foldl_addExpr he).resolve_left List.not_mem_nil)]
  exact Bool.false_ne_true

theorem collapses_of_selects (h : q.Represents I db r) {columns : List Sql.Projected}
    (hc : q.Selects columns) :
    Sql.Statement.collapses { q.statement with columns } =
      q.draft.result.scalars.any Sql.Expr.hasAggregate := by
  by_cases hs : q.stage = .aggregate
  · obtain ⟨e, he, hagg⟩ := h.collapsed hs
    have hcolumns : columns.map (·.expr) = [e] := by
      rw [hc, he]
      rfl
    obtain ⟨c, rfl, rfl⟩ := List.map_eq_singleton_iff.mp hcolumns
    simp [Sql.Statement.collapses, he, Shape.scalars, hagg]
  · have hnone : q.draft.result.scalars.any Sql.Expr.hasAggregate = false := by
      rw [List.any_eq_false]
      intro e he
      rw [h.plain hs e he]
      exact Bool.false_ne_true
    rw [collapses_eq_false h.having hc (h.plain hs), hnone]

theorem rows_of_selects (h : q.Represents I db r) {columns : List Sql.Projected}
    (hc : q.Selects columns) :
    Sql.Statement.rows I db { q.statement with columns } =
      Sql.Statement.window q.statement.skip q.statement.take
        (Sql.Statement.merge I q.statement.distinct
          ((q.draft.contexts I db).map (cells I columns))) := by
  rw [rows_eq_window h.groupBy h.having h.orderings, collapses_of_selects h hc]
  rfl

theorem map_window {α β : Type} (f : α → β) (skip take : Option Nat) (rows : List α) :
    (Sql.Statement.window skip take rows).map f = Sql.Statement.window skip take (rows.map f) := by
  cases take <;> simp [Sql.Statement.window]

theorem same_cells (hI : I.Lawful) (h : q.Represents I db r) {columns : List Sql.Projected}
    (hc : q.Selects columns) (g g' : List Sql.Valuation) :
    ((cells I columns g).zip (cells I columns g')).all (fun p => I.same p.1 p.2) =
      Datum.same I (q.draft.result.datum fun e => e.eval I g)
        (q.draft.result.datum fun e => e.eval I g') := by
  rw [Shape.same_datum _ h.flat, cells, cells, List.zip_map', List.all_map]
  have hcolumns : columns.all ((fun p : Json × Json => I.same p.1 p.2) ∘
        fun c => (c.expr.eval I g, c.expr.eval I g')) =
      (columns.map (·.expr)).all fun e => I.same (e.eval I g) (e.eval I g') := by
    rw [List.all_map]
    rfl
  rw [hcolumns, hc, ← Sql.foldl_addExpr_nil, Sql.all_foldl_addExpr]
  · rfl
  · intro a b hab
    rw [Sql.Expr.eval_congr hI hab g, Sql.Expr.eval_congr hI hab g']

/-- What is read from the rows of the statement is what is made of the relation's data, if that is
so for the cells of each group. -/
theorem map_rows (hI : I.Lawful) (h : q.Represents I db r) {columns : List Sql.Projected}
    (hc : q.Selects columns) {β : Type} {φ : Row → β} {ψ : Datum → β}
    (hφ : ∀ g, φ (cells I columns g) = ψ (q.draft.result.datum fun e => e.eval I g)) :
    (Sql.Statement.rows I db { q.statement with columns }).map φ = r.rows.map ψ := by
  have hmap : ((q.draft.contexts I db).map (cells I columns)).map φ = (q.draft.data I db).map ψ := by
    rw [Draft.data, List.map_map, List.map_map]
    exact List.map_congr_left fun g _ => hφ g
  rw [rows_of_selects h hc, h.rows, map_window]
  unfold statement Stage.window
  cases hs : q.stage with
  | distinct =>
    simp only [Sql.Statement.merge, Sql.Statement.window, Draft.statement, Draft.data, if_true,
      Option.getD_none, List.drop_zero]
    rw [firsts_map, firsts_map, List.map_map, List.map_map,
      firsts_congr fun g _ g' _ => same_cells hI h hc g g']
    exact List.map_congr_left fun g _ => hφ g
  | skip n =>
    simp only [Sql.Statement.merge, Sql.Statement.window, Draft.statement, Bool.false_eq_true, if_false,
      Option.getD_some, List.map_drop, hmap]
  | take n =>
    simp only [Sql.Statement.merge, Sql.Statement.window, Draft.statement, Bool.false_eq_true, if_false,
      Option.getD_none, List.drop_zero, List.map_take, hmap]
  | limit s n =>
    simp only [Sql.Statement.merge, Sql.Statement.window, Draft.statement, Bool.false_eq_true, if_false,
      Option.getD_some, List.map_take, List.map_drop, hmap]
  | general | aggregate | grouping =>
    simp only [Sql.Statement.merge, Sql.Statement.window, Draft.statement, Bool.false_eq_true, if_false,
      Option.getD_none, List.drop_zero, hmap]

/-! ## Derived tables -/

theorem named_cells {columns : List Sql.Projected} (h : Sql.Distinguished columns)
    (f : Sql.Projected → Json) {c : Sql.Projected} (hc : c ∈ columns) :
    Sql.named columns (columns.map f) c.label = f c := by
  have hlookup : ((columns.map (·.label)).zip (columns.map f)).lookup c.label = some (f c) := by
    rw [List.zip_map']
    have hlabels := h.labels
    clear h
    induction columns with
    | nil => cases hc
    | cons x columns ih =>
      rw [List.pairwise_cons] at hlabels
      rw [List.map_cons, List.lookup_cons]
      rcases List.mem_cons.mp hc with rfl | hc
      · rw [BEq.rfl]
      · have hne : (c.label == x.label) = false := by
          rw [beq_eq_false_iff_ne]
          intro heq
          exact hlabels.1 c hc (by rw [heq])
        rw [hne]
        exact ih hc hlabels.2
  rw [Sql.named, hlookup]
  rfl

variable (I) (q) (env : Env) (table : String)

/-- The datum that a row of the query, wrapped as a derived table, is. -/
def seen (row : String → Json) : Datum :=
  (q.wrap env table).result.datum fun e => e.eval I [Sql.Valuation.null.bind table row]

variable {I q}

theorem scalars_wrap : ∀ e ∈ (q.wrap env table).result.scalars, ∃ name, e = .column ⟨table, name⟩ := by
  intro e he
  obtain ⟨e', -, c, -, rfl, -⟩ := Shape.Rel.scalars_left _ _ (q.wrap_exposes env table) e he
  exact ⟨c.label, rfl⟩

theorem datum_bind (v : Sql.Valuation) (row : String → Json) :
    ((q.wrap env table).result.datum fun e => e.eval I [v.bind table row]) = q.seen I env table row := by
  refine Shape.datum_congr _ ?_
  intro e he
  obtain ⟨name, rfl⟩ := scalars_wrap env table e he
  simp [Sql.Expr.eval, Sql.Valuation.bind]

theorem datum_bind_of_ne {label : String} (hne : table ≠ label) (v : Sql.Valuation)
    (row : String → Json) :
    ((q.wrap env table).result.datum fun e => e.eval I [v.bind label row]) =
      (q.wrap env table).result.datum fun e => e.eval I [v] := by
  refine Shape.datum_congr _ ?_
  intro e he
  obtain ⟨name, rfl⟩ := scalars_wrap env table e he
  simp [Sql.Expr.eval, Sql.Valuation.bind, hne]

theorem form_wrap : (q.wrap env table).result.form = q.draft.result.form :=
  Shape.Rel.datum (fun _ _ _ => rfl) _ _ (q.wrap_exposes env table)

theorem datum_null : ((q.wrap env table).result.datum fun e => e.eval I [Sql.Valuation.null]) =
    q.draft.result.form := by
  rw [← form_wrap env table]
  refine Shape.datum_congr _ ?_
  intro e he
  obtain ⟨name, rfl⟩ := scalars_wrap env table e he
  rfl

theorem selects_wrap (h : q.Represents I db r) : q.Selects (q.wrap env table).statement.columns := by
  rw [Selects, wrap_exprs, h.orderings, List.map_nil, List.append_nil]

theorem seen_rows (hI : I.Lawful) (h : q.Represents I db r) :
    ((Sql.Source.derived (q.wrap env table).statement table).rows I db).map (q.seen I env table) =
      r.rows := by
  rw [Sql.Source.rows, List.map_map, (q.wrap_widens env table).clauses]
  rw [map_rows (ψ := id) hI h (selects_wrap env table h), List.map_id]
  intro g
  refine Shape.Rel.datum ?_ _ _ (q.wrap_exposes env table)
  rintro e e' ⟨c, hc, rfl, he⟩
  simp only [Sql.Expr.eval, List.head?_cons, Sql.Valuation.bind, if_true]
  rw [← Sql.Expr.eval_congr hI he g]
  exact named_cells (q.wrap_distinguished env table) _ hc

end Query

namespace Draft

variable {d : Draft}

theorem data_plain (h : ∀ e ∈ d.result.scalars, e.hasAggregate = false) :
    d.data I db = (d.kept I db).map fun v => d.result.datum fun e => e.eval I [v] := by
  have hany : d.result.scalars.any Sql.Expr.hasAggregate = false := by
    rw [List.any_eq_false]
    intro e he
    rw [h e he]
    simp
  rw [data, contexts, hany, if_neg (by simp), List.map_map]
  rfl

theorem kept_of_none (h : d.condition = none) : d.kept I db = d.sources.valuations I db := by
  rw [kept, h]
  exact List.filter_eq_self.mpr fun _ _ => rfl

end Draft

namespace Query

variable {q : Query} {r : Relation} {env : Env}

theorem Represents.data (h : q.Represents I db r) (hs : q.stage = .general) :
    r.rows = (q.draft.kept I db).map fun v => q.draft.result.datum fun e => e.eval I [v] := by
  rw [h.rows, hs, Stage.window_general, Draft.data_plain]
  exact h.plain (by rw [hs]; simp)

theorem wrap_orderings_nil {table : String} (h : q.draft.orderings = []) :
    (q.wrap env table).orderings = [] := by
  rw [wrap, h]
  rfl

/-- A promoted query represents the same relation. -/
theorem promoted_represents (hI : I.Lawful) (h : q.Represents I db r) (hr : r.rows.length ≤ maxCount) :
    Represents I db { draft := q.promoted env } r := by
  have hkept : (q.promoted env).kept I db =
      ((Sql.Source.derived (q.wrap env (q.promotedLabel env)).statement
        (q.promotedLabel env)).rows I db).map (Sql.Valuation.null.bind (q.promotedLabel env)) :=
    Draft.kept_of_none rfl
  have hseen := seen_rows env (q.promotedLabel env) hI h
  have hplain : ∀ e ∈ (q.promoted env).result.scalars, e.hasAggregate = false := by
    intro e he
    obtain ⟨name, rfl⟩ := scalars_wrap env _ e he
    rfl
  constructor
  case bindings => exact h.bindings
  case groupBy => rfl
  case having => rfl
  case orderings => exact wrap_orderings_nil h.orderings
  case flat => exact (q.hasCollection_wrap env _).trans h.flat
  case notNull =>
    intro e he
    obtain ⟨name, rfl⟩ := scalars_wrap env _ e he
    rfl
  case plain => exact fun _ => hplain
  case collapsed => intro hs; cases hs
  case small =>
    rw [hkept, List.length_map]
    rwa [← hseen, List.length_map] at hr
  case blank => exact h.blank.trans (form_wrap env _).symm
  case rows =>
    rw [← hseen, Stage.window_general, Draft.data_plain hplain, hkept, List.map_map]
    rfl

theorem selects_ofQuery : q.Selects (Mapping.ofQuery env q).statement.columns := by
  rw [Selects, Mapping.ofQuery_statement env q "", Shape.rebind_exprs, statement_columns,
    List.map_nil, Sql.foldl_addExpr_nil]

theorem widens_ofQuery : q.statement.Widens (Mapping.ofQuery env q).statement :=
  Shape.activator_widens env.settings.columnStem q.draft.result none q.statement

/-- The rows of the finished statement, read back, are the relation. -/
theorem read_ofQuery (hI : I.Lawful) (h : q.Represents I db r) :
    (Mapping.ofQuery env q).read ((Mapping.ofQuery env q).statement.rows I db) =
      r.rows.map Datum.json := by
  have hflat := Shape.activator_hasCollection env.settings.columnStem q.draft.result none q.statement
  rw [Mapping.read, Activator.read, if_neg (by rw [Mapping.ofQuery, hflat, h.flat]; simp),
    widens_ofQuery.clauses]
  refine map_rows hI h selects_ofQuery ?_
  intro g
  have hreads := Shape.activator_reads env.settings.columnStem q.draft.result none q.statement
    (List.prefix_refl _)
  refine Activator.Reads.build _ _ (hreads.mono (fun i e hc => ?_) _ _) h.flat
  exact Row.cell_map (fun a b hab => Sql.Expr.eval_congr hI hab g) hc

end Query

end EntityQuery
