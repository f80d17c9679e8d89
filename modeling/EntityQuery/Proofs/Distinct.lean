import EntityQuery.Proofs.Correctness
import EntityQuery.Proofs.Invariants

/-! # What is merged in a derived table

A query whose equal rows are merged can be wrapped like any other. Then its orderings become columns
of the wrapped statement too, so rows are merged only if they also agree in what they are sorted by.
That makes no difference exactly if the result holds everything that the rows are sorted by. -/

namespace EntityQuery
set_option autoImplicit false

/-! ## First appearances in another order -/

section Firsts

variable {α : Type} {same : α → α → Bool}

/-- Of items that are pairwise not the same there are at most as many as of items that represent them
all. -/
theorem length_le_of_represented (hsame : Equivalence fun a b => same a b = true) {as bs : List α}
    (has : as.Pairwise fun a b => same a b = false) (h : ∀ a ∈ as, ∃ b ∈ bs, same a b = true) :
    as.length ≤ bs.length := by
  induction as generalizing bs with
  | nil => exact Nat.zero_le _
  | cons a as ih =>
    obtain ⟨b, hb, hab⟩ := h a (List.mem_cons_self ..)
    obtain ⟨bs₁, bs₂, rfl⟩ := List.append_of_mem hb
    rw [List.pairwise_cons] at has
    -- The item that represents `a` represents none of the others, so it can be left out for them.
    have hrest : ∀ x ∈ as, ∃ y ∈ bs₁ ++ bs₂, same x y = true := by
      intro x hx
      obtain ⟨y, hy, hxy⟩ := h x (List.mem_cons_of_mem _ hx)
      refine ⟨y, ?_, hxy⟩
      rcases List.mem_append.mp hy with hy | hy
      · exact List.mem_append_left _ hy
      · rcases List.mem_cons.mp hy with rfl | hy
        · have hax : same a x = true := hsame.trans hab (hsame.symm hxy)
          rw [has.1 x hx] at hax
          cases hax
        · exact List.mem_append_right _ hy
    have hlength := ih has.2 hrest
    simp only [List.length_append, List.length_cons] at hlength ⊢
    omega

theorem exists_mem_firsts_of_perm (hsame : Equivalence fun a b => same a b = true) {l l' : List α}
    (h : l.Perm l') {a : α} (ha : a ∈ firsts same l) : ∃ b ∈ firsts same l', same a b = true := by
  have hmem : a ∈ l' := h.subset (mem_of_mem_firsts ha)
  obtain ⟨b, hb, hba⟩ := exists_mem_firsts hsame.refl hmem
  exact ⟨b, hb, hsame.symm hba⟩

theorem length_firsts_of_perm (hsame : Equivalence fun a b => same a b = true) {l l' : List α}
    (h : l.Perm l') : (firsts same l).length = (firsts same l').length := by
  have hle : ∀ {m m' : List α}, m.Perm m' → (firsts same m).length ≤ (firsts same m').length :=
    fun hm => length_le_of_represented hsame (firsts_pairwise same _)
      fun _ ha => exists_mem_firsts_of_perm hsame hm ha
  exact Nat.le_antisymm (hle h) (hle h.symm)

end Firsts

/-! ## Rows of statements that merge -/

namespace Sql

variable {I : Interpretation} {db : Database}

/-- Whether `DISTINCT` takes two rows for one. -/
def sameRow (I : Interpretation) (r r' : Row) : Bool := (r.zip r').all fun p => I.same p.1 p.2

/-- As many rows, and each of them represented on the other side. -/
structure SameRows (I : Interpretation) (rows rows' : List Row) : Prop where
  length : rows.length = rows'.length
  left : ∀ r ∈ rows, ∃ r' ∈ rows', sameRow I r r' = true
  right : ∀ r' ∈ rows', ∃ r ∈ rows, sameRow I r' r = true

/-- The groups that the columns are evaluated in, before they are sorted. -/
def Statement.unsorted (I : Interpretation) (db : Database) (st : Statement) : List (List Valuation) :=
  (st.groups I ((st.sources.valuations I db).filter fun v => satisfies I st.condition [v])).filter
    (satisfies I st.having)

/-- The cells of expressions in a group of rows. -/
def cellsOf (I : Interpretation) (es : List Expr) (g : List Valuation) : Row :=
  es.map fun e => e.eval I g

/-- Whether expressions have the same values in two groups of rows. -/
def alikeIn (I : Interpretation) (es : List Expr) (g g' : List Valuation) : Bool :=
  es.all fun e => I.same (e.eval I g) (e.eval I g')

theorem sameRow_cellsOf (es : List Expr) (g g' : List Valuation) :
    sameRow I (cellsOf I es g) (cellsOf I es g') = alikeIn I es g g' := by
  unfold sameRow cellsOf alikeIn
  induction es with
  | nil => rfl
  | cons e es ih => rw [List.map_cons, List.map_cons, List.zip_cons_cons, List.all_cons, ih, List.all_cons]

theorem alikeIn_equivalence (hI : Equivalence fun v w => I.same v w = true) (es : List Expr) :
    Equivalence fun g g' => alikeIn I es g g' = true := by
  simp only [alikeIn, List.all_eq_true]
  exact ⟨fun g e _ => hI.refl _, fun h e he => hI.symm (h e he),
    fun h h' e he => hI.trans (h e he) (h' e he)⟩

/-- Without a window the rows of a statement that merges are those of the sorted groups, first
appearances only. -/
theorem Statement.rows_distinct {st : Statement} (hd : st.distinct = true) (hskip : st.skip = none)
    (htake : st.take = none) :
    st.rows I db = (firsts (alikeIn I (st.columns.map (·.expr)))
      ((st.unsorted I db).mergeSort (sortsBefore I st.orderings))).map
        (cellsOf I (st.columns.map (·.expr))) := by
  have hcells : (fun g => st.columns.map fun c => c.expr.eval I g) =
      cellsOf I (st.columns.map (·.expr)) := by
    funext g
    rw [cellsOf, List.map_map]
    rfl
  rw [rows_eq, select, hd, hskip, htake]
  simp only [window, merge, if_true, Option.getD_none, List.drop_zero, hcells]
  rw [← Statement.unsorted]
  -- Rows are compared cell by cell, which is to compare the groups they are made of.
  change firsts (sameRow I) _ = _
  rw [firsts_map]
  simp only [sameRow_cellsOf]

theorem Statement.length_rows_distinct (hI : Equivalence fun v w => I.same v w = true) {st : Statement}
    (hd : st.distinct = true) (hskip : st.skip = none) (htake : st.take = none) :
    (st.rows I db).length = (firsts (alikeIn I (st.columns.map (·.expr))) (st.unsorted I db)).length := by
  rw [rows_distinct hd hskip htake, List.length_map]
  exact length_firsts_of_perm (alikeIn_equivalence hI _) (List.mergeSort_perm _ _)

/-- The two statements differ only in how rows are sorted and in what columns are called. -/
structure Statement.Resorts (st st' : Statement) : Prop where
  clauses : st' = { st with columns := st'.columns, orderings := st'.orderings }
  exprs : st'.columns.map (·.expr) = st.columns.map (·.expr)

theorem Statement.Resorts.unsorted {st st' : Statement} (h : st.Resorts st') :
    st'.unsorted I db = st.unsorted I db := by
  have hcollapses : st'.collapses = st.collapses := by
    have hany := congrArg (List.any · Expr.hasAggregate) h.exprs
    simp only [List.any_map, Function.comp_def] at hany
    rw [collapses, collapses, hany, h.clauses]
  unfold Statement.unsorted groups
  rw [hcollapses, h.clauses]

theorem Statement.Resorts.sameRows (hI : Equivalence fun v w => I.same v w = true) {st st' : Statement}
    (h : st.Resorts st') (hd : st.distinct = true) (hskip : st.skip = none) (htake : st.take = none) :
    SameRows I (st.rows I db) (st'.rows I db) := by
  have hequiv := alikeIn_equivalence hI (st.columns.map (·.expr))
  have hperm : ((st.unsorted I db).mergeSort (sortsBefore I st.orderings)).Perm
      ((st.unsorted I db).mergeSort (sortsBefore I st'.orderings)) :=
    (List.mergeSort_perm _ _).trans (List.mergeSort_perm _ _).symm
  have hrows' : st'.rows I db = (firsts (alikeIn I (st.columns.map (·.expr)))
      ((st.unsorted I db).mergeSort (sortsBefore I st'.orderings))).map
        (cellsOf I (st.columns.map (·.expr))) := by
    rw [← h.exprs, ← h.unsorted]
    exact rows_distinct (by rw [h.clauses]; exact hd) (by rw [h.clauses]; exact hskip)
      (by rw [h.clauses]; exact htake)
  rw [rows_distinct hd hskip htake, hrows']
  have hrepresented : ∀ {l l' : List (List Valuation)}, l.Perm l' →
      ∀ r ∈ (firsts (alikeIn I (st.columns.map (·.expr))) l).map (cellsOf I (st.columns.map (·.expr))),
        ∃ r' ∈ (firsts (alikeIn I (st.columns.map (·.expr))) l').map
          (cellsOf I (st.columns.map (·.expr))), sameRow I r r' = true := by
    intro l l' hl r hr
    obtain ⟨g, hg, rfl⟩ := List.mem_map.mp hr
    obtain ⟨g', hg', halike⟩ := exists_mem_firsts_of_perm hequiv hl hg
    exact ⟨_, List.mem_map_of_mem hg', by rw [sameRow_cellsOf]; exact halike⟩
  refine ⟨?_, hrepresented hperm, hrepresented hperm.symm⟩
  rw [List.length_map, List.length_map, length_firsts_of_perm hequiv hperm]

end Sql

/-! ## Wrapped queries -/

namespace Query

variable {env : Env} {q : Query}

/-- Everything that the rows are sorted by is part of the result. -/
def SortsByResult (q : Query) : Prop :=
  ∀ o ∈ q.draft.orderings, q.draft.result.leaves.any (· == o.expr) = true

/-- The query without its orderings. -/
def unsorted (q : Query) : Query := { q with draft := { q.draft with orderings := [] } }

/-- The statement merges rows that agree in the scalars of the result and in the orderings that are
not among them. It compares the result alone exactly if the query sorts by its result, and then the
orderings make no difference to which rows are merged and how many are left. -/
structure MergesBy (q : Query) (env : Env) (st : Sql.Statement) : Prop where
  distinct : st.distinct = true
  columns : q.SelectsOnce st.columns
  exact : st.columns.map (·.expr) = q.draft.result.leaves.eraseDups ↔ q.SortsByResult
  rows : q.SortsByResult → ∀ (I : Interpretation) (db : Database) (table : String),
    Equivalence (fun v w => I.same v w = true) →
      Sql.SameRows I (st.rows I db) ((q.unsorted.wrap env table).statement.rows I db)

theorem eraseDups_eq_nil {es : List Sql.Expr} : es.eraseDups = [] ↔ es = [] := by
  cases es with
  | nil => simp
  | cons e es => simp [List.eraseDups_cons]

theorem SelectsOnce.exact {columns : List Sql.Projected} (h : q.SelectsOnce columns) :
    columns.map (·.expr) = q.draft.result.leaves.eraseDups ↔ q.SortsByResult := by
  rw [h, List.append_right_eq_self, eraseDups_eq_nil, List.filter_eq_nil_iff]
  simp [SortsByResult]

theorem unsorted_sortsByResult (q : Query) : q.unsorted.SortsByResult := by
  intro o ho
  cases ho

theorem wrap_resorts (hc : q.draft.result.hasCollection = false) (h : q.SortsByResult)
    (table table' : String) :
    (q.wrap env table).statement.Resorts (q.unsorted.wrap env table').statement := by
  have hexprs := (q.wrap_selects env table hc).exact.mpr h
  have hexprs' := (q.unsorted.wrap_selects env table' hc).exact.mpr q.unsorted_sortsByResult
  refine ⟨?_, hexprs'.trans hexprs.symm⟩
  have hstatement : q.unsorted.statement = { q.statement with orderings := [] } := by
    obtain ⟨d, stage⟩ := q
    cases stage <;> rfl
  rw [(q.unsorted.wrap_widens env table').clauses, (q.wrap_widens env table).clauses, hstatement]

theorem wrap_distinct (hs : q.stage = .distinct) (env : Env) (table : String) :
    (q.wrap env table).statement.distinct = true ∧ (q.wrap env table).statement.skip = none ∧
      (q.wrap env table).statement.take = none := by
  rw [(q.wrap_widens env table).clauses]
  obtain ⟨d, stage⟩ := q
  obtain rfl : stage = .distinct := hs
  exact ⟨rfl, rfl, rfl⟩

theorem wrap_mergesBy (hs : q.stage = .distinct) (hc : q.draft.result.hasCollection = false)
    (table : String) : q.MergesBy env (q.wrap env table).statement := by
  obtain ⟨hdistinct, hskip, htake⟩ := wrap_distinct hs env table
  have hcolumns := q.wrap_selects env table hc
  refine ⟨hdistinct, hcolumns, hcolumns.exact, fun h I db table' hI => ?_⟩
  exact (wrap_resorts hc h table table').sameRows hI hdistinct hskip htake

/-- How many rows the wrapped statement of a query that merges rows has, without sorting them. -/
def wrappedCount (q : Query) (env : Env) (I : Interpretation) (db : Database) : Nat :=
  let st := (q.wrap env (q.promotedLabel env)).statement
  (firsts (Sql.alikeIn I (st.columns.map (·.expr))) (st.unsorted I db)).length

theorem wrappedCount_eq (hs : q.stage = .distinct) {I : Interpretation} {db : Database}
    (hI : Equivalence fun v w => I.same v w = true) :
    ((q.wrap env (q.promotedLabel env)).statement.rows I db).length = q.wrappedCount env I db := by
  obtain ⟨hdistinct, hskip, htake⟩ := wrap_distinct hs env (q.promotedLabel env)
  exact Sql.Statement.length_rows_distinct hI hdistinct hskip htake

end Query

/-- **What a wrapped query merges by.** A reachable query that merges equal rows can be promoted.
There, and where it is joined to another query, the derived statement merges by the result and by
the orderings that are not part of it. -/
theorem Query.distinct_mergesBy {env : Env} {q : Query} (hq : Reachable env q)
    (hs : q.stage = .distinct) :
    (∃ d st table, q.promote env = .ok d ∧ d.sources = ⟨.derived st table, []⟩ ∧ q.MergesBy env st) ∧
    ∀ (kind : Sql.JoinKind) (condition : Lambda) (bindings : Bindings) (aliases : Aliases)
      (side : JoinSide), (q.joinSide env kind condition bindings aliases).2 = .ok side →
        ∃ st table, side.join.source = .derived st table ∧ q.MergesBy env st := by
  have hc : q.draft.result.hasCollection = false := hq.tidy.flat (by rw [hs]; simp)
  refine ⟨⟨q.promoted env, _, _, promote_eq_ok.mpr ⟨hc, rfl⟩, rfl, wrap_mergesBy hs hc _⟩, ?_⟩
  intro kind condition bindings aliases side hside
  obtain ⟨-, -, hu⟩ := joinSide_eq_ok.mp (Prod.ext rfl hside)
  obtain ⟨p, e, -, -, rfl⟩ := joinUnder_eq_ok.mp hu
  exact ⟨_, _, rfl, wrap_mergesBy hs hc _⟩

namespace Sample

/-- The names of users, sorted by the given member before the rest is dropped, each once. -/
def namesBy (member : String) : List Operator :=
  [.orderBy ⟨[x], .member (.param x) member⟩ .asc .primary,
    .select ⟨[x], .member (.param x) "name"⟩,
    .distinct]

/-- The names of users, each once. -/
def names : List Operator := [.select ⟨[x], .member (.param x) "name"⟩, .distinct]

/-- Two users of one name. -/
def namesakes : Database
  | "users" =>
    [fun | "id" => .int 1 | "name" => .text "ann" | "age" => .int 30 | _ => .null,
      fun | "id" => .int 2 | "name" => .text "ann" | "age" => .int 40 | _ => .null]
  | _ => []

theorem same_equivalence : Equivalence fun v w => interpretation.same v w = true := by
  simp only [interpretation, beq_iff_eq]
  exact ⟨fun _ => rfl, fun h => h.symm, fun h h' => h.trans h'⟩

end Sample

theorem Query.distinct_mergesBy_names : ∃ q d st table,
    Query.build Sample.env "User" (Sample.namesBy "name") = .ok q ∧ q.stage = .distinct ∧
    q.draft.orderings.length = 1 ∧ q.SortsByResult ∧ q.promote Sample.env = .ok d ∧
    d.sources = ⟨.derived st table, []⟩ ∧ q.MergesBy Sample.env st ∧
    Sql.SameRows Sample.interpretation (st.rows Sample.interpretation Sample.namesakes)
      ((q.unsorted.wrap Sample.env table).statement.rows Sample.interpretation Sample.namesakes) := by
  have h : (do
      let q ← Query.build Sample.env "User" (Sample.namesBy "name")
      pure (decide (q.stage = .distinct), q.draft.orderings.length,
        q.draft.orderings.all fun o => q.draft.result.leaves.any (· == o.expr)) :
        Except CompileError (Bool × Nat × Bool)) = .ok (true, 1, true) :=
    ok_of_toOption (by decide +kernel)
  simp only [bind_eq_ok, pure_eq_ok, Prod.mk.injEq, decide_eq_true_eq, List.all_eq_true] at h
  obtain ⟨q, hq, hs, hn, hsorts⟩ := h
  have hreach : Reachable Sample.env q := reachable_of_build (by simp [Sample.namesBy, Operator.Built]) hq
  obtain ⟨⟨d, st, table, hd, hsources, hmerges⟩, -⟩ := distinct_mergesBy hreach hs
  exact ⟨q, d, st, table, hq, hs, hn, hsorts, hd, hsources, hmerges,
    hmerges.rows hsorts _ _ _ Sample.same_equivalence⟩

/-- What rows were sorted by counts although the result has dropped it: two users of one name are one
row, but two if they were sorted by age before. -/
theorem Query.distinct_merges_by_orderings : ∃ q q' d d' st st' table table',
    Query.build Sample.env "User" (Sample.namesBy "age") = .ok q ∧
    Query.build Sample.env "User" Sample.names = .ok q' ∧ q.stage = .distinct ∧ q'.stage = .distinct ∧
    q.promote Sample.env = .ok d ∧ d.sources = ⟨.derived st table, []⟩ ∧
    q'.promote Sample.env = .ok d' ∧ d'.sources = ⟨.derived st' table', []⟩ ∧
    q.draft.result.leaves.length = 1 ∧ st.columns.length = 2 ∧
    (st.rows Sample.interpretation Sample.namesakes).length = 2 ∧
    (st'.rows Sample.interpretation Sample.namesakes).length = 1 := by
  have h : (do
      let q ← Query.build Sample.env "User" (Sample.namesBy "age")
      let q' ← Query.build Sample.env "User" Sample.names
      let _ ← q.promote Sample.env
      let _ ← q'.promote Sample.env
      pure (decide (q.stage = .distinct ∧ q'.stage = .distinct), q.draft.result.leaves.length,
        (q.wrap Sample.env (q.promotedLabel Sample.env)).statement.columns.length,
        q.wrappedCount Sample.env Sample.interpretation Sample.namesakes,
        q'.wrappedCount Sample.env Sample.interpretation Sample.namesakes) :
        Except CompileError (Bool × Nat × Nat × Nat × Nat)) = .ok (true, 1, 2, 2, 1) :=
    ok_of_toOption (by decide +kernel)
  simp only [bind_eq_ok, pure_eq_ok, Prod.mk.injEq, decide_eq_true_eq] at h
  obtain ⟨q, hq, q', hq', d, hd, d', hd', ⟨hs, hs'⟩, hleaves, hcolumns, hcount, hcount'⟩ := h
  obtain ⟨-, rfl⟩ := promote_eq_ok.mp hd
  obtain ⟨-, rfl⟩ := promote_eq_ok.mp hd'
  refine ⟨q, q', q.promoted Sample.env, q'.promoted Sample.env, _, _, _, _, hq, hq', hs, hs', hd, rfl,
    hd', rfl, hleaves, hcolumns, ?_, ?_⟩
  · exact (wrappedCount_eq hs Sample.same_equivalence).trans hcount
  · exact (wrappedCount_eq hs' Sample.same_equivalence).trans hcount'

end EntityQuery
