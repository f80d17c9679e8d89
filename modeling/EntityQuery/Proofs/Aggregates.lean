import EntityQuery.Proofs.Correctness
import EntityQuery.Proofs.Invariants
import EntityQuery.Proofs.Provenance
import EntityQuery.Proofs.Semantics.Loading

/-! # Where aggregates are

If lambdas mention aggregates only where they speak of groups, statements call them only where
groups are at hand: in the columns, the having clause and the orderings of a statement that a
grouping was added to, and as the one column of a statement that an aggregate collapsed. Later
lambdas can pick such a call up by the name of a member, but the stages see to it that they find the
column of a derived table instead wherever a row is at hand. -/

namespace EntityQuery
set_option autoImplicit false

/-! ## Operators -/

namespace Operator

/-- The lambdas that speak of rows, which are all but those that a grouping has for its groups. -/
def rowLambdas : Operator → List Lambda
  | .filter f | .orderBy f _ _ | .select f => [f]
  | .skip _ | .take _ | .distinct => []
  | .aggregate _ args _ => args
  | .groupBy g => g.keys
  | .load chain => chain.steps.flatMap fun step => step.condition.toList ++ step.filter.toList
  | .join _ _ condition selector => [condition, selector]

/-- Only lambdas that speak of groups mention aggregates. -/
def AggregatesGroups (op : Operator) : Prop := ∀ f ∈ op.rowLambdas, f.body.hasAggregate = false

/-- Whether the operator puts aggregate calls into the statement that it is added to. -/
def aggregates : Operator → Bool
  | .aggregate .. | .groupBy _ => true
  | _ => false

/-- The stage that the operators lead to, and those of them that were added to the statement at hand
and not to one that it reads from. -/
def track (ops : List Operator) : Stage × List Operator :=
  ops.foldl (fun x op => (x.1.next op, if x.1.promotes op then [op] else x.2 ++ [op])) (.general, [])

/-- The operators that were added to the statement at hand. -/
def atHand (ops : List Operator) : List Operator := (track ops).2

theorem track_concat (ops : List Operator) (op : Operator) :
    track (ops ++ [op]) = ((track ops).1.next op,
      if (track ops).1.promotes op then [op] else (track ops).2 ++ [op]) := by
  rw [track, List.foldl_concat]
  rfl

end Operator

/-! ## Drafts -/

theorem Sql.Kept.aggregateFree :
    Sql.Kept False (fun e => e.hasAggregate = false) (fun e => e.hasAggregate = false) where
  closed := .aggregateFree
  column _ := rfl
  predicate e he := by rwa [Sql.Expr.hasAggregate_asPredicate]
  keys := Sql.Closed.aggregateFree.compare .eq
  andAlso l r hl hr := by simp [Sql.Expr.andAlso, hl, hr]

namespace Draft

variable {env : Env} {d d' : Draft} {f : Lambda}

/-- No aggregates in the clauses that are about single rows. -/
structure RowWise (d : Draft) : Prop where
  condition : ∀ e ∈ d.condition, e.hasAggregate = false
  groupBy : ∀ e ∈ d.groupBy, e.hasAggregate = false
  joins : ∀ j ∈ d.sources.joins, j.on.hasAggregate = false

/-- No aggregates in the other clauses. -/
structure Plain (d : Draft) : Prop where
  having : ∀ e ∈ d.having, e.hasAggregate = false
  orderings : ∀ o ∈ d.orderings, o.expr.hasAggregate = false
  result : ∀ e ∈ d.result.scalars, e.hasAggregate = false

/-- The result is one call of the function, over single rows, and nothing else has aggregates. -/
structure Calls (d : Draft) (function : Sql.AggregateFunction) (distinct : Bool) : Prop where
  result : ∃ es, d.result = .scalar (.aggregate function es distinct) ∧
    ∀ e ∈ es, e.hasAggregate = false
  having : d.having = none
  orderings : d.orderings = []

theorem rowWise_and_plain_iff : d.RowWise ∧ d.Plain ↔
    d.Clauses (fun e => e.hasAggregate = false) (fun e => e.hasAggregate = false) ∧
      ∀ j ∈ d.sources.joins, j.on.hasAggregate = false := by
  constructor
  · rintro ⟨hr, hp⟩
    exact ⟨⟨hp.result, hr.condition, hr.groupBy, hp.having, hp.orderings⟩, hr.joins⟩
  · rintro ⟨hc, hj⟩
    exact ⟨⟨hc.condition, hc.groupBy, hj⟩, hc.having, hc.orderings, hc.result⟩

theorem Plain.calls (hp : d.Plain) (hb : d.bindings = {}) {function : Sql.AggregateFunction}
    {args : List Lambda} {distinct : Bool} (hargs : ∀ f ∈ args, f.body.hasAggregate = false)
    (hd : d.aggregate env function args distinct = .ok d') : d'.Calls function distinct := by
  obtain ⟨-, -, es, hes, rfl⟩ := aggregate_eq_ok.mp hd
  refine ⟨⟨es, rfl, ?_⟩, rfl, rfl⟩
  intro e he
  obtain ⟨f, hf, hfe⟩ := exists_of_mem_right (mapM_eq_ok.mp hes) e he
  obtain ⟨p, -, hfe⟩ := argument_eq_ok.mp hfe
  exact expression_closed .aggregateFree hb hp.result (by simp [hargs f hf]) hfe

theorem RowWise.group (h : d.RowWise) (hp : d.Plain) (hb : d.bindings = {}) {g : Grouping}
    (hkeys : ∀ f ∈ g.keys, f.body.hasAggregate = false) (hd : d.group env g = .ok d') :
    d'.RowWise := by
  have hrest := group_rest hd
  obtain ⟨-, -, keys, having, os, p, result, hk, -, -, -, -, hd'⟩ := group_eq_ok.mp hd
  have hgroupBy : d'.groupBy = d.groupBy ++ keys.flatMap (·.1) := by
    rw [hd', setOrderings_eq, addHavings_eq]
  rw [hrest]
  refine { h with groupBy := ?_ }
  intro e he
  change e ∈ d'.groupBy at he
  rw [hgroupBy, List.mem_append, List.mem_flatMap] at he
  rcases he with he | ⟨key, hkey, he⟩
  · exact h.groupBy e he
  · obtain ⟨f, hf, hfk⟩ := exists_of_mem_right (mapM_eq_ok.mp hk) key hkey
    obtain ⟨p', -, hks, -⟩ := groupKey_eq_ok.mp hfk
    exact Scope.groupKeys_closed .aggregateFree (bound_all hb hp.result p') (by simp [hkeys f hf])
      hks e he

theorem RowWise.load (h : d.RowWise) (hp : d.Plain) (hb : d.bindings = {}) {chain : NavigationChain}
    (hfree : ∀ step ∈ chain.steps, step.AggregateFree) (hl : Query.load d env chain = .ok d') :
    d'.RowWise ∧ d'.Plain := by
  have hrest := (load_joins hl).1
  obtain ⟨-, result, d₁, hw, rfl⟩ := Query.load_eq_ok.mp hl
  have hsteps : ∀ step ∈ chain.steps, StepAllows False step := by
    intro step hstep
    refine ⟨fun f hf => ?_, fun f hf => ?_⟩
    · simp [(hfree step hstep).1 f hf]
    · simp [(hfree step hstep).2 f hf]
  obtain ⟨hj, hresult⟩ := kept_walk .aggregateFree hb hsteps h.joins hp.result hw
  rw [hrest]
  exact ⟨{ h with joins := hj }, { hp with result := hresult }⟩

end Draft

/-! ## Queries -/

namespace Query

variable {env : Env} {q q' : Query} {op : Operator} {layer : List Operator}

/-- Where the draft of a query has aggregates, given the operators that were added to it. -/
structure Places (q : Query) (layer : List Operator) : Prop where
  rows : q.draft.RowWise
  plain : (∀ op ∈ layer, op.aggregates = false) → q.draft.Plain
  general : q.stage = .general → ∀ op ∈ layer, op.aggregates = false
  calls : ∀ function args distinct, .aggregate function args distinct ∈ layer →
    q.stage = .aggregate ∧ q.draft.Calls function distinct

theorem Places.ofPlain (hr : q.draft.RowWise) (hp : q.draft.Plain)
    (hl : ∀ op ∈ layer, op.aggregates = false) : q.Places layer where
  rows := hr
  plain _ := hp
  general _ := hl
  calls function args distinct hmem := by
    have hfree := hl _ hmem
    cases hfree

theorem root_places {entity : String} (h : root env entity = .ok q) : q.Places [] := by
  obtain ⟨e, -, rfl⟩ := root_eq_ok.mp h
  refine .ofPlain ⟨by simp, by simp, by simp⟩ ⟨by simp, by simp, ?_⟩ (by simp)
  intro x hx
  obtain ⟨p, -, rfl⟩ := Shape.scalars_ofEntity hx
  rfl

theorem promoted_places (q : Query) (env : Env) : Places { draft := q.promoted env } [] := by
  refine .ofPlain ⟨by simp [promoted], by simp [promoted], by simp [promoted]⟩
    ⟨by simp [promoted], ?_, ?_⟩ (by simp)
  · intro o ho
    obtain ⟨o', -, hR⟩ := exists_of_mem_right (q.wrap_orderings_expose env _).flip o ho
    obtain ⟨c, -, hc, -⟩ := hR.2
    rw [hc]
    rfl
  · intro e he
    obtain ⟨name, rfl⟩ := scalars_wrap env _ e he
    rfl

theorem Extends.places {d : Draft} (hr : d.RowWise) (hp : d.Plain) (hb : d.bindings = {})
    (hl : ∀ op ∈ layer, op.aggregates = false) (hop : op.AggregatesGroups) (h : Extends env d op q') :
    q'.Places (layer ++ [op]) := by
  have hlayer : op.aggregates = false → ∀ o ∈ layer ++ [op], o.aggregates = false :=
    fun hfree => List.forall_mem_append.mpr ⟨hl, List.forall_mem_singleton.mpr hfree⟩
  rcases h.frame with ⟨chain, rfl, hload⟩ | ⟨hop', hsources, -, -⟩
  · have hsteps : ∀ step ∈ chain.steps, step.AggregateFree := by
      intro step hstep
      refine ⟨fun f hf => hop f ?_, fun f hf => hop f ?_⟩ <;>
        refine List.mem_flatMap.mpr ⟨step, hstep, List.mem_append.mpr ?_⟩
      · exact .inl (Option.mem_toList.mpr hf)
      · exact .inr (Option.mem_toList.mpr hf)
    obtain ⟨hr', hp'⟩ := hr.load hp hb hsteps hload
    exact .ofPlain hr' hp' (hlayer rfl)
  obtain ⟨hclauses, hjoins⟩ := Draft.rowWise_and_plain_iff.mp ⟨hr, hp⟩
  have hplain : q'.draft.Clauses (fun e => e.hasAggregate = false) (fun e => e.hasAggregate = false) →
      op.aggregates = false → q'.Places (layer ++ [op]) := by
    intro hc hfree
    obtain ⟨hr', hp'⟩ := Draft.rowWise_and_plain_iff.mpr ⟨hc, by rwa [hsources]⟩
    exact .ofPlain hr' hp' (hlayer hfree)
  cases h with
  | @filter f _ hf =>
    have hfree := hop f (List.mem_singleton_self _)
    exact hplain (hclauses.filter Sql.Kept.aggregateFree.carried hb (by simp [hfree]) hf) rfl
  | @orderBy f _ _ _ hf =>
    have hfree := hop f (List.mem_singleton_self _)
    exact hplain (hclauses.orderBy .aggregateFree hb (by simp [hfree]) hf) rfl
  | @select f _ hf =>
    have hfree := hop f (List.mem_singleton_self _)
    exact hplain (hclauses.select .aggregateFree hb (by simp [hfree]) hf) rfl
  | skip _ => exact hplain hclauses rfl
  | take _ => exact hplain hclauses rfl
  | distinct _ => exact hplain hclauses rfl
  | @aggregate function args distinct d' hf =>
    have hcalls := hp.calls hb hop hf
    obtain ⟨-, -, es, -, rfl⟩ := Draft.aggregate_eq_ok.mp hf
    constructor
    case rows => exact ⟨hr.condition, by simp, hr.joins⟩
    case plain =>
      intro hfree
      cases hfree _ (List.mem_append_right _ (List.mem_singleton_self _))
    case general => intro hs; cases hs
    case calls =>
      intro function' args' distinct' hmem
      rcases List.mem_append.mp hmem with hmem | hmem
      · cases hl _ hmem
      · cases List.mem_singleton.mp hmem
        exact ⟨rfl, hcalls⟩
  | @groupBy g d' hg =>
    constructor
    case rows => exact hr.group hp hb hop hg
    case plain =>
      intro hfree
      cases hfree _ (List.mem_append_right _ (List.mem_singleton_self _))
    case general => intro hs; cases hs
    case calls =>
      intro function' args' distinct' hmem
      rcases List.mem_append.mp hmem with hmem | hmem
      · cases hl _ hmem
      · cases List.mem_singleton.mp hmem
  | load _ => exact absurd rfl (hop' _)

theorem Places.adds (h : q.Places layer) (hb : q.draft.bindings = {}) (hop : op.AggregatesGroups)
    (ha : Adds env q op q') : q'.Places (layer ++ [op]) := by
  cases ha with
  | extend hs he => exact he.places h.rows (h.plain (h.general hs)) hb (h.general hs) hop
  | @move _ stage hm =>
    constructor
    case rows => exact h.rows
    case plain => exact fun hfree => h.plain fun o ho => hfree o (List.mem_append_left _ ho)
    case general => exact fun hs => absurd hs hm.leaves.1
    case calls =>
      intro function args distinct hmem
      rcases List.mem_append.mp hmem with hmem | hmem
      · have hstage := (h.calls function args distinct hmem).1
        rw [hstage] at hm
        cases hm
      · rw [← List.mem_singleton.mp hmem] at hm
        rcases hm.operator with ⟨_, hmoves⟩ | ⟨_, hmoves⟩ | hmoves <;> cases hmoves
  | @select f d hs hf =>
    constructor
    case rows =>
      obtain ⟨-, p, result, -, -, rfl⟩ := Draft.select_eq_ok.mp hf
      exact { h.rows with }
    case plain =>
      intro hfree
      have hplain := h.plain fun o ho => hfree o (List.mem_append_left _ ho)
      obtain ⟨hclauses, hjoins⟩ := Draft.rowWise_and_plain_iff.mp ⟨h.rows, hplain⟩
      have hselector := hop f (List.mem_singleton_self _)
      have hclauses' := hclauses.select .aggregateFree hb (by simp [hselector]) hf
      exact ⟨hclauses'.having, hclauses'.orderings, hclauses'.result⟩
    case general =>
      intro hgeneral
      rw [hgeneral] at hs
      cases hs
    case calls =>
      intro function args distinct hmem
      rcases List.mem_append.mp hmem with hmem | hmem
      · rw [(h.calls function args distinct hmem).1] at hs
        cases hs
      · cases List.mem_singleton.mp hmem
  | @join kind inner condition selector p p' r r' e result hs _ _ _ he hresult =>
    have hplain := h.plain (h.general hs)
    have hinner : ∀ e ∈ (inner.wrap env (joinedLabel q.draft env)).result.scalars,
        e.hasAggregate = false := fun e he => (inner.notNull_wrap env _ e he).2
    have hcondition : condition.body.hasAggregate = false := hop condition (by simp [Operator.rowLambdas])
    have hselector : selector.body.hasAggregate = false := hop selector (by simp [Operator.rowLambdas])
    refine .ofPlain ⟨h.rows.condition, h.rows.groupBy, ?_⟩ { hplain with result := ?_ } ?_
    · intro j hj
      rcases List.mem_append.mp hj with hj | hj
      · exact h.rows.joins j hj
      · rw [List.mem_singleton.mp hj, Sql.Expr.hasAggregate_asPredicate]
        exact Scope.expression_closed .aggregateFree
          ((Draft.bound_all hb hplain.result p).bind hinner p') (by simp [hcondition]) he
    · exact Scope.selection_closed .aggregateFree
        ((Draft.bound_all hb hplain.result r).bind hinner r') (by simp [hselector]) hresult
    · exact List.forall_mem_append.mpr ⟨h.general hs, List.forall_mem_singleton.mpr rfl⟩

/-- The stage and the operators at hand are what `Operator.track` says. -/
theorem Chain.places {ops : List Operator} (h : Chain env Operator.AggregatesGroups ops q) :
    q.stage = (Operator.track ops).1 ∧ q.Places (Operator.atHand ops) := by
  induction h with
  | root hr =>
    refine ⟨?_, root_places hr⟩
    obtain ⟨e, -, rfl⟩ := root_eq_ok.mp hr
    rfl
  | @accept ops _ q q' op hq hop _ ha ih _ =>
    obtain ⟨hstage, hplaces⟩ := ih
    obtain ⟨-, hadds, hnext⟩ := adds_of_accept ha
    have hbindings := hq.reachable.tidy
    rw [Operator.atHand, Operator.track_concat, ← hstage]
    refine ⟨hnext, ?_⟩
    by_cases hp : q.stage.promotes op = true
    · rw [host_of_promotes hp] at hadds
      rw [if_pos hp]
      exact (q.promoted_places env).adds (hbindings.promoted env).bindings hop hadds
    · rw [host_of_stays hp] at hadds
      rw [if_neg hp]
      exact hplaces.adds hbindings.bindings hop hadds

end Query

/-! ## Statements -/

namespace Sql

/-- Aggregates are where the operators that were added to the statement put them: nowhere in the
clauses about single rows; if everything was collapsed, in its only column, outermost; and without
a grouping nowhere else. -/
structure Statement.AggregatesPlaced (st : Statement) (layer : List Operator) : Prop where
  condition : ∀ e ∈ st.condition, e.hasAggregate = false
  groupBy : ∀ e ∈ st.groupBy, e.hasAggregate = false
  joins : ∀ j ∈ st.sources.joins, j.on.hasAggregate = false
  collapsed : ∀ function args distinct, .aggregate function args distinct ∈ layer →
    st.having = none ∧ st.orderings = [] ∧
      ∃ es label, st.columns = [⟨.aggregate function es distinct, label⟩] ∧
        ∀ e ∈ es, e.hasAggregate = false
  plain : (∀ op ∈ layer, op.aggregates = false) → ∀ e ∈ st.expressions, e.hasAggregate = false

end Sql

namespace Query

variable {env : Env} {q : Query} {st : Sql.Statement} {layer : List Operator}

theorem Gives.placed (hst : q.Gives st) (h : q.Places layer) : st.AggregatesPlaced layer := by
  constructor
  case condition =>
    rw [hst.condition]
    exact h.rows.condition
  case groupBy =>
    rw [hst.groupBy]
    exact h.rows.groupBy
  case joins =>
    rw [hst.sources]
    exact h.rows.joins
  case collapsed =>
    intro function args distinct hmem
    obtain ⟨-, hcalls⟩ := h.calls function args distinct hmem
    obtain ⟨es, hresult, hes⟩ := hcalls.result
    refine ⟨hst.having.trans hcalls.having, hst.orderings.trans hcalls.orderings, es, ?_⟩
    obtain ⟨os, hos, hexprs⟩ := hst.selects
    rw [hcalls.orderings, List.subset_nil] at hos
    rw [hresult, hos] at hexprs
    change st.columns.map (·.expr) = [.aggregate function es distinct] at hexprs
    obtain ⟨c, hc, hexpr⟩ := List.map_eq_singleton_iff.mp hexprs
    refine ⟨c.label, ?_, hes⟩
    rw [hc, ← hexpr]
  case plain =>
    intro hlayer
    have hclauses := (Draft.rowWise_and_plain_iff.mp ⟨h.rows, h.plain hlayer⟩).1
    exact hst.expressions hclauses fun _ he => he

end Query

/-- The statement is one that the operators give, whichever columns it selects besides those of its
result, and `allowed` is true of each of them. -/
def Sql.Statement.CompiledFrom (env : Env) (allowed : Operator → Prop) (ops : List Operator)
    (st : Sql.Statement) : Prop :=
  ∃ q, Query.Chain env allowed ops q ∧ q.Gives st

/-- **Aggregates stay where groups are.** If operators mention aggregates only in what a grouping says
of its groups, then in every statement of the compiled tree the condition, the group keys and the
join conditions have none. A statement that an aggregate was added to has one column, a call over
arguments without aggregates, and no other calls. All other calls are in the columns, the having
clause and the orderings of statements that a grouping was added to. -/
theorem compile_aggregates_placed {env : Env} {entity : String} {ops : List Operator} {m : Mapping}
    (hops : ∀ op ∈ ops, op.BuiltBy env Operator.AggregatesGroups) (h : compile env entity ops = .ok m) :
    m.statement.CompiledFrom env Operator.AggregatesGroups ops ∧
      ∀ st ∈ m.statement.nested,
        (∃ ops', st.CompiledFrom env Operator.AggregatesGroups ops') ∧
        ∀ ops', st.CompiledFrom env Operator.AggregatesGroups ops' →
          st.AggregatesPlaced (Operator.atHand ops') := by
  refine ⟨?_, fun st hst => ⟨?_, ?_⟩⟩
  · obtain ⟨q, hq, rfl⟩ := compile_eq_ok.mp h
    exact ⟨q, Query.chain_of_build hops hq, q.gives_ofQuery env⟩
  · exact compile_nested hops h st hst
  · rintro ops' ⟨q, hq, hgives⟩
    exact hgives.placed hq.places.2

namespace Sample

/-- What the three users with most orders have spent, if it is more than ten. -/
def spending : List Operator :=
  [.groupBy {
      keys := [⟨[x], .member (.param x) "user_id"⟩]
      having := [⟨[x], .binary (.compare .gt)
        (.aggregate .sum (some (.member (.member (.param x) "elements") "amount")) false)
        (.const (.int 10))⟩]
      orderings := [(⟨[x], .aggregate .count none false⟩, .desc)]
      selector := ⟨[x], .record [("user", .member (.param x) "key"),
        ("total", .aggregate .sum (some (.member (.member (.param x) "elements") "amount")) false)]⟩ },
    .take 3]

/-- The sum over all names of the most that an adult of the name has spent, if it is positive. -/
def spenders (spending : Query) : List Operator :=
  [.filter ⟨[x], .binary (.compare .ge) (.member (.param x) "age") (.const (.int 18))⟩,
    .join .inner spending
      ⟨[x, y], .binary (.compare .eq) (.member (.param x) "id") (.member (.param y) "user")⟩
      ⟨[x, y], .record [("name", .member (.param x) "name"), ("total", .member (.param y) "total")]⟩,
    .filter ⟨[x], .binary (.compare .gt) (.member (.param x) "total") (.const (.int 0))⟩,
    .groupBy {
      keys := [⟨[x], .member (.param x) "name"⟩]
      selector := ⟨[x], .record [("name", .member (.param x) "key"),
        ("most", .aggregate .max (some (.member (.member (.param x) "elements") "total")) false)]⟩ },
    .filter ⟨[x], .binary (.compare .gt) (.member (.param x) "most") (.const (.int 0))⟩,
    .aggregate .sum [⟨[x], .member (.param x) "most"⟩] false]

end Sample

/-- Which of columns, having clause and orderings of a statement have aggregates. -/
def Sql.Statement.calls (st : Sql.Statement) : Bool × Bool × Bool :=
  (st.columns.any (·.expr.hasAggregate), st.having.any (·.hasAggregate),
    st.orderings.any (·.expr.hasAggregate))

theorem compile_aggregates_placed_spenders : ∃ inner m,
    Query.build Sample.env "Order" Sample.spending = .ok inner ∧
    compile Sample.env "User" (Sample.spenders inner) = .ok m ∧
    m.statement.nested.map (fun st => st.calls) = [(true, false, false), (true, false, false),
      (false, false, false), (true, true, true)] ∧
    m.statement.CompiledFrom Sample.env Operator.AggregatesGroups (Sample.spenders inner) ∧
    ∀ st ∈ m.statement.nested,
      (∃ ops, st.CompiledFrom Sample.env Operator.AggregatesGroups ops) ∧
      ∀ ops, st.CompiledFrom Sample.env Operator.AggregatesGroups ops →
        st.AggregatesPlaced (Operator.atHand ops) := by
  have h : (do
      let inner ← Query.build Sample.env "Order" Sample.spending
      let m ← compile Sample.env "User" (Sample.spenders inner)
      pure (m.statement.nested.map (fun st => st.calls)) :
        Except CompileError (List (Bool × Bool × Bool))) =
      .ok [(true, false, false), (true, false, false), (false, false, false), (true, true, true)] :=
    ok_of_toOption (by decide +kernel)
  simp only [bind_eq_ok, pure_eq_ok] at h
  obtain ⟨inner, hi, m, hm, hcalls⟩ := h
  have hinner : Query.Chain Sample.env Operator.AggregatesGroups Sample.spending inner := by
    refine Query.chain_of_build ?_ hi
    simp [Sample.spending, Operator.BuiltBy, Operator.AggregatesGroups, Operator.rowLambdas,
      Term.hasAggregate]
  have hops : ∀ op ∈ Sample.spenders inner, op.BuiltBy Sample.env Operator.AggregatesGroups := by
    intro op hop
    refine ⟨?_, ?_⟩
    · revert op
      simp [Sample.spenders, Operator.AggregatesGroups, Operator.rowLambdas, Term.hasAggregate,
        Term.memberAggregate]
    · intro kind inner' condition selector hjoin
      rw [hjoin] at hop
      simp only [Sample.spenders, List.mem_cons, List.not_mem_nil, reduceCtorEq, false_or, or_false,
        Operator.join.injEq] at hop
      rw [hop.2.1]
      exact ⟨_, hinner⟩
  exact ⟨inner, m, hi, hm, hcalls, compile_aggregates_placed hops hm⟩

end EntityQuery
