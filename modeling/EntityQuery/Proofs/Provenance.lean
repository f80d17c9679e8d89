import EntityQuery.Proofs.Unfolding

/-! # Where the statements of a tree come from

Every statement nested in a compiled one was the statement of a query at some time: of one that was
wrapped on the way, or of one that was joined. What is to be shown of all statements of a tree need
therefore be shown only of the queries that chains of operators build. -/

namespace EntityQuery
set_option autoImplicit false

/-! ## Loading -/

namespace Draft

variable {env : Env} {P : Aliases → Sql.Sources → Prop} {d d' : Draft}

theorem walk_induction
    (hlink : ∀ (a : Aliases) (s : Sql.Sources) (table : String) (on : Sql.Expr), P a s →
      P (a.register (a.fresh table)) (s.join ⟨.left, .table table (a.fresh table), on⟩))
    {steps : List NavigationStep} {below : Bool} {shape shape' : Shape} (hd : P d.aliases d.sources)
    (hw : walk env steps below shape d = (shape', d', none)) : P d'.aliases d'.sources := by
  induction steps generalizing below shape shape' d with
  | nil =>
    cases hw
    exact hd
  | cons step steps ih =>
    obtain ⟨owner, d₁, owner', member, many, member', -, ht, hrest, -⟩ := walk_cons_eq_none hw
    have hd₁ : P d₁.aliases d₁.sources := by
      rcases takeStep_eq_ok ht with ⟨-, rfl, -, -⟩ | ⟨link, k, k', c, f, -, -, -, -, -, rfl, -, -⟩
      · exact hd
      · exact hlink _ _ _ _ hd
    exact ih hd₁ hrest

/-- What joining tables under fresh aliases preserves, eager loading preserves. -/
theorem load_induction
    (hlink : ∀ (a : Aliases) (s : Sql.Sources) (table : String) (on : Sql.Expr), P a s →
      P (a.register (a.fresh table)) (s.join ⟨.left, .table table (a.fresh table), on⟩))
    {chain : NavigationChain} (hd : P d.aliases d.sources) (hl : Query.load d env chain = .ok d') :
    P d'.aliases d'.sources := by
  obtain ⟨-, result, d₁, hw, rfl⟩ := Query.load_eq_ok.mp hl
  have hd₁ : P d₁.aliases d₁.sources := walk_induction hlink hd hw
  exact hd₁

theorem nested_load {chain : NavigationChain} (hl : Query.load d env chain = .ok d') :
    d'.sources.nested = d.sources.nested := by
  refine load_induction (P := fun _ s => s.nested = d.sources.nested) ?_ rfl hl
  intro a s table on hs
  rw [Sql.Sources.nested_eq, Sql.Sources.all_join, List.flatMap_append, ← Sql.Sources.nested_eq, hs]
  exact List.append_nil _

end Draft

namespace Query

variable {env : Env} {allowed : Operator → Prop} {q q' : Query} {op : Operator}

/-! ## Statements of queries -/

/-- The statement is that of the query, with columns for the scalars of the result and for some of
the orderings. -/
structure Gives (q : Query) (st : Sql.Statement) : Prop where
  clauses : st = { q.statement with columns := st.columns }
  selects : ∃ os, os ⊆ q.draft.orderings ∧
    st.columns.map (·.expr) = (q.draft.result.scalars ++ os.map (·.expr)).eraseDups
  distinguished : Sql.Distinguished st.columns

theorem gives_wrap (q : Query) (env : Env) (table : String) :
    q.Gives (q.wrap env table).statement where
  clauses := (q.wrap_widens env table).clauses
  selects := ⟨q.draft.orderings, List.Subset.refl _, q.wrap_exprs env table⟩
  distinguished := q.wrap_distinguished env table

theorem gives_ofQuery (q : Query) (env : Env) : q.Gives (Mapping.ofQuery env q).statement := by
  rw [Mapping.ofQuery_statement env q ""]
  refine ⟨(Shape.rebind_widens ..).clauses, ⟨[], List.nil_subset _, ?_⟩, ?_⟩
  · rw [Shape.rebind_exprs, statement_columns, List.map_nil, Sql.foldl_addExpr_nil, List.map_nil,
      List.append_nil]
  · apply Shape.rebind_distinguished
    rw [statement_columns]
    exact .nil

theorem Gives.sources {st : Sql.Statement} (h : q.Gives st) : st.sources = q.draft.sources := by
  rw [h.clauses]
  exact q.statement_sources

theorem Gives.condition {st : Sql.Statement} (h : q.Gives st) : st.condition = q.draft.condition := by
  rw [h.clauses]
  exact q.statement_condition

theorem Gives.groupBy {st : Sql.Statement} (h : q.Gives st) : st.groupBy = q.draft.groupBy := by
  rw [h.clauses]
  exact q.statement_groupBy

theorem Gives.having {st : Sql.Statement} (h : q.Gives st) : st.having = q.draft.having := by
  rw [h.clauses]
  exact q.statement_having

theorem Gives.orderings {st : Sql.Statement} (h : q.Gives st) : st.orderings = q.draft.orderings := by
  rw [h.clauses]
  exact q.statement_orderings

theorem Gives.nested {st : Sql.Statement} (h : q.Gives st) :
    st.nested = st :: q.draft.sources.nested := by
  rw [Sql.Statement.nested_eq, h.sources]

theorem Gives.mem_columns {st : Sql.Statement} (h : q.Gives st) {c : Sql.Projected}
    (hc : c ∈ st.columns) :
    c.expr ∈ q.draft.result.scalars ∨ ∃ o ∈ q.draft.orderings, o.expr = c.expr := by
  obtain ⟨os, hos, hexprs⟩ := h.selects
  have hmem : c.expr ∈ st.columns.map (·.expr) := List.mem_map_of_mem hc
  rw [hexprs, ← Sql.foldl_addExpr_nil] at hmem
  have hmem' := (Sql.mem_of_mem_foldl_addExpr hmem).resolve_left List.not_mem_nil
  rcases List.mem_append.mp hmem' with hr | ho
  · exact .inl hr
  · obtain ⟨o, ho, he⟩ := List.mem_map.mp ho
    exact .inr ⟨o, hos ho, he⟩

theorem Gives.expressions {st : Sql.Statement} {Q C : Sql.Expr → Prop} (h : q.Gives st)
    (hq : q.draft.Clauses Q C) (hC : ∀ e, C e → Q e) : ∀ e ∈ st.expressions, Q e := by
  rw [h.clauses]
  refine clauses_expressions hq hC ?_
  intro e he
  obtain ⟨c, hc, rfl⟩ := List.mem_map.mp he
  rcases h.mem_columns hc with hr | ⟨o, ho, heq⟩
  · exact hq.result _ hr
  · rw [← heq]
    exact hq.orderings o ho

/-! ## Chains -/

/-- The query that the operators build from some entity, `allowed` being true of each of them.
Queries joined on the way are built likewise. -/
inductive Chain (env : Env) (allowed : Operator → Prop) : List Operator → Query → Prop where
  | root {entity : String} {q : Query} : Query.root env entity = .ok q → Chain env allowed [] q
  | accept {ops innerOps : List Operator} {q q' : Query} {op : Operator} :
    Chain env allowed ops q → allowed op →
    (∀ kind inner condition selector, op = .join kind inner condition selector →
      Chain env allowed innerOps inner) →
    q.accept env op = .ok q' → Chain env allowed (ops ++ [op]) q'

theorem Chain.reachable {ops : List Operator} (h : Chain env allowed ops q) : Reachable env q := by
  induction h with
  | root hr => exact .root hr
  | accept _ _ _ ha ih hinner => exact .accept ih hinner ha

end Query

/-- The operator is allowed, and so are those that built the inner query if it is a join. -/
def Operator.BuiltBy (env : Env) (allowed : Operator → Prop) (op : Operator) : Prop :=
  allowed op ∧ ∀ kind inner condition selector, op = .join kind inner condition selector →
    ∃ ops, Query.Chain env allowed ops inner

namespace Query

variable {env : Env} {allowed : Operator → Prop} {q q' : Query} {op : Operator}
  {ops more : List Operator}

theorem Chain.step (h : Chain env allowed ops q) (hop : op.BuiltBy env allowed)
    (ha : q.accept env op = .ok q') : Chain env allowed (ops ++ [op]) q' := by
  by_cases hj : ∃ kind inner condition selector, op = .join kind inner condition selector
  · obtain ⟨kind, inner, condition, selector, rfl⟩ := hj
    obtain ⟨innerOps, hi⟩ := hop.2 kind inner condition selector rfl
    refine @Chain.accept env allowed ops innerOps q q' _ h hop.1 ?_ ha
    intro _ _ _ _ heq
    cases heq
    exact hi
  · refine @Chain.accept env allowed ops [] q q' op h hop.1 ?_ ha
    intro kind inner condition selector heq
    exact absurd ⟨kind, inner, condition, selector, heq⟩ hj

theorem Reachable.chain (h : Reachable env q) : ∃ ops, Chain env (fun _ => True) ops q := by
  induction h with
  | root hr => exact ⟨[], .root hr⟩
  | accept _ _ ha ih hinner =>
    obtain ⟨ops, hq⟩ := ih
    exact ⟨_, hq.step ⟨trivial, hinner⟩ ha⟩

theorem Chain.acceptAll (h : Chain env allowed ops q) (hops : ∀ op ∈ more, op.BuiltBy env allowed)
    (ha : q.acceptAll env more = .ok q') : Chain env allowed (ops ++ more) q' := by
  induction more generalizing ops q with
  | nil =>
    rw [Query.acceptAll, List.foldlM_nil, pure_eq_ok] at ha
    rw [List.append_nil, ← ha]
    exact h
  | cons op more ih =>
    obtain ⟨q₁, hq₁, ha⟩ := acceptAll_cons.mp ha
    have hstep := h.step (hops op (List.mem_cons_self ..)) hq₁
    have hrest := ih hstep (fun o ho => hops o (List.mem_cons_of_mem op ho)) ha
    rwa [List.append_assoc] at hrest

theorem chain_of_build {entity : String} (hops : ∀ op ∈ ops, op.BuiltBy env allowed)
    (h : build env entity ops = .ok q) : Chain env allowed ops q := by
  obtain ⟨r, hr, h⟩ := bind_eq_ok.mp h
  exact Chain.acceptAll (.root hr) hops h

/-! ## Nested statements -/

theorem Adds.nested (h : Adds env q op q') : ∀ st ∈ q'.draft.sources.nested,
    st ∈ q.draft.sources.nested ∨ ∃ kind inner condition selector table,
      op = .join kind inner condition selector ∧ st ∈ (inner.wrap env table).statement.nested := by
  intro st hst
  cases h with
  | extend _ he =>
    left
    rcases he.frame with ⟨chain, -, hl⟩ | ⟨-, hsources, -⟩
    · rwa [Draft.nested_load hl] at hst
    · rwa [hsources] at hst
  | move _ => exact .inl hst
  | select _ hf =>
    obtain ⟨-, p, result, -, -, rfl⟩ := Draft.select_eq_ok.mp hf
    exact .inl hst
  | @join kind inner condition selector _ _ _ _ e result _ _ _ _ _ _ =>
    have hall : (joinedDraft q.draft env kind inner e.asPredicate).sources.nested =
        q.draft.sources.nested ++ (inner.wrap env (joinedLabel q.draft env)).statement.nested := by
      rw [Sql.Sources.nested_eq, joinedDraft, Sql.Sources.all_join, List.flatMap_append,
        ← Sql.Sources.nested_eq, List.flatMap_singleton]
      rfl
    rcases List.mem_append.mp (hall ▸ hst) with hst | hst
    · exact .inl hst
    · exact .inr ⟨kind, inner, condition, selector, _, rfl, hst⟩

/-- The statements that a query reads from are those of chains. -/
theorem Chain.nested (h : Chain env allowed ops q) : ∀ st ∈ q.draft.sources.nested,
    ∃ ops' q', Chain env allowed ops' q' ∧ q'.Gives st := by
  have hwrap : ∀ {ops : List Operator} {q : Query} {table : String}, Chain env allowed ops q →
      (∀ st ∈ q.draft.sources.nested, ∃ ops' q', Chain env allowed ops' q' ∧ q'.Gives st) →
      ∀ st ∈ (q.wrap env table).statement.nested, ∃ ops' q', Chain env allowed ops' q' ∧ q'.Gives st := by
    intro ops q table hq hnested st hst
    rw [(q.gives_wrap env table).nested] at hst
    rcases List.mem_cons.mp hst with rfl | hst
    · exact ⟨ops, q, hq, q.gives_wrap env table⟩
    · exact hnested st hst
  induction h with
  | root hr =>
    obtain ⟨e, -, rfl⟩ := root_eq_ok.mp hr
    intro st hst
    cases hst
  | @accept ops innerOps q q' op hq _ hinner ha ih ihinner =>
    obtain ⟨-, hadds, -⟩ := adds_of_accept ha
    intro st hst
    rcases hadds.nested st hst with hst | ⟨kind, inner, condition, selector, table, rfl, hst⟩
    · by_cases hp : q.stage.promotes op = true
      · rw [host_of_promotes hp] at hst
        have hst' : st ∈ (q.wrap env (q.promotedLabel env)).statement.nested := by
          simpa [promoted, Sql.Sources.nested_eq, Sql.Sources.all, Sql.Source.nested] using hst
        exact hwrap hq ih st hst'
      · rw [host_of_stays hp] at hst
        exact ih st hst
    · exact hwrap (hinner _ _ _ _ rfl) (ihinner _ _ _ _ rfl) st hst

end Query

theorem compile_nested {env : Env} {allowed : Operator → Prop} {entity : String} {ops : List Operator}
    {m : Mapping} (hops : ∀ op ∈ ops, op.BuiltBy env allowed) (h : compile env entity ops = .ok m) :
    ∀ st ∈ m.statement.nested, ∃ ops' q, Query.Chain env allowed ops' q ∧ q.Gives st := by
  obtain ⟨q, hq, rfl⟩ := compile_eq_ok.mp h
  have hchain := Query.chain_of_build hops hq
  intro st hst
  rw [(q.gives_ofQuery env).nested] at hst
  rcases List.mem_cons.mp hst with rfl | hst
  · exact ⟨ops, q, hchain, q.gives_ofQuery env⟩
  · exact hchain.nested st hst

theorem compile_nested_reachable {env : Env} {entity : String} {ops : List Operator} {m : Mapping}
    (hops : ∀ op ∈ ops, op.Built env) (h : compile env entity ops = .ok m) :
    ∀ st ∈ m.statement.nested, ∃ q, Query.Reachable env q ∧ q.Gives st := by
  have hbuilt : ∀ op ∈ ops, op.BuiltBy env fun _ => True := by
    intro op hop
    refine ⟨trivial, ?_⟩
    intro kind inner condition selector heq
    exact (hops op hop kind inner condition selector heq).chain
  intro st hst
  obtain ⟨ops', q, hq, hgives⟩ := compile_nested hbuilt h st hst
  exact ⟨q, hq.reachable, hgives⟩

end EntityQuery
