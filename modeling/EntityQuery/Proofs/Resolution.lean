import EntityQuery.Proofs.Columns
import EntityQuery.Proofs.Freshness

/-! # Columns resolve

In every compiled statement, and in every statement nested in it, each column belongs to a source of
the same statement and is one that the source has. The proof keeps more along the way: the aliases
of the sources are distinct, and every expression that an operator may still use is supplied by
them. -/

namespace EntityQuery
set_option autoImplicit false

namespace Sql

/-- The source has the column. A table has the columns of the entities that are mapped to it; a
derived table has those that exactly one of its selected columns is called. -/
def Source.Offers (catalog : Catalog) (column : String) : Source → Prop
  | .table name _ => ∃ n e p, catalog.entity? n = some e ∧ e.table = name ∧ p ∈ e.primitives ∧
    p.columnName = column
  | .derived q _ => (q.columns.filter (·.label == column)).length = 1

/-- The sources that the condition of the join at a position may mention. -/
def Sources.upTo (s : Sources) (i : Nat) : Sources := ⟨s.first, s.joins.take (i + 1)⟩

/-- The columns of the statement's own expressions belong to its sources, those of a join condition
to the sources up to that join, and their sources have them. -/
structure Statement.Resolved (catalog : Catalog) (st : Statement) : Prop where
  clauses : ∀ e ∈ st.expressions, ∀ c ∈ e.columns, c.table ∈ st.sources.aliases
  joins : ∀ (i : Nat) (j : Join), st.sources.joins[i]? = some j → ∀ c ∈ j.on.columns,
    c.table ∈ (st.sources.upTo i).aliases
  offered : ∀ e ∈ st.expressions ++ st.sources.joins.map (·.on), ∀ c ∈ e.columns,
    ∀ s ∈ st.sources.all, s.label = c.table → s.Offers catalog c.name

/-- Some of the sources has the column. -/
def Supplied (catalog : Catalog) (sources : List Source) (c : Column) : Prop :=
  ∃ s ∈ sources, s.label = c.table ∧ s.Offers catalog c.name

variable {catalog : Catalog}

theorem Supplied.mono {ss ss' : List Source} {c : Column} (hss : ss ⊆ ss') (h : Supplied catalog ss c) :
    Supplied catalog ss' c := by
  obtain ⟨s, hs, h⟩ := h
  exact ⟨s, hss hs, h⟩

theorem Supplied.mem_aliases {s : Sources} {c : Column} (h : Supplied catalog s.all c) :
    c.table ∈ s.aliases := by
  obtain ⟨x, hx, hl, -⟩ := h
  rw [Sources.aliases_eq, ← hl]
  exact List.mem_map_of_mem hx

theorem Supplied.offers {s : Sources} {c : Column} (h : Supplied catalog s.all c)
    (hs : s.aliases.Nodup) : ∀ x ∈ s.all, x.label = c.table → x.Offers catalog c.name := by
  intro x hx hl
  obtain ⟨y, hy, hl', ho⟩ := h
  rw [Sources.aliases_eq] at hs
  rwa [List.inj_on_of_nodup_map hs hx hy (hl.trans hl'.symm)]

theorem Sources.upTo_subset (s : Sources) (i : Nat) : (s.upTo i).all ⊆ s.all := by
  intro x hx
  rcases List.mem_cons.mp hx with rfl | hx
  · exact List.mem_cons_self ..
  · obtain ⟨j, hj, rfl⟩ := List.mem_map.mp hx
    exact List.mem_cons_of_mem _ (List.mem_map_of_mem (List.mem_of_mem_take hj))

/-- The sources have distinct aliases, supply their own join conditions, and hold resolved
statements only. -/
structure Sources.Sound (catalog : Catalog) (s : Sources) : Prop where
  aliases : s.aliases.Nodup
  joins : ∀ (i : Nat) (j : Join), s.joins[i]? = some j → j.on.Over (Supplied catalog (s.upTo i).all)
  nested : ∀ st ∈ s.nested, st.Resolved catalog

theorem Sources.Sound.single {s : Source} (h : ∀ st ∈ s.nested, st.Resolved catalog) :
    Sources.Sound catalog ⟨s, []⟩ where
  aliases := by simp [Sources.aliases]
  joins := by simp
  nested := by simpa [Sources.nested_eq, Sources.all] using h

theorem Sources.Sound.join {s : Sources} (h : s.Sound catalog) {j : Join}
    (hl : j.source.label ∉ s.aliases) (hon : j.on.Over (Supplied catalog (s.join j).all))
    (hn : ∀ st ∈ j.source.nested, st.Resolved catalog) : (s.join j).Sound catalog := by
  constructor
  case aliases =>
    rw [Sources.aliases_join, List.nodup_append]
    refine ⟨h.aliases, List.nodup_singleton _, ?_⟩
    rintro a ha b hb rfl
    rw [List.mem_singleton.mp hb] at ha
    exact hl ha
  case joins =>
    intro i j' hj'
    rcases Nat.lt_trichotomy i s.joins.length with hi | hi | hi
    · -- The sources up to an earlier join are what they were.
      have hupTo : (s.join j).upTo i = s.upTo i := by
        simp only [Sources.upTo, Sources.join]
        rw [List.take_append_of_le_length (by omega)]
      rw [hupTo]
      refine h.joins i j' ?_
      rwa [Sources.join, List.getElem?_append_left hi] at hj'
    · have hupTo : (s.join j).upTo i = s.join j := by
        simp only [Sources.upTo, Sources.join]
        rw [List.take_of_length_le (by simp [hi])]
      rw [hupTo]
      rw [Sources.join, hi, List.getElem?_concat_length, Option.some.injEq] at hj'
      rwa [← hj']
    · rw [Sources.join, List.getElem?_eq_none (by simp; omega)] at hj'
      cases hj'
  case nested =>
    intro st hst
    rw [Sources.nested_eq, Sources.all_join, List.flatMap_append, ← Sources.nested_eq,
      List.mem_append] at hst
    rcases hst with hst | hst
    · exact h.nested st hst
    · exact hn st (by simpa using hst)

theorem Statement.resolved {st : Statement} (hs : st.sources.Sound catalog)
    (he : ∀ e ∈ st.expressions, e.Over (Supplied catalog st.sources.all)) :
    st.Resolved catalog where
  clauses e hmem c hc := (he e hmem c hc).mem_aliases
  joins i j hj c hc := (hs.joins i j hj c hc).mem_aliases
  offered := by
    intro e hmem c hc
    rcases List.mem_append.mp hmem with hmem | hmem
    · exact (he e hmem c hc).offers hs.aliases
    · obtain ⟨j, hj, rfl⟩ := List.mem_map.mp hmem
      obtain ⟨i, hi⟩ := List.mem_iff_getElem?.mp hj
      exact ((hs.joins i j hi c hc).mono (st.sources.upTo_subset i)).offers hs.aliases

theorem Distinguished.offers {q : Statement} (h : Distinguished q.columns) {c : Projected}
    (hc : c ∈ q.columns) (label : String) : (Source.derived q label).Offers catalog c.label := by
  have hlabels : (q.columns.map (·.label)).Nodup := by
    refine List.pairwise_map.mpr (h.labels.imp ?_)
    intro a b hab heq
    exact hab (by rw [heq])
  have hcount : (q.columns.map (·.label)).count c.label = 1 :=
    List.count_eq_one_of_mem hlabels (List.mem_map_of_mem hc)
  rw [List.count_eq_length_filter, List.filter_map, List.length_map] at hcount
  simpa [Source.Offers, Function.comp_def] using hcount

end Sql

/-! ## Drafts -/

/-- The sources of the draft are sound, their aliases are taken, and they supply everything that the
draft mentions. -/
structure Draft.Sound (env : Env) (d : Draft) : Prop where
  sources : d.sources.Sound env.catalog
  taken : ∀ a ∈ d.sources.aliases, a ∈ d.aliases.taken
  supplied : d.Over (Sql.Supplied env.catalog d.sources.all)

theorem Sql.supplied_ofEntity {env : Env} {name label : String} {entity : Entity}
    {ss : List Sql.Source} (he : env.catalog.entity? name = some entity)
    (hs : Sql.Source.table entity.table label ∈ ss) :
    ∀ e ∈ Shape.memberScalars (ObjectOf.ofEntity entity label).members,
      e.Over (Sql.Supplied env.catalog ss) := by
  intro e hmem
  obtain ⟨p, hp, rfl⟩ := Shape.scalars_ofEntity hmem
  exact .column ⟨_, hs, rfl, name, entity, p, he, rfl, hp, rfl⟩

theorem Aliases.mem_insert {a name : String} {names : List String} :
    a ∈ Aliases.insert name names ↔ a ∈ names ∨ a = name := by
  unfold Aliases.insert
  split
  · rename_i h
    constructor
    · exact .inl
    · rintro (h' | rfl)
      · exact h'
      · simpa using h
  · simp

namespace Draft

variable {env : Env} {d d' : Draft}

theorem root_sound {entity : String} (h : Draft.root env entity = .ok d) : d.Sound env := by
  simp only [root, bind_eq_ok, pure_eq_ok, Env.entity_eq_ok] at h
  obtain ⟨e, he, rfl⟩ := h
  constructor
  case sources => exact .single (by simp [Sql.Source.nested])
  case taken =>
    intro a ha
    rw [List.mem_singleton.mp ha]
    simp [Sql.Source.label, Aliases.reserve, Aliases.register, Aliases.insert]
  case supplied =>
    constructor
    case bindings => rfl
    case result => exact Sql.supplied_ofEntity he (List.mem_singleton_self _)
    case condition => simp
    case groupBy => simp
    case having => simp
    case orderings => simp

theorem Sound.join (h : d.Sound env) (base : String) {j : Sql.Join}
    (hl : j.source.label = d.aliases.fresh base)
    (hon : j.on.Over (Sql.Supplied env.catalog (d.sources.join j).all))
    (hn : ∀ st ∈ j.source.nested, st.Resolved env.catalog) :
    Draft.Sound env
      { d with
        aliases := d.aliases.register (d.aliases.fresh base)
        sources := d.sources.join j } := by
  constructor
  case sources =>
    refine h.sources.join ?_ hon hn
    rw [hl]
    intro hmem
    exact d.aliases.fresh_notMem base (h.taken _ hmem)
  case taken =>
    intro a ha
    rw [Sql.Sources.aliases_join, List.mem_append] at ha
    refine Aliases.mem_insert.mpr (ha.imp (h.taken a) ?_)
    intro ha
    rw [List.mem_singleton.mp ha, hl]
  case supplied =>
    have hsub : d.sources.all ⊆ (d.sources.join j).all := by
      rw [Sql.Sources.all_join]
      exact List.subset_append_left ..
    exact { h.supplied.mono fun c hc => hc.mono hsub with }

/-- The condition of a link has a property `C` that a comparison of keys has, if they have `Q`, and
that adding conditions keeps. -/
theorem linkCondition_closed {Q C : Sql.Expr → Prop}
    (hcompare : ∀ l r, Q l → Q r → C (.compare .eq l r))
    (hand : ∀ l r, C l → C r → C (Sql.Expr.andAlso (some l) r)) {k k' : Sql.Expr}
    {c f : Option Sql.Expr} (hk : Q k) (hk' : Q k') (hc : ∀ e ∈ c, C e) (hf : ∀ e ∈ f, C e) :
    C (linkCondition k k' c f) := by
  have hfold : ∀ (es : List Sql.Expr) (start : Sql.Expr), C start → (∀ e ∈ es, C e) →
      C (es.foldl (fun e more => Sql.Expr.andAlso (some e) more) start) := by
    intro es
    induction es with
    | nil => intro start hs _; exact hs
    | cons e es ih =>
      intro start hs hes
      refine ih _ (hand _ _ hs (hes e (List.mem_cons_self ..))) ?_
      intro x hx
      exact hes x (List.mem_cons_of_mem e hx)
  refine hfold _ _ (hcompare _ _ hk hk') ?_
  intro e he
  rcases List.mem_append.mp he with he | he
  · exact hc e (Option.mem_toList.mp he)
  · exact hf e (Option.mem_toList.mp he)

theorem over_linkCondition {P : Sql.Column → Prop} {k k' : Sql.Expr} {c f : Option Sql.Expr}
    (hk : k.Over P) (hk' : k'.Over P) (hc : ∀ e ∈ c, e.Over P) (hf : ∀ e ∈ f, e.Over P) :
    (linkCondition k k' c f).Over P := by
  refine linkCondition_closed ((Sql.Closed.columns P).compare .eq) ?_ hk hk' hc hf
  intro l r hl hr
  refine .andAlso ?_ hr
  intro x hx
  cases hx
  exact hl

theorem stepPredicate_closed {A : Prop} {Q C : Sql.Expr → Prop} (hQ : Sql.Closed A Q)
    (hpredicate : ∀ e, Q e → C e.asPredicate) {related : Shape} {f : Option Lambda}
    {r : Option Sql.Expr} (hf : ∀ g ∈ f, g.body.hasAggregate = true → A)
    (h : d.stepPredicate env related f = .ok r) (hb : d.bindings = {})
    (hr : ∀ e ∈ related.scalars, Q e) : ∀ e ∈ r, C e := by
  rcases stepPredicate_eq_ok.mp h with ⟨-, rfl⟩ | ⟨g, p, e, rfl, -, he, rfl⟩
  · simp
  · intro x hx
    cases hx
    refine hpredicate e (Scope.expression_closed hQ ?_ (hf g rfl) he)
    refine Bindings.All.bind ?_ hr p
    rw [hb]
    exact .empty _

theorem over_stepPredicate {P : Sql.Column → Prop} {related : Shape} {f : Option Lambda}
    {r : Option Sql.Expr} (h : d.stepPredicate env related f = .ok r) (hb : d.bindings = {})
    (hr : ∀ e ∈ related.scalars, e.Over P) : ∀ e ∈ r, e.Over P :=
  stepPredicate_closed (.columns P) (fun _ he => he.asPredicate) (fun _ _ _ => trivial) h hb hr

theorem scalars_relatedShape (many : Bool) (o : ObjectOf Shape) (c f : Option Sql.Expr) :
    (relatedShape many o c f).scalars = Shape.memberScalars o.members := by
  unfold relatedShape
  split <;> rfl

theorem Sound.takeStep (h : d.Sound env) {owner owner' : ObjectOf Shape} {step : NavigationStep}
    {below many : Bool} {member : Shape}
    (ho : ∀ e ∈ Shape.memberScalars owner.members, e.Over (Sql.Supplied env.catalog d.sources.all))
    (ht : d.takeStep env owner step below = (d', .ok (owner', member, many))) :
    d'.Sound env ∧ d.sources.all ⊆ d'.sources.all ∧
      (∀ e ∈ Shape.memberScalars owner'.members,
        e.Over (Sql.Supplied env.catalog d'.sources.all)) ∧
      ∀ e ∈ member.scalars, e.Over (Sql.Supplied env.catalog d'.sources.all) := by
  rcases takeStep_eq_ok ht with ⟨-, rfl, rfl, hm⟩ |
    ⟨link, ownerKey, relatedKey, c, f, hi, hok, hrk, hc, hf, rfl, rfl, rfl⟩
  · exact ⟨h, List.Subset.refl _, ho, fun e he => ho e (Shape.scalars_of_lookup hm e he)⟩
  · obtain ⟨-, -, -, target, -, -, -, -, -, -, -, -, -, htarget, -⟩ := inspect_eq_link hi
    have hall : ∀ on, (d.linked link on).sources.all =
        d.sources.all ++ [.table link.target.table (d.aliases.fresh link.target.table)] :=
      fun on => Sql.Sources.all_join ..
    rw [hall, scalars_relatedShape]
    have hsub := List.subset_append_left d.sources.all
      [.table link.target.table (d.aliases.fresh link.target.table)]
    have howner := fun e he => (ho e he).mono fun c hc => hc.mono hsub
    have hrelated := Sql.supplied_ofEntity htarget (List.mem_append_right d.sources.all
      (List.mem_singleton_self (Sql.Source.table link.target.table
        (d.aliases.fresh link.target.table))))
    refine ⟨?_, hsub, ?_, hrelated⟩
    · refine h.join link.target.table rfl ?_ (by simp [Sql.Source.nested])
      rw [Sql.Sources.all_join]
      refine over_linkCondition ?_ ?_ ?_ ?_
      · exact howner _ (Shape.scalars_of_lookup hok _ (List.mem_singleton_self _))
      · exact hrelated _ (Shape.scalars_of_lookup hrk _ (List.mem_singleton_self _))
      · exact over_stepPredicate hc h.supplied.bindings hrelated
      · exact over_stepPredicate hf h.supplied.bindings hrelated
    · intro e he
      rcases Shape.memberScalars_put he with he | he
      · rw [scalars_relatedShape] at he
        exact hrelated e he
      · exact howner e he

theorem Sound.walk {steps : List NavigationStep} {below : Bool} {shape shape' : Shape}
    (h : d.Sound env) (hs : ∀ e ∈ shape.scalars, e.Over (Sql.Supplied env.catalog d.sources.all))
    (hw : Draft.walk env steps below shape d = (shape', d', none)) :
    d'.Sound env ∧ d.sources.all ⊆ d'.sources.all ∧
      ∀ e ∈ shape'.scalars, e.Over (Sql.Supplied env.catalog d'.sources.all) := by
  induction steps generalizing below shape shape' d with
  | nil =>
    cases hw
    exact ⟨h, List.Subset.refl _, hs⟩
  | cons step steps ih =>
    obtain ⟨owner, d₁, owner', member, many, member', ho, ht, hrest, rfl⟩ := walk_cons_eq_none hw
    rw [Shape.scalars_owner ho] at hs
    obtain ⟨h₁, hsub₁, howner, hmember⟩ := h.takeStep hs ht
    obtain ⟨h₂, hsub₂, hmember'⟩ := ih h₁ hmember hrest
    refine ⟨h₂, List.Subset.trans hsub₁ hsub₂, ?_⟩
    intro e he
    rw [Shape.scalars_withOwner] at he
    rcases Shape.memberScalars_put he with he | he
    · exact hmember' e he
    · exact (howner e he).mono fun c hc => hc.mono hsub₂

theorem Sound.load (h : d.Sound env) {chain : NavigationChain}
    (hl : Query.load d env chain = .ok d') : d'.Sound env := by
  obtain ⟨-, result, d₁, hw, rfl⟩ := Query.load_eq_ok.mp hl
  obtain ⟨h₁, -, hresult⟩ := h.walk h.supplied.result hw
  exact { h₁ with supplied := { h₁.supplied with result := hresult } }

end Draft

/-! ## Queries -/

namespace Query

variable {env : Env} {q q' : Query}

/-- A statement that adds columns to that of a sound query is resolved, and so is all nested in it. -/
theorem resolved_of_widens (h : q.draft.Sound env) {st : Sql.Statement} (hw : q.statement.Widens st)
    (hc : ∀ e ∈ st.columns.map (·.expr), e.Over (Sql.Supplied env.catalog q.draft.sources.all)) :
    ∀ st' ∈ st.nested, st'.Resolved env.catalog := by
  have hsources : st.sources = q.draft.sources := by
    rw [hw.clauses]
    exact q.statement_sources
  have hst : st.Resolved env.catalog := by
    refine Sql.Statement.resolved (by rw [hsources]; exact h.sources) ?_
    rw [hsources, hw.clauses]
    exact clauses_expressions (Draft.over_iff.mp h.supplied).2 (fun _ he => he) hc
  intro st' hmem
  rw [Sql.Statement.nested_eq, hsources] at hmem
  rcases List.mem_cons.mp hmem with rfl | hmem
  · exact hst
  · exact h.sources.nested st' hmem

theorem wrap_resolved (h : q.draft.Sound env) (table : String) :
    ∀ st ∈ (q.wrap env table).statement.nested, st.Resolved env.catalog := by
  refine resolved_of_widens h (q.wrap_widens env table) ?_
  intro e he
  rw [wrap_exprs, ← Sql.foldl_addExpr_nil] at he
  rcases (Sql.mem_of_mem_foldl_addExpr he).resolve_left (by simp) |> List.mem_append.mp with he | he
  · exact h.supplied.result e he
  · obtain ⟨o, ho, rfl⟩ := List.mem_map.mp he
    exact h.supplied.orderings o ho

theorem exposed_supplied (q : Query) (env : Env) (table : String) {ss : List Sql.Source}
    (hs : .derived (q.wrap env table).statement table ∈ ss) {e e' : Sql.Expr}
    (h : Sql.Statement.Exposes table (q.wrap env table).statement.columns e e') :
    e.Over (Sql.Supplied env.catalog ss) := by
  obtain ⟨c, hc, rfl, -⟩ := h
  exact .column ⟨_, hs, rfl, (q.wrap_distinguished env table).offers hc table⟩

theorem wrap_result_supplied (q : Query) (env : Env) (table : String) {ss : List Sql.Source}
    (hs : .derived (q.wrap env table).statement table ∈ ss) :
    ∀ e ∈ (q.wrap env table).result.scalars, e.Over (Sql.Supplied env.catalog ss) := by
  intro e he
  obtain ⟨e', -, hR⟩ := Shape.Rel.scalars_left _ _ (q.wrap_exposes env table) e he
  exact q.exposed_supplied env table hs hR

theorem promoted_sound (h : q.draft.Sound env) : (q.promoted env).Sound env := by
  have hs := List.mem_singleton_self
    (Sql.Source.derived (q.wrap env (q.promotedLabel env)).statement (q.promotedLabel env))
  constructor
  case sources => exact .single (wrap_resolved h _)
  case taken =>
    intro a ha
    rw [List.mem_singleton.mp ha]
    exact Aliases.mem_insert.mpr (.inr rfl)
  case supplied =>
    constructor
    case bindings => exact h.supplied.bindings
    case result => exact q.wrap_result_supplied env _ hs
    case condition => simp [promoted]
    case groupBy => simp [promoted]
    case having => simp [promoted]
    case orderings =>
      intro o ho
      obtain ⟨o', -, hR⟩ := exists_of_mem_right (q.wrap_orderings_expose env _).flip o ho
      exact q.exposed_supplied env _ hs hR.2

theorem joined_sound {outer : Draft} (h : outer.Sound env) {inner : Query} (hi : inner.draft.Sound env)
    {kind : Sql.JoinKind} {condition selector : Lambda} {p p' r r' : Param} {aliases : Aliases}
    {limit : Nat} {e : Sql.Expr} {result : Shape}
    (he : Scope.expression ⟨(outer.bindings.bind p outer.result).bind p'
      (inner.wrap env (joinedLabel outer env)).result, aliases, limit⟩ condition = .ok e)
    (hr : Scope.selection ⟨(outer.bindings.bind r outer.result).bind r'
      (inner.wrap env (joinedLabel outer env)).result, aliases, limit⟩ selector = .ok result) :
    Draft.Sound env { joinedDraft outer env kind inner e.asPredicate with result } := by
  have hall : (joinedDraft outer env kind inner e.asPredicate).sources.all = outer.sources.all ++
      [.derived (inner.wrap env (joinedLabel outer env)).statement (joinedLabel outer env)] :=
    Sql.Sources.all_join ..
  have hover : outer.Over (Sql.Supplied env.catalog
      (joinedDraft outer env kind inner e.asPredicate).sources.all) := by
    refine h.supplied.mono fun c hc => hc.mono ?_
    rw [hall]
    exact List.subset_append_left ..
  have hside : ∀ x ∈ (inner.wrap env (joinedLabel outer env)).result.scalars, x.Over
      (Sql.Supplied env.catalog (joinedDraft outer env kind inner e.asPredicate).sources.all) :=
    inner.wrap_result_supplied env _ (by rw [hall]; simp)
  have hon := Scope.expression_closed (.columns _)
    ((Draft.bound_all hover.bindings hover.result p).bind hside p') (fun _ => trivial) he
  have hresult := Scope.selection_closed (.columns _)
    ((Draft.bound_all hover.bindings hover.result r).bind hside r') (fun _ => trivial) hr
  have hjoined : (joinedDraft outer env kind inner e.asPredicate).Sound env :=
    h.join env.settings.tableStem rfl (Sql.Expr.Over.asPredicate hon) (wrap_resolved hi _)
  exact { hjoined with supplied := { hjoined.supplied with result := hresult } }

theorem extends_sound {d : Draft} (h : d.Sound env) {op : Operator} (he : Extends env d op q') :
    q'.draft.Sound env := by
  rcases he.frame with ⟨chain, -, hl⟩ | ⟨hop, hsources, haliases, hbindings⟩
  · exact h.load hl
  · obtain ⟨hb, hclauses⟩ := Draft.over_iff.mp h.supplied
    have hover := he.clauses (.columns _) hb hclauses hop
    constructor
    case sources => rw [hsources]; exact h.sources
    case taken => rw [hsources, haliases]; exact h.taken
    case supplied =>
      rw [hsources]
      exact Draft.over_iff.mpr ⟨hbindings.trans hb, hover⟩

theorem adds_sound (h : q.draft.Sound env) {op : Operator} (hs : Adds env q op q')
    (hi : ∀ kind inner condition selector, op = .join kind inner condition selector →
      inner.draft.Sound env) : q'.draft.Sound env := by
  cases hs with
  | extend _ he => exact extends_sound h he
  | move _ => exact h
  | select _ hf =>
    have hd := extends_sound h (Extends.select hf)
    exact hd
  | join _ _ _ _ he hr => exact joined_sound h (hi _ _ _ _ rfl) he hr

theorem host_sound (h : q.draft.Sound env) (op : Operator) : (q.host env op).draft.Sound env := by
  unfold host
  split
  · exact promoted_sound h
  · exact h

theorem Reachable.sound (h : Reachable env q) : q.draft.Sound env := by
  induction h with
  | root hr =>
    obtain ⟨d, hd, hq⟩ := bind_eq_ok.mp hr
    rw [pure_eq_ok] at hq
    rw [← hq]
    exact Draft.root_sound hd
  | accept _ _ ha ih hinner => exact adds_sound (host_sound ih _) (adds_of_accept ha).adds hinner

end Query

/-- **Every column resolves.** In a compiled statement and in every statement nested in it, the
columns of all clauses belong to sources of that statement, those of a join condition to the sources
up to that join, and each is a column that its source has. -/
theorem compile_resolved {env : Env} {entity : String} {ops : List Operator} {m : Mapping}
    (hops : ∀ op ∈ ops, op.Built env) (h : compile env entity ops = .ok m) :
    ∀ st ∈ m.statement.nested, st.Resolved env.catalog := by
  obtain ⟨q, hq, rfl⟩ := compile_eq_ok.mp h
  have hsound := (Query.reachable_of_build hops hq).sound
  rw [Mapping.ofQuery_statement env q ""]
  refine Query.resolved_of_widens hsound (Shape.rebind_widens ..) ?_
  intro e he
  rw [Shape.rebind_exprs, Query.statement_columns] at he
  exact hsound.supplied.result e ((Sql.mem_of_mem_foldl_addExpr he).resolve_left (by simp))

theorem compile_resolved_joined : ∃ inner m,
    Query.build Sample.env "Order" Sample.paidOrders = .ok inner ∧
    compile Sample.env "User" (Sample.adultsWith inner) = .ok m ∧ m.statement.nested.length = 4 ∧
    ∀ st ∈ m.statement.nested, st.Resolved Sample.env.catalog := by
  have h : (do
      let inner ← Query.build Sample.env "Order" Sample.paidOrders
      let m ← compile Sample.env "User" (Sample.adultsWith inner)
      pure m.statement.nested.length : Except CompileError Nat) = .ok 4 :=
        ok_of_toOption (by decide +kernel)
  simp only [bind_eq_ok, pure_eq_ok] at h
  obtain ⟨inner, hi, m, hm, hn⟩ := h
  refine ⟨inner, m, hi, hm, hn, compile_resolved (Sample.adultsWith_built ?_) hm⟩
  exact Query.reachable_of_build (by simp [Sample.paidOrders, Operator.Built]) hi

end EntityQuery
