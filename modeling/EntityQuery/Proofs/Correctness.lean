import EntityQuery.Proofs.Wrapping

/-! # Compilation is correct at row level

Each row-level operator on a query that represents a relation gives a query that represents what the
operator makes of the relation, whichever way it is added: to the statement at hand, to its window,
or to a statement that reads from it. So the statement of a whole chain, executed and read back, is
what the operators compute one after the other. -/

namespace EntityQuery
set_option autoImplicit false

variable {I : Interpretation} {db : Database} {env : Env}

/-! ## Expressions without aggregates -/

namespace Sql.Expr

theorem any_nodesAll (es : List Expr) : (nodesAll es).any isAggregate = es.any hasAggregate := by
  induction es with
  | nil => rfl
  | cons e es ih => rw [nodesAll, List.any_append, ih, List.any_cons, hasAggregate]

@[simp] theorem hasAggregate_compare (op : Comparator) (l r : Expr) :
    hasAggregate (.compare op l r) = (l.hasAggregate || r.hasAggregate) := by
  simp [hasAggregate, nodes, isAggregate]

@[simp] theorem hasAggregate_arithmetic (op : Arithmetic) (l r : Expr) :
    hasAggregate (.arithmetic op l r) = (l.hasAggregate || r.hasAggregate) := by
  simp [hasAggregate, nodes, isAggregate]

@[simp] theorem hasAggregate_and (ps : List Expr) : hasAggregate (.and ps) = ps.any hasAggregate :=
  any_nodesAll ps

@[simp] theorem hasAggregate_or (ps : List Expr) : hasAggregate (.or ps) = ps.any hasAggregate :=
  any_nodesAll ps

@[simp] theorem hasAggregate_not (e : Expr) : hasAggregate (.not e) = e.hasAggregate := rfl

@[simp] theorem hasAggregate_negate (e : Expr) : hasAggregate (.negate e) = e.hasAggregate := rfl

@[simp] theorem hasAggregate_isNull (e : Expr) (n : Bool) :
    hasAggregate (.isNull e n) = e.hasAggregate := rfl

@[simp] theorem hasAggregate_inList (e : Expr) (is : List Expr) (n : Bool) :
    hasAggregate (.inList e is n) = (e.hasAggregate || is.any hasAggregate) := by
  rw [← any_nodesAll, hasAggregate, nodes, List.any_cons, List.any_append]
  rfl

@[simp] theorem hasAggregate_call (f : String) (as : List Expr) :
    hasAggregate (.call f as) = as.any hasAggregate := any_nodesAll as

@[simp] theorem hasAggregate_asPredicate (e : Expr) : e.asPredicate.hasAggregate = e.hasAggregate := by
  unfold asPredicate
  split
  · rfl
  · rw [hasAggregate_compare]
    exact Bool.or_false _

@[simp] theorem hasAggregate_conjuncts (e : Expr) : e.conjuncts.any hasAggregate = e.hasAggregate := by
  unfold conjuncts
  split <;> simp

@[simp] theorem hasAggregate_disjuncts (e : Expr) : e.disjuncts.any hasAggregate = e.hasAggregate := by
  unfold disjuncts
  split <;> simp

end Sql.Expr

theorem Sql.Closed.aggregateFree : Sql.Closed False fun e => e.hasAggregate = false := by
  constructor
  case literal => intro v; rfl
  case compare => intro op l r hl hr; simp [hl, hr]
  case arithmetic => intro op l r hl hr; simp [hl, hr]
  case conjunction => intro l r hl hr; simp [hl, hr]
  case disjunction => intro l r hl hr; simp [hl, hr]
  case negation => intro e he; simp [he]
  case negate => intro e he; simp [he]
  case isNull => intro e n he; simp [he]
  case inList => intro e is he his; simpa [he] using his
  case call => intro f as has; simpa using has
  case aggregate => intro h; exact h.elim

/-! ## Operators -/

namespace Query

variable {q q' : Query} {r : Relation} {d d' : Draft} {f : Lambda}

theorem entity_of_root {entity : String} (h : Query.root env entity = .ok q) :
    ∃ e, env.catalog.entity? entity = some e := by
  simp only [Query.root, Draft.root, bind_eq_ok, Env.entity_eq_ok] at h
  obtain ⟨_, ⟨e, he, _⟩, _⟩ := h
  exact ⟨e, he⟩

theorem root_represents {entity : String} {e : Entity} (he : env.catalog.entity? entity = some e)
    (hsmall : (db e.table).length ≤ maxCount) (h : Query.root env entity = .ok q) :
    q.Represents I db (.ofEntity db e) := by
  simp only [Query.root, Draft.root, bind_eq_ok, pure_eq_ok, Env.entity_eq_ok] at h
  obtain ⟨d, ⟨e', he', rfl⟩, rfl⟩ := h
  rw [he, Option.some.injEq] at he'
  subst he'
  generalize (({} : Aliases).reserve e.table).1 = label
  have hplain : ∀ x ∈ (Shape.object (.ofEntity e label)).scalars, ∃ name, x = .column ⟨label, name⟩ := by
    intro x hx
    obtain ⟨p, -, rfl⟩ := Shape.scalars_ofEntity hx
    exact ⟨p.columnName, rfl⟩
  constructor
  case bindings => rfl
  case groupBy => rfl
  case having => rfl
  case orderings => rfl
  case flat => exact Shape.flat_ofEntity e label
  case notNull =>
    intro x hx
    obtain ⟨name, rfl⟩ := hplain x hx
    rfl
  case plain =>
    intro _ x hx
    obtain ⟨name, rfl⟩ := hplain x hx
    rfl
  case collapsed => intro hs; cases hs
  case small =>
    rw [Draft.kept_of_none rfl]
    exact (List.length_map _).trans_le hsmall
  case blank =>
    have hnull := Shape.datum_ofEntity (I := I) e label .null fun _ => .null
    rw [Relation.ofEntity, ← hnull]
    refine Shape.datum_congr _ ?_
    intro x hx
    obtain ⟨name, rfl⟩ := hplain x hx
    simp [Sql.Expr.eval, Sql.Valuation.bind]
  case rows =>
    rw [Stage.window_general, Draft.data_plain, Draft.kept_of_none rfl, Relation.ofEntity]
    · refine Eq.trans ?_ (List.map_map ..).symm
      refine List.map_congr_left fun row _ => ?_
      exact (Shape.datum_ofEntity e label .null row).symm
    · intro x hx
      obtain ⟨name, rfl⟩ := hplain x hx
      rfl

theorem eval_expression (hI : I.Lawful) (hb : d.bindings = {})
    (hn : ∀ e ∈ d.result.scalars, Scope.NotNull e) (hf : f.isRowLevel = true) {p : Param} {e : Sql.Expr}
    (hp : f.params = [p]) (he : (d.scope env (d.bindings.bind p d.result)).expression f = .ok e)
    (g : List Sql.Valuation) :
    f.eval I [d.result.datum fun e => e.eval I g] = .scalar (e.eval I g) := by
  rw [hb] at he
  have hall := (Bindings.All.empty _).bind hn p
  rw [Lambda.eval_one hp]
  exact Scope.expression_eval hI hall (Lambda.isRowLevel_iff.mp hf).1 he g

theorem filter_represents (hI : I.Lawful) (h : Represents I db { draft := d } r)
    (hf : f.isRowLevel = true) (hd : d.filter env f = .ok d') :
    Represents I db { draft := d' } (r.filter I f) := by
  obtain ⟨p, e, hp, he, rfl⟩ := Draft.filter_eq_ok.mp hd
  have heval := eval_expression hI h.bindings h.notNull hf hp he
  have hkept : (d.addCondition e.asPredicate).kept I db =
      (d.kept I db).filter fun v => I.holds (e.eval I [v]) = some true := by
    unfold Draft.kept
    rw [List.filter_filter]
    refine List.filter_congr fun v _ => ?_
    simp only [Draft.addCondition, Sql.Statement.satisfies, Option.all_some, Sql.Expr.truth_andAlso,
      Truth.and_eq_true, Sql.Expr.truth_asPredicate hI]
    cases d.condition with
    | none => simp
    | some c => simp [Bool.and_comm]
  refine { h with small := ?_, rows := ?_ }
  · rw [hkept]
    exact (List.length_filter_le ..).trans h.small
  · have hdata : (d.addCondition e.asPredicate).data I db =
        ((d.addCondition e.asPredicate).kept I db).map
          fun v => d.result.datum fun e => e.eval I [v] := Draft.data_plain (h.plain (by simp))
    rw [Relation.filter, h.data rfl, Stage.window_general, hdata, hkept, List.filter_map]
    refine congrArg (List.map _) (List.filter_congr fun v _ => ?_)
    simp only [Function.comp_def, heval, Datum.value]

theorem map_stageWindow {stage : Stage} (hs : stage ≠ .distinct) (F : Datum → Datum) (ds : List Datum) :
    (stage.window I ds).map F = stage.window I (ds.map F) := by
  cases stage <;> simp_all [Stage.window]

theorem select_represents (hI : I.Lawful) (h : q.Represents I db r) (hs : q.stage ≠ .distinct)
    (hs' : q.stage ≠ .aggregate) (hf : f.isRowLevel = true) (hd : q.draft.select env f = .ok d') :
    Represents I db { q with draft := d' } (r.select I f) := by
  obtain ⟨-, p, result, hp, hr, rfl⟩ := Draft.select_eq_ok.mp hd
  rw [h.bindings] at hr
  have hall := (Bindings.All.empty _).bind h.notNull p
  obtain ⟨heval, hnull⟩ := Scope.selection_eval hI hall hf hr
  have heval' : ∀ g, f.eval I [q.draft.result.datum fun e => e.eval I g] =
      result.datum fun e => e.eval I g := by
    intro g
    rw [Lambda.eval_one hp]
    exact heval g
  have hplain : ∀ e ∈ result.scalars, e.hasAggregate = false := by
    refine Scope.selection_closed .aggregateFree ((Bindings.All.empty _).bind (h.plain hs') p) ?_ hr
    intro ha
    rw [(Lambda.isRowLevel_iff.mp hf).1] at ha
    cases ha
  have hflat : result.hasCollection = false := by
    refine Scope.shape_flat ?_ f.body 0 result hr
    intro p' shape hshape
    rcases Entries.lookup_put_cases hshape with rfl | hshape
    · exact h.flat
    · cases hshape
  refine { h with
    flat := hflat, notNull := hnull, plain := fun _ => hplain, collapsed := ?_, blank := ?_, rows := ?_ }
  · intro hagg; exact absurd hagg hs'
  · rw [Relation.select, h.blank, ← Shape.blank_datum (v := fun e => e.eval I []) result, ← heval' []]
    refine f.blank_eval _ _ ?_
    simp only [List.map_cons, List.map_nil, Shape.blank_datum]
    rw [Shape.form, Shape.blank_datum]
    rfl
  · rw [Relation.select, h.rows, map_stageWindow hs]
    refine congrArg (q.stage.window I) ?_
    rw [Draft.data_plain (h.plain hs'), Draft.data_plain hplain, List.map_map]
    exact List.map_congr_left fun v _ => heval' [v]

theorem aggregate_represents (hI : I.Lawful) (h : Represents I db { draft := d } r)
    {function : Sql.AggregateFunction} {args : List Lambda} {distinct : Bool}
    (hf : ∀ f ∈ args, f.isRowLevel = true) (hd : d.aggregate env function args distinct = .ok d') :
    Represents I db { draft := d', stage := .aggregate } (r.aggregate I function args distinct) := by
  obtain ⟨-, -, es, hes, rfl⟩ := Draft.aggregate_eq_ok.mp hd
  have hargs : ∀ g, (args.map fun f => (f.eval I [d.result.datum fun e => e.eval I g]).value) =
      Sql.Expr.evalAll I es g := by
    intro g
    have hforall := mapM_eq_ok.mp hes
    clear hd hes
    induction hforall with
    | nil => rfl
    | @cons f e args es hfe _ ih =>
      obtain ⟨p, hp, he⟩ := Draft.argument_eq_ok.mp hfe
      have hrow := hf f (List.mem_cons_self ..)
      rw [List.map_cons, ih fun f' hf' => hf f' (List.mem_cons_of_mem f hf'), Sql.Expr.evalAll,
        eval_expression hI h.bindings h.notNull hrow hp he g]
      rfl
  constructor
  case bindings => exact h.bindings
  case groupBy => rfl
  case having => rfl
  case orderings => rfl
  case flat => rfl
  case notNull =>
    intro e he
    rw [List.mem_singleton.mp he]
    rfl
  case plain => intro hs; exact absurd rfl hs
  case collapsed => exact fun _ => ⟨_, rfl, rfl⟩
  case small => exact h.small
  case blank => rfl
  case rows =>
    rw [Relation.aggregate, h.data rfl, List.map_map]
    refine congrArg (fun vs => [Datum.scalar (I.aggregate function distinct vs)]) ?_
    exact List.map_congr_left fun v _ => hargs [v]

/-! ## Joins -/

theorem valuations_joined (outer inner : Query) (kind : Sql.JoinKind) (on : Sql.Expr) :
    (joinedDraft (outer.promoted env) env kind inner on).sources.valuations I db =
      kind.pairs
        (fun v row => on.truth I [v.bind (joinedLabel (outer.promoted env) env) row] = some true)
        (fun v row => v.bind (joinedLabel (outer.promoted env) env) row) .null (fun _ => .null)
        (((Sql.Source.derived (outer.wrap env (outer.promotedLabel env)).statement
          (outer.promotedLabel env)).rows I db).map
            (Sql.Valuation.null.bind (outer.promotedLabel env)))
        ((Sql.Source.derived (inner.wrap env (joinedLabel (outer.promoted env) env)).statement
          (joinedLabel (outer.promoted env) env)).rows I db) := rfl

theorem promotedLabel_ne_joinedLabel (q : Query) (env : Env) :
    q.promotedLabel env ≠ joinedLabel (q.promoted env) env := by
  intro heq
  refine (q.promoted env).aliases.fresh_notMem env.settings.tableStem ?_
  have hmem : q.promotedLabel env ∈ (q.promoted env).aliases.taken := Aliases.mem_insert.mpr (.inr rfl)
  rw [heq] at hmem
  exact hmem

theorem notNull_wrap (q : Query) (env : Env) (table : String) :
    ∀ e ∈ (q.wrap env table).result.scalars, Scope.NotNull e ∧ e.hasAggregate = false := by
  intro e he
  obtain ⟨name, rfl⟩ := scalars_wrap env table e he
  exact ⟨rfl, rfl⟩

theorem seen_null (q : Query) (env : Env) (table : String) :
    q.seen I env table (fun _ => .null) = q.draft.result.form := by
  have hnull : Sql.Valuation.null.bind table (fun _ => .null) = .null := by
    funext c
    simp [Sql.Valuation.bind, Sql.Valuation.null]
  rw [seen, hnull, datum_null]

/-- The parameters of a join's lambdas: the promoted outer query and the wrapped inner one. -/
def sides (outer inner : Query) (env : Env) (table : String) (p p' : Param) : Bindings :=
  (({} : Bindings).bind p (outer.promoted env).result).bind p' (inner.wrap env table).result

theorem sides_all {Q : Sql.Expr → Prop} (outer inner : Query) (table : String) (p p' : Param)
    (ho : ∀ e ∈ (outer.promoted env).result.scalars, Q e)
    (hi : ∀ e ∈ (inner.wrap env table).result.scalars, Q e) :
    (sides outer inner env table p p').All Q :=
  ((Bindings.All.empty _).bind ho p).bind hi p'

theorem data_sides (outer inner : Query) {table : String} (hne : outer.promotedLabel env ≠ table)
    (p p' : Param) (v : Sql.Valuation) (row : String → Json) :
    ((sides outer inner env table p p').data fun e => e.eval I [v.bind table row]) =
      Entries.put p' (inner.seen I env table row)
        [(p, (outer.promoted env).result.datum fun e => e.eval I [v])] := by
  rw [sides, Bindings.data_bind, datum_bind]
  refine congrArg (fun d => Entries.put p' _ [(p, d)]) ?_
  exact datum_bind_of_ne env _ hne v row

theorem sides_flat {outer inner : Query} {table : String} {p p' : Param}
    (ho : outer.draft.result.hasCollection = false) (hi : inner.draft.result.hasCollection = false)
    (aliases : Aliases) (depthLimit : Nat) :
    Scope.Flat ⟨sides outer inner env table p p', aliases, depthLimit⟩ := by
  have ho' := (outer.hasCollection_wrap env (outer.promotedLabel env)).trans ho
  have hi' := (inner.hasCollection_wrap env table).trans hi
  exact ((Scope.flat_empty aliases depthLimit).bind ho' p).bind hi' p'

theorem promoted_blank (h : q.Represents I db r) (env : Env) :
    ((q.promoted env).result.datum fun e => e.eval I [Sql.Valuation.null]) = r.blank :=
  (datum_null env _).trans h.blank.symm

theorem seen_blank (h : q.Represents I db r) (env : Env) (table : String) :
    q.seen I env table (fun _ => .null) = r.blank :=
  (q.seen_null env table).trans h.blank.symm

/-- The rows of a join are the pairs of data that satisfy the condition. -/
theorem join_rows (hI : I.Lawful) {inner : Query} {r' : Relation} (h : q.Represents I db r)
    (hi : inner.Represents I db r') (kind : Sql.JoinKind) {condition selector : Lambda} {e : Sql.Expr}
    {result : Shape} {table : String}
    (hcondition : ∀ v row, condition.eval I
      [(q.promoted env).result.datum fun e => e.eval I [v], inner.seen I env table row] =
        .scalar (e.eval I [v.bind table row]))
    (hselector : ∀ v row, selector.eval I
      [(q.promoted env).result.datum fun e => e.eval I [v], inner.seen I env table row] =
        result.datum fun e => e.eval I [v.bind table row]) :
    (kind.pairs (fun v row => e.asPredicate.truth I [v.bind table row] = some true)
        (fun v row => v.bind table row) .null (fun _ => .null)
        (((Sql.Source.derived (q.wrap env (q.promotedLabel env)).statement
          (q.promotedLabel env)).rows I db).map (Sql.Valuation.null.bind (q.promotedLabel env)))
        ((Sql.Source.derived (inner.wrap env table).statement table).rows I db)).map
      (fun v => result.datum fun e => e.eval I [v]) =
    (r.join I kind r' condition selector).rows := by
  have hrows : (((Sql.Source.derived (q.wrap env (q.promotedLabel env)).statement
      (q.promotedLabel env)).rows I db).map (Sql.Valuation.null.bind (q.promotedLabel env))).map
        (fun v => (q.promoted env).result.datum fun e => e.eval I [v]) = r.rows := by
    rw [List.map_map]
    exact seen_rows env _ hI h
  rw [Relation.join, ← promoted_blank h env, ← seen_blank hi env table, ← hrows,
    ← seen_rows env table hI hi]
  refine kind.map_pairs ?_ ?_
  · intro v _ row _
    rw [Sql.Expr.truth_asPredicate hI, hcondition v row]
    rfl
  · intro v _ row _
    exact (hselector v row).symm

theorem join_represents (hI : I.Lawful) {inner : Query} {r' : Relation} (h : q.Represents I db r)
    (hi : inner.Represents I db r') {kind : Sql.JoinKind} {condition selector : Lambda}
    (hc : condition.isRowLevel = true) (hs : selector.isRowLevel = true)
    (hsmall : (r.join I kind r' condition selector).rows.length ≤ maxCount)
    (hj : q.join env kind inner condition selector = .ok q') :
    q'.Represents I db (r.join I kind r' condition selector) := by
  obtain ⟨-, -, p, p', s, s', e, result, hp, hs', he, hr, rfl⟩ := join_eq_ok.mp hj
  have hne := q.promotedLabel_ne_joinedLabel env
  have hkept : (joinedDraft (q.promoted env) env kind inner e.asPredicate).kept I db = _ :=
    (Draft.kept_of_none rfl).trans (valuations_joined q inner kind e.asPredicate)
  have hbindings : (q.promoted env).bindings = {} := h.bindings
  rw [hbindings] at he hr
  generalize joinedLabel (q.promoted env) env = table at hne hkept he hr
  have hnull : ∀ a b : Param, (sides q inner env table a b).All Scope.NotNull := fun a b =>
    sides_all q inner table a b (fun e he => (q.notNull_wrap env _ e he).1)
      fun e he => (inner.notNull_wrap env _ e he).1
  obtain ⟨hselect, hnotNull⟩ := Scope.selection_eval hI (hnull s s') hs hr
  -- In a row of the join both lambdas see the data of its two sides.
  have hselector : ∀ v row, selector.eval I
      [(q.promoted env).result.datum fun e => e.eval I [v], inner.seen I env table row] =
        result.datum fun e => e.eval I [v.bind table row] := by
    intro v row
    rw [Lambda.eval_two hs', ← data_sides q inner hne s s' v row]
    exact hselect _
  have hcondition : ∀ v row, condition.eval I
      [(q.promoted env).result.datum fun e => e.eval I [v], inner.seen I env table row] =
        .scalar (e.eval I [v.bind table row]) := by
    intro v row
    rw [Lambda.eval_two hp, ← data_sides q inner hne p p' v row]
    exact Scope.expression_eval hI (hnull p p') (Lambda.isRowLevel_iff.mp hc).1 he _
  have hrows := join_rows hI h hi kind hcondition hselector
  have hplain : ∀ e ∈ result.scalars, e.hasAggregate = false := by
    refine Scope.selection_closed .aggregateFree (sides_all q inner table s s'
      (fun e he => (q.notNull_wrap env _ e he).2) fun e he => (inner.notNull_wrap env _ e he).2) ?_ hr
    intro ha
    rw [(Lambda.isRowLevel_iff.mp hs).1] at ha
    cases ha
  constructor
  case bindings => exact hbindings
  case groupBy => rfl
  case having => rfl
  case orderings => exact wrap_orderings_nil h.orderings
  case flat => exact Scope.shape_flat (sides_flat h.flat hi.flat _ _) selector.body 0 result hr
  case notNull => exact hnotNull
  case plain => exact fun _ => hplain
  case collapsed => intro hs; cases hs
  case small =>
    rw [← hrows, List.length_map] at hsmall
    rw [← hkept] at hsmall
    exact hsmall
  case blank =>
    rw [Relation.join, ← promoted_blank h env, ← seen_blank hi env table, hselector, Shape.blank_datum]
  case rows =>
    rw [Stage.window_general, Draft.data_plain hplain, ← hrows, ← hkept]
    rfl

/-! ## Windows -/

theorem drop_min {α : Type} {l : List α} (hl : l.length ≤ maxCount) (n m : Nat) :
    l.drop (min (n + m) maxCount) = (l.drop n).drop m := by
  rw [List.drop_drop]
  by_cases h : n + m ≤ maxCount
  · rw [Nat.min_eq_left h]
  · rw [Nat.min_eq_right (by omega), List.drop_eq_nil_of_le hl, List.drop_eq_nil_of_le (by omega)]

theorem moves_represents (h : q.Represents I db r) {c : Command} {op : Operator} {stage : Stage}
    (hop : c.operator env = .ok op) (hm : q.stage.Moves op stage) :
    Represents I db { q with stage } (c.run I db env.catalog r) := by
  obtain ⟨draft, stage₀⟩ := q
  have hplain : stage₀ ≠ .aggregate := by
    rintro rfl
    cases hm
  have hsmall : (draft.data I db).length ≤ maxCount := by
    rw [Draft.data_plain (h.plain hplain), List.length_map]
    exact h.small
  have hrows := h.rows
  -- Everything but the rows is as before.
  have hrest : ∀ (rel : Relation), rel.blank = r.blank → stage ≠ .aggregate →
      rel.rows = stage.window I (draft.data I db) → Represents I db ⟨draft, stage⟩ rel := by
    intro rel hb hs hr
    exact { h with
      plain := fun _ => h.plain hplain
      collapsed := fun hs' => absurd hs' hs
      blank := hb.trans h.blank
      rows := hr }
  cases c with
  | filter _ => cases hop; cases hm
  | select _ => cases hop; cases hm
  | aggregate _ _ _ => cases hop; cases hm
  | join kind entity inner condition selector =>
    simp only [Command.operator, bind_eq_ok, pure_eq_ok] at hop
    obtain ⟨_, _, _, _, rfl⟩ := hop
    cases hm
  | skip m =>
    cases hop
    cases hm with
    | skipSkip n m =>
      refine hrest _ rfl (by simp) ?_
      simp only [Command.run, Relation.skip, hrows, Stage.window]
      exact (drop_min hsmall n m).symm
    | groupingSkip m =>
      refine hrest _ rfl (by simp) ?_
      simp only [Command.run, Relation.skip, hrows, Stage.window]
  | take m =>
    cases hop
    cases hm with
    | skipTake n m =>
      refine hrest _ rfl (by simp) ?_
      simp only [Command.run, Relation.take, hrows, Stage.window]
    | takeTake n m =>
      refine hrest _ rfl (by simp) ?_
      simp only [Command.run, Relation.take, hrows, Stage.window, List.take_take, Nat.min_comm]
    | limitTake s n m =>
      refine hrest _ rfl (by simp) ?_
      simp only [Command.run, Relation.take, hrows, Stage.window, List.take_take, Nat.min_comm]
    | groupingTake m =>
      refine hrest _ rfl (by simp) ?_
      simp only [Command.run, Relation.take, hrows, Stage.window]
  | distinct =>
    cases hop
    cases hm with
    | distinctDistinct =>
      refine hrest _ rfl (by simp) ?_
      simp only [Command.run, Relation.distinct, hrows, Stage.window]
      exact firsts_firsts ..
    | groupingDistinct =>
      refine hrest _ rfl (by simp) ?_
      simp only [Command.run, Relation.distinct, hrows, Stage.window]

theorem host_represents (hI : I.Lawful) (h : q.Represents I db r) (hr : r.rows.length ≤ maxCount)
    (op : Operator) : (q.host env op).Represents I db r := by
  unfold host
  split
  · exact promoted_represents hI h hr
  · exact h

/-- An operator added to the statement at hand. -/
theorem extends_represents (hI : I.Lawful) (h : Represents I db { draft := d } r) {c : Command}
    {op : Operator} (hop : c.operator env = .ok op) (hc : c.isRowLevel = true)
    (he : Extends env d op q') : q'.Represents I db (c.run I db env.catalog r) := by
  have hcut : ∀ (stage : Stage) (rows : List Datum), stage ≠ .aggregate →
      rows = stage.window I (d.data I db) → Represents I db ⟨d, stage⟩ ⟨rows, r.blank⟩ := by
    intro stage rows hs hr
    exact { h with
      plain := fun _ => h.plain (by simp)
      collapsed := fun hs' => absurd hs' hs
      rows := hr }
  have hrows : r.rows = d.data I db := h.rows
  cases c with
  | filter f =>
    cases hop
    cases he with
    | filter hf => exact filter_represents hI h hc hf
  | select f =>
    cases hop
    cases he with
    | select hf => exact select_represents hI h (by simp) (by simp) hc hf
  | skip n =>
    cases hop
    cases he with
    | skip _ =>
      refine hcut (.skip n) _ (by simp) ?_
      rw [hrows]
      rfl
  | take n =>
    cases hop
    cases he with
    | take _ =>
      refine hcut (.take n) _ (by simp) ?_
      rw [hrows]
      rfl
  | distinct =>
    cases hop
    cases he with
    | distinct _ =>
      refine hcut .distinct _ (by simp) ?_
      rw [hrows]
      rfl
  | aggregate function args dist =>
    cases hop
    cases he with
    | aggregate hf => exact aggregate_represents hI h (List.all_eq_true.mp hc) hf
  | join kind entity inner condition selector =>
    simp only [Command.operator, bind_eq_ok, pure_eq_ok] at hop
    obtain ⟨_, _, _, _, rfl⟩ := hop
    cases he

end Query

/-! ## Chains -/

namespace Command

variable {q q' : Query} {r : Relation}

theorem adds_represents (hI : I.Lawful) {c : Command} {op : Operator} (hop : c.operator env = .ok op)
    (hc : c.isRowLevel = true) (hj : op.isJoin = false) (h : q.Represents I db r)
    (ha : Query.Adds env q op q') : q'.Represents I db (c.run I db env.catalog r) := by
  cases ha with
  | extend hg he =>
    obtain ⟨d, stage⟩ := q
    have hg' : stage = .general := hg
    subst hg'
    exact Query.extends_represents hI h hop hc he
  | move hm => exact Query.moves_represents h hop hm
  | select hp hf =>
    cases c with
    | select f =>
      cases hop
      refine Query.select_represents hI h ?_ ?_ hc hf
      · intro heq; rw [heq] at hp; cases hp
      · intro heq; rw [heq] at hp; cases hp
    | join kind entity inner condition selector =>
      simp only [operator, bind_eq_ok, pure_eq_ok] at hop
      obtain ⟨_, _, _, _, hop⟩ := hop
      cases hop
    | _ => cases hop
  | join => cases hj

theorem accept_represents (hI : I.Lawful) {c : Command} {op : Operator} (hop : c.operator env = .ok op)
    (hc : c.isRowLevel = true) (hr : r.rows.length ≤ maxCount) (hj : op.isJoin = false)
    (h : q.Represents I db r) (ha : q.accept env op = .ok q') :
    q'.Represents I db (c.run I db env.catalog r) :=
  adds_represents hI hop hc hj (Query.host_represents hI h hr op) (Query.adds_of_accept ha).adds

theorem length_of_allSmall {catalog : Catalog} {cs : List Command} (h : AllSmall I db catalog cs r) :
    r.rows.length ≤ maxCount := by
  cases cs with
  | nil => exact h
  | cons c cs => exact h.1

mutual

/-- One command: the operator makes of the query what the command makes of the relation. -/
theorem run_represents (hI : I.Lawful) : ∀ (c : Command) (op : Operator) (q q' : Query) (r : Relation),
    c.operator env = .ok op → c.isRowLevel = true → Small I db env.catalog c →
    r.rows.length ≤ maxCount → (c.run I db env.catalog r).rows.length ≤ maxCount →
    q.Represents I db r → q.accept env op = .ok q' → q'.Represents I db (c.run I db env.catalog r)
  | .join kind entity inner condition selector, op, q, q', r, hop, hc, hsm, _, hnext, h, ha => by
    simp only [operator, bind_eq_ok, pure_eq_ok] at hop
    obtain ⟨ops, hops, qi, hqi, rfl⟩ := hop
    simp only [isRowLevel, Bool.and_eq_true] at hc
    obtain ⟨qr, hqr, hacc⟩ := bind_eq_ok.mp hqi
    -- The entity of the inner query is there, because the query could be built.
    obtain ⟨e, he⟩ := Query.entity_of_root hqr
    have hinner : AllSmall I db env.catalog inner (.ofEntity db e) := hsm e he
    have hroot : qr.Represents I db (.ofEntity db e) :=
      Query.root_represents he (by simpa [Relation.ofEntity] using length_of_allSmall hinner) hqr
    have hi := runAll_represents hI inner ops qr qi (.ofEntity db e) hops hc.1.1 hinner hroot hacc
    simp only [run, he] at hnext ⊢
    exact Query.join_represents hI h hi hc.1.2 hc.2 hnext (Query.accept_join ha)
  | .filter f, op, q, q', r, hop, hc, _, hr, _, h, ha =>
    accept_represents hI hop hc hr (by cases hop; rfl) h ha
  | .select f, op, q, q', r, hop, hc, _, hr, _, h, ha =>
    accept_represents hI hop hc hr (by cases hop; rfl) h ha
  | .skip n, op, q, q', r, hop, hc, _, hr, _, h, ha =>
    accept_represents hI hop hc hr (by cases hop; rfl) h ha
  | .take n, op, q, q', r, hop, hc, _, hr, _, h, ha =>
    accept_represents hI hop hc hr (by cases hop; rfl) h ha
  | .distinct, op, q, q', r, hop, hc, _, hr, _, h, ha =>
    accept_represents hI hop hc hr (by cases hop; rfl) h ha
  | .aggregate function args d, op, q, q', r, hop, hc, _, hr, _, h, ha =>
    accept_represents hI hop hc hr (by cases hop; rfl) h ha

theorem runAll_represents (hI : I.Lawful) :
    ∀ (cs : List Command) (ops : List Operator) (q q' : Query) (r : Relation),
    operators env cs = .ok ops → allRowLevel cs = true → AllSmall I db env.catalog cs r →
    q.Represents I db r → q.acceptAll env ops = .ok q' →
    q'.Represents I db (runAll I db env.catalog cs r)
  | [], ops, q, q', r, hops, _, _, h, ha => by
    cases hops
    cases ha
    exact h
  | c :: cs, ops, q, q', r, hops, hc, hsm, h, ha => by
    simp only [operators, bind_eq_ok, pure_eq_ok] at hops
    obtain ⟨op, hop, ops, hops, rfl⟩ := hops
    obtain ⟨q₁, hq₁, ha⟩ := Query.acceptAll_cons.mp ha
    simp only [allRowLevel, Bool.and_eq_true] at hc
    obtain ⟨hr, hcsm, hsm⟩ := hsm
    have h₁ := run_represents hI c op q q₁ r hop hc.1 hcsm hr (length_of_allSmall hsm) h hq₁
    exact runAll_represents hI cs ops q₁ q' _ hops hc.2 hsm h₁ ha

end

end Command

/-- **Compilation is correct at row level.** The statement of a chain of row-level operators,
executed on any database and read back, gives the JSON of the data that the operators compute one
after the other from the objects of the entity's table. -/
theorem compile_correct (hI : I.Lawful) (db : Database) {entity : String} {cs : List Command}
    {ops : List Operator} {m : Mapping} (hc : Command.allRowLevel cs = true)
    (hsmall : ∀ e, env.catalog.entity? entity = some e →
      Command.AllSmall I db env.catalog cs (.ofEntity db e))
    (hops : Command.operators env cs = .ok ops) (h : compile env entity ops = .ok m) :
    ∃ e, env.catalog.entity? entity = some e ∧
      m.read (m.statement.rows I db) =
        (Command.runAll I db env.catalog cs (.ofEntity db e)).rows.map Datum.json := by
  obtain ⟨q, hq, rfl⟩ := compile_eq_ok.mp h
  obtain ⟨q₀, hq₀, ha⟩ := bind_eq_ok.mp hq
  obtain ⟨e, he⟩ := Query.entity_of_root hq₀
  have hroot : q₀.Represents I db (.ofEntity db e) := Query.root_represents he
    (by simpa [Relation.ofEntity] using Command.length_of_allSmall (hsmall e he)) hq₀
  refine ⟨e, he, Query.read_ofQuery hI ?_⟩
  exact Command.runAll_represents hI cs ops q₀ q _ hops hc (hsmall e he) hroot ha

/-! ## A sample run -/

namespace Sample

/-- Integers compare as numbers, everything else only for equality of truth values. -/
def compare (op : Sql.Comparator) : Json → Json → Truth
  | .bool a, .bool b => if op = .eq then some (a == b) else none
  | .int a, .int b =>
    match op with
    | .eq => some (a == b)
    | .ne => some (a != b)
    | .lt => some (a < b)
    | .le => some (a ≤ b)
    | .gt => some (b < a)
    | .ge => some (b ≤ a)
  | _, _ => none

/-- An interpretation in which aggregates count rows. -/
def interpretation : Interpretation where
  constant
    | .int n => .int n
    | .string s => .text s
    | .float x => .double x.canonical
    | _ => .null
  compare := compare
  arithmetic _ _ _ := .null
  negate _ := .null
  call _ _ := .null
  aggregate _ _ rows := .int rows.length
  same v w := v.compact == w.compact
  precedes _ _ := true

theorem interpretation_lawful : interpretation.Lawful where
  constant a b h := by
    have hliteral : ∀ v : Literal, interpretation.literal v =
        match v.canonical with
        | .int n => .int n
        | .string s => .text s
        | .float x => .double x
        | .bool b => .bool b
        | .null => .null := by
      intro v
      cases v <;> rfl
    rw [hliteral, hliteral, (Literal.same_iff a b).mp h]
  holds t := by rcases t with _ | (_ | _) <;> rfl

/-- Three users, of whom one lives in a city. The first has two paid orders, the last no orders. -/
def database : Database
  | "users" =>
    [fun | "id" => .int 1 | "name" => .text "ann" | "age" => .int 30 | "city_id" => .int 5 | _ => .null,
      fun | "id" => .int 2 | "name" => .text "bob" | "age" => .int 40 | _ => .null,
      fun | "id" => .int 3 | "name" => .text "cid" | "age" => .int 9 | _ => .null]
  | "orders" =>
    [fun | "id" => .int 7 | "user_id" => .int 1 | "paid" => .bool true | _ => .null,
      fun | "id" => .int 8 | "user_id" => .int 1 | "paid" => .bool true | _ => .null,
      fun | "id" => .int 9 | "user_id" => .int 2 | "paid" => .bool false | _ => .null]
  | "cities" => [fun | "id" => .int 5 | "name" => .text "oslo" | _ => .null]
  | _ => []

/-- The names of adults with their paid orders, and a window of that. -/
def adults : List Command :=
  [.filter ⟨[x], .binary (.compare .ge) (.member (.param x) "age") (.const (.int 18))⟩,
    .distinct,
    .join .left "Order" [.filter ⟨[x], .member (.param x) "paid"⟩, .take 5]
      ⟨[x, y], .binary (.compare .eq) (.member (.param x) "id") (.member (.param y) "user_id")⟩
      ⟨[x, y], .record [("name", .member (.param x) "name"), ("order", .member (.param y) "id")]⟩,
    .skip 1]

end Sample

theorem compile_correct_adults : ∃ ops m,
    Command.operators Sample.env Sample.adults = .ok ops ∧ compile Sample.env "User" ops = .ok m ∧
      m.statement.nested.length = 3 ∧
      (m.read (m.statement.rows Sample.interpretation Sample.database)).map Json.compact =
        ["\x7b\"name\":\"ann\",\"order\":8\x7d", "\x7b\"name\":\"bob\",\"order\":null\x7d"] := by
  have h : (do
      let ops ← Command.operators Sample.env Sample.adults
      let m ← compile Sample.env "User" ops
      pure m.statement.nested.length : Except CompileError Nat) = .ok 3 := ok_of_toOption (by decide +kernel)
  simp only [bind_eq_ok, pure_eq_ok] at h
  obtain ⟨ops, hops, m, hm, hn⟩ := h
  refine ⟨ops, m, hops, hm, hn, ?_⟩
  have hsmall : ∀ e, Sample.env.catalog.entity? "User" = some e →
      Command.AllSmall Sample.interpretation Sample.database Sample.env.catalog Sample.adults
        (.ofEntity Sample.database e) := by
    intro e he
    cases he
    refine ⟨by decide +kernel, trivial, by decide +kernel, trivial, by decide +kernel, ?_,
      by decide +kernel, trivial, ?_⟩
    · intro e he
      cases he
      refine ⟨by decide +kernel, trivial, by decide +kernel, trivial, ?_⟩
      rw [Command.AllSmall]
      decide +kernel
    · rw [Command.AllSmall]
      decide +kernel
  obtain ⟨e, he, hread⟩ := compile_correct Sample.interpretation_lawful Sample.database rfl hsmall hops hm
  cases he
  rw [hread]
  decide +kernel

end EntityQuery
