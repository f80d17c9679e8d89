import EntityQuery.Proofs.Invariants
import EntityQuery.Proofs.Renaming

/-! # Hygiene

Each lambda of a chain of operators is read in a scope of its own: no parameter is bound between two
operators. So every lambda may be renamed for itself, and the chain compiles to the same mapping. -/

namespace EntityQuery
set_option autoImplicit false

/-! ## Renamed operators -/

/-- The second step is the first one with its lambdas renamed. -/
structure NavigationStep.Renamed (step step' : NavigationStep) : Prop where
  property : step'.property = step.property
  condition : Option.Rel Lambda.Renamed step.condition step'.condition
  filter : Option.Rel Lambda.Renamed step.filter step'.filter

/-- The second grouping is the first one with its lambdas renamed. -/
structure Grouping.Renamed (g g' : Grouping) : Prop where
  keys : List.Forall₂ Lambda.Renamed g.keys g'.keys
  having : List.Forall₂ Lambda.Renamed g.having g'.having
  orderings : List.Forall₂ (fun o o' => o.1.Renamed o'.1 ∧ o'.2 = o.2) g.orderings g'.orderings
  selector : g.selector.Renamed g'.selector

/-- The second operator is the first one with its lambdas renamed. -/
inductive Operator.Renamed : Operator → Operator → Prop where
  | filter {f f' : Lambda} : f.Renamed f' → Renamed (.filter f) (.filter f')
  | orderBy {f f' : Lambda} {direction : Sql.Direction} {placement : Placement} : f.Renamed f' →
    Renamed (.orderBy f direction placement) (.orderBy f' direction placement)
  | select {f f' : Lambda} : f.Renamed f' → Renamed (.select f) (.select f')
  | skip {n : Nat} : Renamed (.skip n) (.skip n)
  | take {n : Nat} : Renamed (.take n) (.take n)
  | distinct : Renamed .distinct .distinct
  | aggregate {function : Sql.AggregateFunction} {args args' : List Lambda} {d : Bool} :
    List.Forall₂ Lambda.Renamed args args' →
    Renamed (.aggregate function args d) (.aggregate function args' d)
  | groupBy {g g' : Grouping} : g.Renamed g' → Renamed (.groupBy g) (.groupBy g')
  | load {chain chain' : NavigationChain} :
    List.Forall₂ NavigationStep.Renamed chain.steps chain'.steps → Renamed (.load chain) (.load chain')
  | join {kind : Sql.JoinKind} {inner : Query} {condition condition' selector selector' : Lambda} :
    condition.Renamed condition' → selector.Renamed selector' →
    Renamed (.join kind inner condition selector) (.join kind inner condition' selector')

theorem Operator.Renamed.name {op op' : Operator} (h : op.Renamed op') : op'.name = op.name := by
  cases h with
  | @orderBy _ _ _ placement _ => cases placement <;> rfl
  | _ => rfl

/-! ## Drafts -/

namespace Draft

variable {env : Env} {d : Draft} {f f' : Lambda} {shape : Shape}

theorem scopeOf_renamed (hb : d.bindings = {}) {ρ : Nat → Nat} (hf : Lambda.RenamedBy ρ f f') :
    Agree (Scope.Renamed ρ) (d.scopeOf env f shape) (d.scopeOf env f' shape) := by
  rw [scopeOf, scopeOf, hf.expectArity, hb]
  refine Agree.bind (SameOutcome.refl _) fun _ _ _ => ?_
  refine hf.firstParam.bind fun p p' hp => ?_
  exact .ok ⟨(Bindings.renamed_empty ρ).bind hf.injective hp shape, rfl, rfl⟩

theorem filter_renamed (hb : d.bindings = {}) (hf : f.Renamed f') :
    SameOutcome (d.filter env f) (d.filter env f') := by
  obtain ⟨ρ, hf⟩ := hf
  refine (scopeOf_renamed hb hf).bind fun s s' hs => ?_
  exact (hs.predicate hf).bind fun e _ => .refl _

theorem orderBy_renamed (hb : d.bindings = {}) (hf : f.Renamed f') (direction : Sql.Direction)
    (placement : Placement) :
    SameOutcome (d.orderBy env f direction placement) (d.orderBy env f' direction placement) := by
  obtain ⟨ρ, hf⟩ := hf
  refine (scopeOf_renamed hb hf).bind fun s s' hs => ?_
  exact (hs.expression hf).bind fun e _ => .refl _

theorem select_renamed (hb : d.bindings = {}) (hf : f.Renamed f') :
    SameOutcome (d.select env f) (d.select env f') := by
  obtain ⟨ρ, hf⟩ := hf
  refine SameOutcome.bind (.refl _) fun _ _ => ?_
  refine (scopeOf_renamed hb hf).bind fun s s' hs => ?_
  exact (hs.selection hf).bind fun result _ => .refl _

theorem argument_renamed (hb : d.bindings = {}) (hf : f.Renamed f') :
    SameOutcome (d.argument env f) (d.argument env f') := by
  obtain ⟨ρ, hf⟩ := hf
  exact (scopeOf_renamed hb hf).bind fun s s' hs => hs.expression hf

theorem aggregate_renamed (hb : d.bindings = {}) {args args' : List Lambda}
    (hargs : List.Forall₂ Lambda.Renamed args args') (function : Sql.AggregateFunction) (distinct : Bool) :
    SameOutcome (d.aggregate env function args distinct) (d.aggregate env function args' distinct) := by
  have hempty : args'.isEmpty = args.isEmpty := by cases hargs <;> rfl
  refine SameOutcome.bind (.refl _) fun _ _ => ?_
  rw [hempty]
  split
  · exact .refl _
  · exact (SameOutcome.mapM (fun _ _ hf => argument_renamed hb hf) hargs).bind fun es _ => .refl _

theorem groupKey_renamed (hb : d.bindings = {}) (hf : f.Renamed f') :
    SameOutcome (d.groupKey env f) (d.groupKey env f') := by
  obtain ⟨ρ, hf⟩ := hf
  refine (scopeOf_renamed hb hf).bind fun s s' hs => ?_
  refine (hs.groupKeys hf).bind fun keys _ => ?_
  exact (hs.selection hf).bind fun shape _ => .refl _

theorem groupCondition_renamed (hb : d.bindings = {}) (hf : f.Renamed f') :
    SameOutcome (d.groupCondition env shape f) (d.groupCondition env shape f') := by
  obtain ⟨ρ, hf⟩ := hf
  exact (scopeOf_renamed hb hf).bind fun s s' hs => hs.predicate hf

theorem groupOrdering_renamed (hb : d.bindings = {}) {o o' : Lambda × Sql.Direction}
    (ho : o.1.Renamed o'.1 ∧ o'.2 = o.2) :
    SameOutcome (d.groupOrdering env shape o) (d.groupOrdering env shape o') := by
  obtain ⟨⟨ρ, hf⟩, hdirection⟩ := ho
  rw [groupOrdering, groupOrdering, hdirection]
  refine (scopeOf_renamed hb hf).bind fun s s' hs => ?_
  exact (hs.expression hf).bind fun e _ => .refl _

theorem group_renamed (hb : d.bindings = {}) {g g' : Grouping} (hg : g.Renamed g') :
    SameOutcome (d.group env g) (d.group env g') := by
  have hempty : g'.keys.isEmpty = g.keys.isEmpty := by
    have hkeys := hg.keys
    generalize g.keys = keys, g'.keys = keys' at hkeys
    cases hkeys <;> rfl
  obtain ⟨ρ, hf⟩ := hg.selector
  refine SameOutcome.bind (.refl _) fun _ _ => ?_
  rw [hempty]
  split
  · exact .refl _
  · refine (SameOutcome.mapM (fun _ _ hf => groupKey_renamed hb hf) hg.keys).bind fun keys _ => ?_
    refine (SameOutcome.mapM (fun _ _ hf => groupCondition_renamed hb hf) hg.having).bind fun having _ => ?_
    refine (SameOutcome.mapM (fun _ _ ho => groupOrdering_renamed hb ho) hg.orderings).bind
      fun orderings _ => ?_
    refine (scopeOf_renamed hb hf).bind fun s s' hs => ?_
    exact (hs.selection hf).bind fun result _ => .refl _

/-! ## Eager loading -/

theorem stepPredicate_renamed (hb : d.bindings = {}) {f f' : Option Lambda}
    (hf : Option.Rel Lambda.Renamed f f') :
    SameOutcome (d.stepPredicate env shape f) (d.stepPredicate env shape f') := by
  cases hf with
  | none => exact .refl _
  | some hf =>
    obtain ⟨ρ, hf⟩ := hf
    refine (scopeOf_renamed hb hf).bind fun s s' hs => ?_
    exact (hs.predicate hf).bind fun e _ => .refl _

variable {step step' : NavigationStep}

theorem attach_renamed (hb : d.bindings = {}) (hs : step.Renamed step') (owner : ObjectOf Shape)
    (link : Link) (label : String) :
    SameOutcome (d.attach env owner step link label) (d.attach env owner step' link label) := by
  refine SameOutcome.bind (.refl _) fun ownerKey _ => ?_
  refine SameOutcome.bind (.refl _) fun relatedKey _ => ?_
  refine (stepPredicate_renamed hb hs.condition).bind fun condition _ => ?_
  exact (stepPredicate_renamed hb hs.filter).bind fun filter _ => .refl _

theorem attach_bindings {owner : ObjectOf Shape} {link : Link} {label : String} {r : Draft × Shape}
    (h : d.attach env owner step link label = .ok r) : r.1.bindings = d.bindings := by
  simp only [attach, bind_eq_ok, pure_eq_ok] at h
  obtain ⟨ownerKey, -, relatedKey, -, condition, -, filter, -, rfl⟩ := h
  rfl

theorem takeStep_renamed (hb : d.bindings = {}) (hs : step.Renamed step') (owner : ObjectOf Shape)
    (below : Bool) : ∃ d₁ r r', d.takeStep env owner step below = (d₁, r) ∧
      d.takeStep env owner step' below = (d₁, r') ∧ d₁.bindings = {} ∧ SameOutcome r r' := by
  have hinspect : inspect env owner step' below = inspect env owner step below := by
    simp only [inspect, hs.property]
  unfold takeStep
  rw [hinspect, hs.property]
  cases inspect env owner step below with
  | error e => exact ⟨d, _, _, rfl, rfl, hb, .refl _⟩
  | ok found =>
    obtain ⟨many, link⟩ := found
    cases link with
    | none =>
      cases owner.members.lookup step.property with
      | none => exact ⟨d, _, _, rfl, rfl, hb, .refl _⟩
      | some member => exact ⟨d, _, _, rfl, rfl, hb, .refl _⟩
    | some link =>
      dsimp only
      generalize (d.aliases.reserve link.target.table).1 = label
      generalize hd₀ : ({ d with aliases := (d.aliases.reserve link.target.table).2 } : Draft) = d₀
      have hb₀ : d₀.bindings = {} := by rw [← hd₀]; exact hb
      have hattach : SameOutcome (d₀.attach env owner step link label)
          (d₀.attach env owner step' link label) := attach_renamed hb₀ hs owner link label
      generalize hx : d₀.attach env owner step link label = x,
        d₀.attach env owner step' link label = y at hattach ⊢
      cases hattach with
      | @ok r _ hr =>
        rw [← hr]
        obtain ⟨d₁, member⟩ := r
        exact ⟨d₁, _, _, rfl, rfl, (attach_bindings hx).trans hb₀, .refl _⟩
      | error he => exact ⟨d₀, _, _, rfl, rfl, hb₀, .error he⟩

theorem walk_renamed (env : Env) {steps steps' : List NavigationStep}
    (hs : List.Forall₂ NavigationStep.Renamed steps steps') {d : Draft} (hb : d.bindings = {})
    (below : Bool) (shape : Shape) : ∃ shape₁ d₁ e e', walk env steps below shape d = (shape₁, d₁, e) ∧
      walk env steps' below shape d = (shape₁, d₁, e') ∧
      e.map CompileError.unnamed = e'.map CompileError.unnamed := by
  induction hs generalizing d below shape with
  | nil => exact ⟨shape, d, none, none, rfl, rfl, rfl⟩
  | @cons step step' steps steps' hstep _ ih =>
    rw [walk, walk, hstep.property]
    cases shape.owner? with
    | none => exact ⟨shape, d, _, _, rfl, rfl, rfl⟩
    | some owner =>
      obtain ⟨d₁, r, r', hr, hr', hb₁, hsame⟩ := takeStep_renamed hb hstep owner below
      dsimp only
      rw [hr, hr']
      cases hsame with
      | error he => exact ⟨shape, d₁, _, _, rfl, rfl, congrArg some he⟩
      | @ok taken _ htaken =>
        rw [← htaken]
        obtain ⟨owner₁, member, many⟩ := taken
        obtain ⟨shape₂, d₂, e, e', hw, hw', he⟩ := ih hb₁ (below || many) member
        dsimp only
        rw [hw, hw']
        exact ⟨_, d₂, e, e', rfl, rfl, he⟩

theorem load_renamed (hb : d.bindings = {}) {chain chain' : NavigationChain}
    (hs : List.Forall₂ NavigationStep.Renamed chain.steps chain'.steps) :
    SameOutcome (Query.load d env chain) (Query.load d env chain') := by
  have hlength : chain'.length = chain.length := hs.length_eq.symm
  obtain ⟨shape₁, d₁, e, e', hw, hw', he⟩ := walk_renamed env hs hb false d.result
  rw [Query.load, Query.load, load, load, hlength]
  by_cases hdeep : env.settings.navigationDepth < chain.length
  · rw [if_pos hdeep, if_pos hdeep]
    exact .refl _
  · rw [if_neg hdeep, if_neg hdeep, hw, hw']
    cases e with
    | none =>
      cases e' with
      | none => exact .refl _
      | some e' => cases he
    | some e =>
      cases e' with
      | none => cases he
      | some e' => exact .error (Option.some.inj he)

end Draft

/-! ## Queries -/

theorem properties_renamed {steps steps' : List NavigationStep}
    (h : List.Forall₂ NavigationStep.Renamed steps steps') :
    steps'.map (·.property) = steps.map (·.property) := by
  induction h with
  | nil => rfl
  | cons hs _ ih => rw [List.map_cons, List.map_cons, ih, hs.property]

namespace Query

variable {env : Env} {q : Query} {op op' : Operator} {condition condition' selector selector' : Lambda}

theorem joinUnder_renamed {ρ : Nat → Nat} (hc : Lambda.RenamedBy ρ condition condition') {b b' : Bindings}
    (hb : b.Renamed ρ b') (kind : Sql.JoinKind) (aliases : Aliases) (label : String) :
    SameOutcome (q.joinUnder env kind condition b aliases label)
      (q.joinUnder env kind condition' b' aliases label) := by
  refine hc.lastParam.bind fun p p' hp => ?_
  have hs : Scope.Renamed ρ
      ⟨b.bind p (q.wrap env label).result, aliases, env.settings.expressionDepth⟩
      ⟨b'.bind p' (q.wrap env label).result, aliases, env.settings.expressionDepth⟩ :=
    ⟨hb.bind hc.injective hp _, rfl, rfl⟩
  exact (hs.predicate hc).bind fun on _ => .refl _

theorem joinSide_renamed (q : Query) (env : Env) {ρ : Nat → Nat}
    (hc : Lambda.RenamedBy ρ condition condition') {b b' : Bindings} (hb : b.Renamed ρ b')
    (kind : Sql.JoinKind) (aliases : Aliases) :
    ∃ aliases₁ side side', q.joinSide env kind condition b aliases = (aliases₁, side) ∧
      q.joinSide env kind condition' b' aliases = (aliases₁, side') ∧ SameOutcome side side' := by
  unfold joinSide
  cases q.draft.ensureNoCollection "Join" with
  | error e => exact ⟨aliases, _, _, rfl, rfl, .refl _⟩
  | ok _ => exact ⟨_, _, _, rfl, rfl, joinUnder_renamed hc hb kind _ _⟩

/-- The two parameters of a join are bound one after the other, so that the second one hides the first
one if they have one id. -/
theorem join_renamed (hb : q.draft.bindings = {}) (hc : condition.Renamed condition')
    (hs : selector.Renamed selector') (kind : Sql.JoinKind) (inner : Query) :
    SameOutcome (q.join env kind inner condition selector)
      (q.join env kind inner condition' selector') := by
  obtain ⟨ρ, hc⟩ := hc
  obtain ⟨σ, hs⟩ := hs
  rw [join, join, hc.expectArity, hs.expectArity]
  refine SameOutcome.bind (.refl _) fun _ _ => ?_
  refine SameOutcome.bind (.refl _) fun _ _ => ?_
  refine SameOutcome.bind (.refl _) fun outer houter => ?_
  have hb' : outer.bindings = {} := by
    obtain ⟨-, rfl⟩ := promote_eq_ok.mp houter
    exact hb
  rw [hb']
  refine hc.firstParam.bind fun p p' hp => ?_
  have hbound := (Bindings.renamed_empty ρ).bind hc.injective hp outer.result
  obtain ⟨aliases, side, side', hside, hside', hsame⟩ :=
    joinSide_renamed inner env hc hbound kind outer.aliases
  dsimp only
  rw [hside, hside']
  refine hsame.bind fun side _ => ?_
  refine hs.firstParam.bind fun r r' hr => ?_
  refine hs.lastParam.bind fun t t' ht => ?_
  have hboth := ((Bindings.renamed_empty σ).bind hs.injective hr outer.result).bind hs.injective ht
    side.result
  have hscope : Scope.Renamed σ ⟨_, aliases, env.settings.expressionDepth⟩ ⟨_, aliases, _⟩ :=
    ⟨hboth, rfl, rfl⟩
  exact (hscope.selection hs).bind fun result _ => .refl _

theorem acceptGeneral_renamed {d : Draft} (hb : d.bindings = {}) (h : op.Renamed op') :
    SameOutcome (acceptGeneral d env op) (acceptGeneral d env op') := by
  cases h with
  | filter hf => exact (Draft.filter_renamed hb hf).bind fun _ _ => .refl _
  | orderBy hf => exact (Draft.orderBy_renamed hb hf _ _).bind fun _ _ => .refl _
  | select hf => exact (Draft.select_renamed hb hf).bind fun _ _ => .refl _
  | skip => exact .refl _
  | take => exact .refl _
  | distinct => exact .refl _
  | aggregate hargs => exact (Draft.aggregate_renamed hb hargs _ _).bind fun _ _ => .refl _
  | groupBy hg => exact (Draft.group_renamed hb hg).bind fun _ _ => .refl _
  | load hs => exact (Draft.load_renamed hb hs).bind fun _ _ => .refl _
  | join hc hs => exact join_renamed hb hc hs _ _

theorem accept_renamed (hb : q.draft.bindings = {}) (h : op.Renamed op') :
    SameOutcome (q.accept env op) (q.accept env op') := by
  have hgeneral : SameOutcome (acceptGeneral q.draft env op) (acceptGeneral q.draft env op') :=
    acceptGeneral_renamed hb h
  have hpromoted : SameOutcome (q.promote env >>= fun d => acceptGeneral d env op)
      (q.promote env >>= fun d => acceptGeneral d env op') := by
    refine SameOutcome.bind (.refl _) fun d hd => acceptGeneral_renamed ?_ h
    obtain ⟨-, rfl⟩ := promote_eq_ok.mp hd
    exact hb
  have hselect : ∀ {f f' : Lambda}, f.Renamed f' →
      SameOutcome (q.selectInPlace env f) (q.selectInPlace env f') :=
    fun hf => (Draft.select_renamed hb hf).bind fun _ _ => .refl _
  have hended : SameOutcome (.error (.unsupported (.afterAggregate op.name)))
      (.error (.unsupported (.afterAggregate op'.name)) : Except CompileError Query) := by
    rw [h.name]
    exact .refl _
  obtain ⟨d, stage⟩ := q
  cases h with
  | skip => exact .refl _
  | take => exact .refl _
  | distinct => exact .refl _
  | select hf =>
    cases stage with
    | general => exact hgeneral
    | aggregate => exact hended
    | distinct => exact hpromoted
    | _ => exact hselect hf
  | @load chain chain' hs =>
    have hpath : chain'.path = chain.path := by
      rw [NavigationChain.path, NavigationChain.path, properties_renamed hs]
    have hlate : ∀ stage : Stage, SameOutcome (.error (.unsupported (.includeAfter chain.path stage.name)))
        (.error (.unsupported (.includeAfter chain'.path stage.name)) : Except CompileError Query) := by
      intro stage
      rw [hpath]
      exact .refl _
    cases stage with
    | general => exact hgeneral
    | aggregate => exact hended
    | _ => exact hlate _
  | join hc hs =>
    cases stage with
    | aggregate => exact hended
    | _ => exact join_renamed hb hc hs _ _
  | _ =>
    cases stage with
    | general => exact hgeneral
    | aggregate => exact hended
    | _ => exact hpromoted

theorem acceptAll_renamed {ops ops' : List Operator} (h : List.Forall₂ Operator.Renamed ops ops')
    {q : Query} (hq : q.Tidy) : SameOutcome (q.acceptAll env ops) (q.acceptAll env ops') := by
  induction h generalizing q with
  | nil => exact .refl _
  | cons hop _ ih =>
    rw [acceptAll, acceptAll, List.foldlM_cons, List.foldlM_cons]
    exact (accept_renamed hq.bindings hop).bind fun q' hq' => ih (hq.accept hq')

theorem build_renamed {ops ops' : List Operator} (h : List.Forall₂ Operator.Renamed ops ops')
    (entity : String) : SameOutcome (build env entity ops) (build env entity ops') :=
  SameOutcome.bind (.refl _) fun _ hq => acceptAll_renamed h (root_tidy hq)

end Query

/-! ## Chains with inner chains -/

/-- An operator, or a join with an inner query that is still to be built. -/
inductive Request where
  | apply (op : Operator)
  | join (kind : Sql.JoinKind) (entity : String) (inner : List Request) (condition selector : Lambda)

namespace Request

mutual

/-- The operator of a request; the inner query of a join is built first. -/
def operator (env : Env) : Request → Except CompileError Operator
  | .apply op => .ok op
  | .join kind entity inner condition selector => do
    let ops ← operators env inner
    let q ← Query.build env entity ops
    return .join kind q condition selector

/-- The operators of requests. -/
def operators (env : Env) : List Request → Except CompileError (List Operator)
  | [] => .ok []
  | r :: rs => do
    let op ← operator env r
    let ops ← operators env rs
    return op :: ops

end

/-- Compiles requests on an entity. -/
def compile (env : Env) (entity : String) (rs : List Request) : Except CompileError Mapping := do
  let ops ← operators env rs
  EntityQuery.compile env entity ops

mutual

/-- The second request is the first one with each of its lambdas renamed, also those of inner chains. -/
inductive Renamed : Request → Request → Prop where
  | apply {op op' : Operator} : op.Renamed op' → Renamed (.apply op) (.apply op')
  | join {kind : Sql.JoinKind} {entity : String} {inner inner' : List Request}
    {condition condition' selector selector' : Lambda} : RenamedAll inner inner' →
    condition.Renamed condition' → selector.Renamed selector' →
    Renamed (.join kind entity inner condition selector) (.join kind entity inner' condition' selector')

inductive RenamedAll : List Request → List Request → Prop where
  | nil : RenamedAll [] []
  | cons {r r' : Request} {rs rs' : List Request} : Renamed r r' → RenamedAll rs rs' →
    RenamedAll (r :: rs) (r' :: rs')

end

variable {env : Env}

mutual

theorem operator_renamed : ∀ {r r' : Request}, Renamed r r' →
    Agree Operator.Renamed (r.operator env) (r'.operator env)
  | _, _, .apply h => .ok h
  | _, _, .join hinner hc hs => by
    refine (operators_renamed hinner).bind fun ops ops' hops => ?_
    refine Agree.bind (Query.build_renamed hops _) fun q q' hq => ?_
    rw [hq]
    exact .ok (.join hc hs)

theorem operators_renamed : ∀ {rs rs' : List Request}, RenamedAll rs rs' →
    Agree (List.Forall₂ Operator.Renamed) (operators env rs) (operators env rs')
  | _, _, .nil => .ok .nil
  | _, _, .cons hr hrs => by
    refine (operator_renamed hr).bind fun op op' hop => ?_
    exact (operators_renamed hrs).bind fun ops ops' hops => .ok (.cons hop hops)

end

/-- **What lambdas call their parameters does not matter.** If each lambda of a chain is renamed for
itself, the chain compiles to the same mapping, or it fails as before but for the words that spell
parameters. Nothing that a lambda binds is left for the lambdas of later operators. -/
theorem compile_renamed {entity : String} {rs rs' : List Request} (h : RenamedAll rs rs') :
    (∀ m, compile env entity rs = .ok m ↔ compile env entity rs' = .ok m) ∧
      SameOutcome (compile env entity rs) (compile env entity rs') ∧
      ∀ ops q, Query.build env entity ops = .ok q → q.draft.bindings = {} := by
  have hsame : SameOutcome (compile env entity rs) (compile env entity rs') := by
    refine (operators_renamed h).bind fun ops ops' hops => ?_
    exact (Query.build_renamed hops entity).bind fun q _ => .refl _
  refine ⟨fun m => hsame.ok_iff, hsame, fun ops q hq => ?_⟩
  exact (Query.tidy_of_build hq).bindings

end Request

namespace Sample

/-- Adults with the amounts of their paid orders, for any parameters of the lambdas. -/
def purchases (u o p q v w : Param) : List Request :=
  [.apply (.filter ⟨[u], .binary (.compare .ge) (.member (.param u) "age") (.const (.int 18))⟩),
    .join .inner "Order" [.apply (.filter ⟨[o], .member (.param o) "paid"⟩)]
      ⟨[p, q], .binary (.compare .eq) (.member (.param p) "id") (.member (.param q) "user_id")⟩
      ⟨[v, w], .record [("name", .member (.param v) "name"), ("amount", .member (.param w) "amount")]⟩]

end Sample

/-- All lambdas use the same two parameters, or all use different ones and the condition of the join has
them in exchange. -/
theorem Request.compile_renamed_purchases : ∃ m,
    compile Sample.env "User" (Sample.purchases Sample.x Sample.x Sample.x Sample.y Sample.x Sample.y) = .ok m ∧
      compile Sample.env "User"
        (Sample.purchases ⟨7, "u"⟩ ⟨3, "o"⟩ Sample.y Sample.x ⟨5, "u"⟩ ⟨6, "o"⟩) = .ok m ∧
      m.statement.sources.joins.map (fun j => j.on.text) = ["(T.id = T1.user_id)"] := by
  have hrenamed : RenamedAll
      (Sample.purchases Sample.x Sample.x Sample.x Sample.y Sample.x Sample.y)
      (Sample.purchases ⟨7, "u"⟩ ⟨3, "o"⟩ Sample.y Sample.x ⟨5, "u"⟩ ⟨6, "o"⟩) := by
    refine .cons (.apply (.filter ⟨(· + 7), fun _ _ => Nat.add_right_cancel, .cons rfl .nil,
      .binary (.member (.param rfl)) .const⟩)) (.cons (.join ?_ ?_ ?_) .nil)
    · exact .cons (.apply (.filter ⟨(· + 3), fun _ _ => Nat.add_right_cancel, .cons rfl .nil,
        .member (.param rfl)⟩)) .nil
    · exact ⟨Equiv.swap 0 1, (Equiv.swap 0 1).injective, .cons rfl (.cons rfl .nil),
        .binary (.member (.param rfl)) (.member (.param rfl))⟩
    · exact ⟨(· + 5), fun _ _ => Nat.add_right_cancel, .cons rfl (.cons rfl .nil),
        .record (.cons (.member (.param rfl)) (.cons (.member (.param rfl)) .nil))⟩
  have h : (do
      let m ← compile Sample.env "User"
        (Sample.purchases Sample.x Sample.x Sample.x Sample.y Sample.x Sample.y)
      pure (m.statement.sources.joins.map (fun j => j.on.text)) : Except CompileError (List String)) =
        .ok ["(T.id = T1.user_id)"] := ok_of_toOption (by decide +kernel)
  simp only [bind_eq_ok, pure_eq_ok] at h
  obtain ⟨m, hm, hjoins⟩ := h
  exact ⟨m, hm, ((compile_renamed hrenamed).1 m).mp hm, hjoins⟩

end EntityQuery
