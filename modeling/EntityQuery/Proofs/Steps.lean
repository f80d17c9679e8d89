import EntityQuery.Query.Compile

/-! # What a successful step did

Each operation of drafts and queries may fail. The lemmas of this module say, once for each of them,
what has happened if it did not: what its lambdas denoted and which parts of the draft are new. All
statements about whole runs rest on these and unfold no operation again. -/

namespace EntityQuery
set_option autoImplicit false

/-! ## Lambdas -/

theorem bind_eq_ok {ε α β : Type} {x : Except ε α} {f : α → Except ε β} {b : β} :
    (x >>= f) = .ok b ↔ ∃ a, x = .ok a ∧ f a = .ok b := by
  cases x with
  | error e =>
    constructor
    · intro h; cases h
    · rintro ⟨_, h, _⟩; cases h
  | ok a =>
    constructor
    · intro h; exact ⟨a, rfl, h⟩
    · rintro ⟨_, h, h'⟩; cases h; exact h'

theorem ok_of_toOption {ε α : Type} {x : Except ε α} {a : α} (h : x.toOption = some a) : x = .ok a := by
  cases x with
  | error e => cases h
  | ok b => rw [Option.some.inj h]

theorem pure_eq_ok {ε α : Type} {a b : α} : (pure a : Except ε α) = .ok b ↔ a = b := by
  change Except.ok a = Except.ok b ↔ _
  rw [Except.ok.injEq]

namespace Lambda

theorem expectArity_eq_ok {f : Lambda} {n : Nat} {u : Unit} :
    f.expectArity n = .ok u ↔ f.params.length = n := by
  unfold expectArity
  by_cases h : f.params.length = n <;> simp [h]

theorem firstParam_eq_ok {f : Lambda} {p : Param} :
    f.firstParam = .ok p ↔ f.params.head? = some p := by
  unfold firstParam
  cases f.params.head? <;> simp

theorem lastParam_eq_ok {f : Lambda} {p : Param} :
    f.lastParam = .ok p ↔ f.params.getLast? = some p := by
  unfold lastParam
  cases f.params.getLast? <;> simp

end Lambda

namespace Scope

theorem predicate_eq_ok {s : Scope} {f : Lambda} {e : Sql.Expr} :
    s.predicate f = .ok e ↔ ∃ e', s.expression f = .ok e' ∧ e = e'.asPredicate := by
  simp only [predicate, bind_eq_ok, pure_eq_ok, eq_comm (b := e)]

end Scope

/-! ## Drafts -/

namespace Draft

theorem ensureNoCollection_eq_ok {d : Draft} {op : String} {u : Unit} :
    d.ensureNoCollection op = .ok u ↔ d.result.hasCollection = false := by
  unfold ensureNoCollection
  by_cases h : d.result.hasCollection = true <;> simp [h]

theorem scopeOf_eq_ok {d : Draft} {env : Env} {f : Lambda} {shape : Shape} {s : Scope} :
    d.scopeOf env f shape = .ok s ↔
      ∃ p, f.params = [p] ∧ s = d.scope env (d.bindings.bind p shape) := by
  simp only [scopeOf, bind_eq_ok, pure_eq_ok, Lambda.expectArity_eq_ok, Lambda.firstParam_eq_ok,
    exists_const]
  constructor
  · rintro ⟨h, p, hp, rfl⟩
    refine ⟨p, ?_, rfl⟩
    match hf : f.params, h, hp with
    | [p'], _, hp => rw [List.head?_cons, Option.some.injEq] at hp; rw [hp]
  · rintro ⟨p, h, rfl⟩
    exact ⟨by rw [h]; rfl, p, by rw [h]; rfl, rfl⟩

theorem filter_eq_ok {d d' : Draft} {env : Env} {f : Lambda} :
    d.filter env f = .ok d' ↔ ∃ p e, f.params = [p] ∧
      (d.scope env (d.bindings.bind p d.result)).expression f = .ok e ∧
      d' = d.addCondition e.asPredicate := by
  simp only [filter, bind_eq_ok, pure_eq_ok, scopeOf_eq_ok, Scope.predicate_eq_ok]
  constructor
  · rintro ⟨_, ⟨p, hp, rfl⟩, _, ⟨e, he, rfl⟩, rfl⟩
    exact ⟨p, e, hp, he, rfl⟩
  · rintro ⟨p, e, hp, he, rfl⟩
    exact ⟨_, ⟨p, hp, rfl⟩, _, ⟨e, he, rfl⟩, rfl⟩

theorem orderBy_eq_ok {d d' : Draft} {env : Env} {f : Lambda} {dir : Sql.Direction} {pl : Placement} :
    d.orderBy env f dir pl = .ok d' ↔ ∃ p e, f.params = [p] ∧
      (d.scope env (d.bindings.bind p d.result)).expression f = .ok e ∧
      d' = if d.inherited || pl == .primary then
          { d with orderings := [⟨e, dir⟩], inherited := false }
        else { d with orderings := d.orderings ++ [⟨e, dir⟩] } := by
  simp only [orderBy, bind_eq_ok, scopeOf_eq_ok]
  constructor
  · rintro ⟨_, ⟨p, hp, rfl⟩, e, he, h⟩
    refine ⟨p, e, hp, he, ?_⟩
    split at h <;> rename_i hc <;> simp only [pure_eq_ok] at h <;> simp [hc, ← h]
  · rintro ⟨p, e, hp, he, rfl⟩
    refine ⟨_, ⟨p, hp, rfl⟩, e, he, ?_⟩
    split <;> rfl

theorem select_eq_ok {d d' : Draft} {env : Env} {f : Lambda} :
    d.select env f = .ok d' ↔ d.result.hasCollection = false ∧ ∃ p result, f.params = [p] ∧
      (d.scope env (d.bindings.bind p d.result)).selection f = .ok result ∧
      d' = { d with result } := by
  simp only [select, bind_eq_ok, pure_eq_ok, scopeOf_eq_ok, ensureNoCollection_eq_ok, exists_const]
  constructor
  · rintro ⟨hc, _, ⟨p, hp, rfl⟩, result, hr, rfl⟩
    exact ⟨hc, p, result, hp, hr, rfl⟩
  · rintro ⟨hc, p, result, hp, hr, rfl⟩
    exact ⟨hc, _, ⟨p, hp, rfl⟩, result, hr, rfl⟩

theorem argument_eq_ok {d : Draft} {env : Env} {f : Lambda} {e : Sql.Expr} :
    d.argument env f = .ok e ↔ ∃ p, f.params = [p] ∧
      (d.scope env (d.bindings.bind p d.result)).expression f = .ok e := by
  simp only [argument, bind_eq_ok, scopeOf_eq_ok]
  constructor
  · rintro ⟨_, ⟨p, hp, rfl⟩, he⟩
    exact ⟨p, hp, he⟩
  · rintro ⟨p, hp, he⟩
    exact ⟨_, ⟨p, hp, rfl⟩, he⟩

theorem aggregate_eq_ok {d d' : Draft} {env : Env} {function : Sql.AggregateFunction}
    {args : List Lambda} {distinct : Bool} :
    d.aggregate env function args distinct = .ok d' ↔ d.result.hasCollection = false ∧
      (args = [] → function.allowsNoArgument = true) ∧
      ∃ es, args.mapM (d.argument env) = .ok es ∧
        d' = {
          bindings := d.bindings
          aliases := d.aliases
          sources := d.sources
          condition := d.condition
          result := .scalar (.aggregate function es distinct) } := by
  simp only [aggregate, bind_eq_ok, ensureNoCollection_eq_ok, exists_const]
  by_cases hargs : (args.isEmpty && !function.allowsNoArgument) = true
  · rw [if_pos hargs]
    simp only [Bool.and_eq_true, List.isEmpty_iff, Bool.not_eq_true'] at hargs
    constructor
    · rintro ⟨_, h⟩; cases h
    · rintro ⟨_, h, _⟩; rw [h hargs.1] at hargs; cases hargs.2
  · rw [if_neg hargs]
    simp only [bind_eq_ok, pure_eq_ok]
    have hargs' : args = [] → function.allowsNoArgument = true := by
      simpa [List.isEmpty_iff] using hargs
    constructor
    · rintro ⟨hc, es, hes, rfl⟩
      exact ⟨hc, hargs', es, hes, rfl⟩
    · rintro ⟨hc, _, es, hes, rfl⟩
      exact ⟨hc, es, hes, rfl⟩

theorem groupKey_eq_ok {d : Draft} {env : Env} {f : Lambda} {k : List Sql.Expr × Shape} :
    d.groupKey env f = .ok k ↔ ∃ p, f.params = [p] ∧
      (d.scope env (d.bindings.bind p d.result)).groupKeys f = .ok k.1 ∧
      (d.scope env (d.bindings.bind p d.result)).selection f = .ok k.2 := by
  simp only [groupKey, bind_eq_ok, pure_eq_ok, scopeOf_eq_ok]
  constructor
  · rintro ⟨_, ⟨p, hp, rfl⟩, keys, hk, shape, hs, rfl⟩
    exact ⟨p, hp, hk, hs⟩
  · rintro ⟨p, hp, hk, hs⟩
    exact ⟨_, ⟨p, hp, rfl⟩, k.1, hk, k.2, hs, rfl⟩

theorem groupCondition_eq_ok {d : Draft} {env : Env} {group : Shape} {f : Lambda} {e : Sql.Expr} :
    d.groupCondition env group f = .ok e ↔ ∃ p e', f.params = [p] ∧
      (d.scope env (d.bindings.bind p group)).expression f = .ok e' ∧ e = e'.asPredicate := by
  simp only [groupCondition, bind_eq_ok, scopeOf_eq_ok, Scope.predicate_eq_ok]
  constructor
  · rintro ⟨_, ⟨p, hp, rfl⟩, e', he, rfl⟩
    exact ⟨p, e', hp, he, rfl⟩
  · rintro ⟨p, e', hp, he, rfl⟩
    exact ⟨_, ⟨p, hp, rfl⟩, e', he, rfl⟩

theorem groupOrdering_eq_ok {d : Draft} {env : Env} {group : Shape} {o : Lambda × Sql.Direction}
    {r : Sql.Ordering} :
    d.groupOrdering env group o = .ok r ↔ ∃ p e, o.1.params = [p] ∧
      (d.scope env (d.bindings.bind p group)).expression o.1 = .ok e ∧ r = ⟨e, o.2⟩ := by
  simp only [groupOrdering, bind_eq_ok, pure_eq_ok, scopeOf_eq_ok]
  constructor
  · rintro ⟨_, ⟨p, hp, rfl⟩, e, he, rfl⟩
    exact ⟨p, e, hp, he, rfl⟩
  · rintro ⟨p, e, hp, he, rfl⟩
    exact ⟨_, ⟨p, hp, rfl⟩, e, he, rfl⟩

theorem group_eq_ok {d d' : Draft} {env : Env} {g : Grouping} :
    d.group env g = .ok d' ↔ d.result.hasCollection = false ∧ g.keys ≠ [] ∧
      ∃ keys having orderings p result, g.keys.mapM (d.groupKey env) = .ok keys ∧
        g.having.mapM (d.groupCondition env (groupShape (keyShape (keys.map (·.2))) d.result)) =
          .ok having ∧
        g.orderings.mapM (d.groupOrdering env (groupShape (keyShape (keys.map (·.2))) d.result)) =
          .ok orderings ∧
        g.selector.params = [p] ∧
        (d.scope env (d.bindings.bind p (groupShape (keyShape (keys.map (·.2))) d.result))).selection
          g.selector = .ok result ∧
        d' = { (having.foldl addHaving { d with groupBy := d.groupBy ++ keys.flatMap (·.1) }).setOrderings
          orderings with result } := by
  simp only [group, bind_eq_ok, ensureNoCollection_eq_ok, exists_const]
  by_cases hk : g.keys = []
  · simp [hk]
  · rw [if_neg (by simpa [List.isEmpty_iff] using hk)]
    simp only [bind_eq_ok, pure_eq_ok, scopeOf_eq_ok]
    constructor
    · rintro ⟨hc, keys, hkeys, having, hh, orderings, ho, _, ⟨p, hp, rfl⟩, result, hr, rfl⟩
      exact ⟨hc, hk, keys, having, orderings, p, result, hkeys, hh, ho, hp, hr, rfl⟩
    · rintro ⟨hc, -, keys, having, orderings, p, result, hkeys, hh, ho, hp, hr, rfl⟩
      exact ⟨hc, keys, hkeys, having, hh, orderings, ho, _, ⟨p, hp, rfl⟩, result, hr, rfl⟩

theorem addHavings_eq (es : List Sql.Expr) (d : Draft) :
    es.foldl addHaving d = { d with having := (es.foldl addHaving d).having } := by
  induction es generalizing d with
  | nil => rfl
  | cons e es ih => rw [List.foldl_cons, ih]; rfl

theorem setOrderings_eq (d : Draft) (os : List Sql.Ordering) :
    d.setOrderings os = { d with
      orderings := if os.isEmpty then d.orderings else os
      inherited := if os.isEmpty then d.inherited else false } := by
  unfold setOrderings
  split <;> rfl

theorem group_rest {d d' : Draft} {env : Env} {g : Grouping} (h : d.group env g = .ok d') :
    d' = { d with
      groupBy := d'.groupBy, having := d'.having, orderings := d'.orderings
      inherited := d'.inherited, result := d'.result } := by
  obtain ⟨-, -, keys, having, os, p, result, -, -, -, -, -, rfl⟩ := group_eq_ok.mp h
  rw [setOrderings_eq, addHavings_eq]

end Draft

/-! ## Eager loading -/

theorem Env.entity_eq_ok {env : Env} {name : String} {e : Entity} :
    env.entity name = .ok e ↔ env.catalog.entity? name = some e := by
  unfold Env.entity
  cases env.catalog.entity? name <;> simp

theorem Shape.keyOf_eq_ok {o : ObjectOf Shape} {key : String} {e : Sql.Expr} :
    Shape.keyOf o key = .ok e ↔ o.members.lookup key = some (.scalar e) := by
  unfold Shape.keyOf
  cases h : o.members.lookup key with
  | none => simp
  | some m => cases m <;> simp [Shape.scalar?]

namespace Draft

theorem stepPredicate_eq_ok {d : Draft} {env : Env} {related : Shape} {f : Option Lambda}
    {r : Option Sql.Expr} :
    d.stepPredicate env related f = .ok r ↔ (f = none ∧ r = none) ∨
      ∃ g p e, f = some g ∧ g.params = [p] ∧
        (d.scope env (d.bindings.bind p related)).expression g = .ok e ∧ r = some e.asPredicate := by
  cases f with
  | none => simp [stepPredicate, eq_comm]
  | some g =>
    simp only [stepPredicate, bind_eq_ok, pure_eq_ok, scopeOf_eq_ok, Scope.predicate_eq_ok,
      reduceCtorEq, false_and, false_or, Option.some.injEq]
    constructor
    · rintro ⟨_, ⟨p, hp, rfl⟩, _, ⟨e, he, rfl⟩, rfl⟩
      exact ⟨g, p, e, rfl, hp, he, rfl⟩
    · rintro ⟨_, p, e, rfl, hp, he, rfl⟩
      exact ⟨_, ⟨p, hp, rfl⟩, _, ⟨e, he, rfl⟩, rfl⟩

/-- What is known about a step: it walks into a member of a record, or its property is a navigation of
the owner's entity, which is in place or still to be joined. -/
theorem inspect_cases {env : Env} {owner : ObjectOf Shape} {step : NavigationStep} {below many : Bool}
    {o : Option Link} (h : inspect env owner step below = .ok (many, o)) :
    (owner.entity = none ∧ o = none ∧ ∃ s, owner.members.lookup step.property = some s ∧
      many = s.isCollection) ∨
    ∃ name entity p, owner.entity = some name ∧ env.catalog.entity? name = some entity ∧
      entity.property? step.property = some p ∧ p.kind.isNavigation = true ∧
      many = (p.kind == .collection) ∧
      ((o = none ∧ Entries.has step.property owner.members = true) ∨
        ∃ link target, o = some link ∧ Entries.has step.property owner.members = false ∧
          (many && below) = false ∧ p.association = some link.association ∧ p.target = some target ∧
          env.catalog.entity? target = some link.target ∧ link.many = many) := by
  unfold inspect at h
  split at h
  · rename_i hname
    split at h
    · cases h
    · cases h
    · rename_i s _ hs
      simp only [Except.ok.injEq, Prod.mk.injEq] at h
      exact .inl ⟨hname, h.2.symm, s, hs, h.1.symm⟩
  · rename_i name hname
    obtain ⟨entity, he, h⟩ := bind_eq_ok.mp h
    rw [Env.entity_eq_ok] at he
    split at h
    · cases h
    · rename_i p hp
      simp only at h
      split at h
      · cases h
      · rename_i hnav
        refine .inr ⟨name, entity, p, hname, he, hp, by simpa using hnav, ?_⟩
        split at h
        · rename_i hhas
          simp only [Except.ok.injEq, Prod.mk.injEq] at h
          exact ⟨h.1.symm, .inl ⟨h.2.symm, hhas⟩⟩
        · rename_i hhas
          split at h
          · cases h
          · rename_i hbelow
            split at h
            · rename_i a t ha ht
              obtain ⟨target, htarget, h⟩ := bind_eq_ok.mp h
              rw [Env.entity_eq_ok] at htarget
              simp only [Except.ok.injEq, Prod.mk.injEq] at h
              obtain ⟨rfl, rfl⟩ := h
              exact ⟨rfl, .inr ⟨_, t, rfl, by simpa using hhas, by simpa using hbelow, ha, ht, htarget, rfl⟩⟩
            · cases h

theorem inspect_eq_link {env : Env} {owner : ObjectOf Shape} {step : NavigationStep} {below many : Bool}
    {link : Link} (h : inspect env owner step below = .ok (many, some link)) :
    ∃ name entity p target, owner.entity = some name ∧ env.catalog.entity? name = some entity ∧
      entity.property? step.property = some p ∧ p.kind.isNavigation = true ∧
      many = (p.kind == .collection) ∧ Entries.has step.property owner.members = false ∧
      (many && below) = false ∧ p.association = some link.association ∧ p.target = some target ∧
      env.catalog.entity? target = some link.target ∧ link.many = many := by
  rcases inspect_cases h with ⟨-, hnone, -⟩ | ⟨name, entity, p, hname, he, hp, hnav, hmany, hlink⟩
  · cases hnone
  rcases hlink with ⟨hnone, -⟩ | ⟨_, target, hsome, hrest⟩
  · cases hnone
  cases hsome
  exact ⟨name, entity, p, target, hname, he, hp, hnav, hmany, hrest⟩

theorem inspect_eq_none {env : Env} {owner : ObjectOf Shape} {step : NavigationStep} {below many : Bool}
    (h : inspect env owner step below = .ok (many, none)) :
    (owner.entity = none ∧ ∃ s, owner.members.lookup step.property = some s ∧
      many = s.isCollection) ∨
    ∃ name entity p, owner.entity = some name ∧ env.catalog.entity? name = some entity ∧
      entity.property? step.property = some p ∧ p.kind.isNavigation = true ∧
      many = (p.kind == .collection) ∧ Entries.has step.property owner.members = true := by
  rcases inspect_cases h with ⟨hname, -, hs⟩ | ⟨name, entity, p, hname, he, hp, hnav, hmany, hlink⟩
  · exact .inl ⟨hname, hs⟩
  rcases hlink with ⟨-, hhas⟩ | ⟨_, _, hsome, -⟩
  · exact .inr ⟨name, entity, p, hname, he, hp, hnav, hmany, hhas⟩
  · cases hsome

/-- The draft after the table of a related entity was joined to it. -/
def linked (d : Draft) (link : Link) (on : Sql.Expr) : Draft :=
  { d with
    aliases := d.aliases.register (d.aliases.fresh link.target.table)
    sources := d.sources.join
      ⟨.left, .table link.target.table (d.aliases.fresh link.target.table), on⟩ }

theorem takeStep_eq_ok {d d' : Draft} {env : Env} {owner owner' : ObjectOf Shape}
    {step : NavigationStep} {below many : Bool} {member : Shape}
    (h : d.takeStep env owner step below = (d', .ok (owner', member, many))) :
    (inspect env owner step below = .ok (many, none) ∧ d' = d ∧ owner' = owner ∧
      owner.members.lookup step.property = some member) ∨
    ∃ link ownerKey relatedKey condition filter,
      inspect env owner step below = .ok (many, some link) ∧
      owner.members.lookup link.association.thisKey = some (.scalar ownerKey) ∧
      (ObjectOf.ofEntity link.target (d.aliases.fresh link.target.table)).members.lookup
        link.association.otherKey = some (.scalar relatedKey) ∧
      Draft.stepPredicate
        { d with aliases := d.aliases.register (d.aliases.fresh link.target.table) } env
        (.object (.ofEntity link.target (d.aliases.fresh link.target.table))) step.condition =
          .ok condition ∧
      Draft.stepPredicate
        { d with aliases := d.aliases.register (d.aliases.fresh link.target.table) } env
        (.object (.ofEntity link.target (d.aliases.fresh link.target.table))) step.filter =
          .ok filter ∧
      d' = d.linked link (linkCondition ownerKey relatedKey condition filter) ∧
      member = relatedShape link.many
        (.ofEntity link.target (d.aliases.fresh link.target.table)) condition filter ∧
      owner' = owner.withMember step.property member := by
  unfold takeStep at h
  split at h
  · simp at h
  · rename_i many' hi
    split at h
    · rename_i m hm
      simp only [Prod.mk.injEq, Except.ok.injEq] at h
      obtain ⟨rfl, rfl, rfl, rfl⟩ := h
      exact .inl ⟨hi, rfl, rfl, hm⟩
    · simp at h
  · rename_i many' link hi
    simp only [Aliases.reserve] at h
    split at h
    · simp at h
    · rename_i d'' m ha
      simp only [Prod.mk.injEq, Except.ok.injEq] at h
      obtain ⟨rfl, rfl, rfl, rfl⟩ := h
      simp only [attach, bind_eq_ok, pure_eq_ok, Shape.keyOf_eq_ok, Prod.mk.injEq] at ha
      obtain ⟨ownerKey, hok, relatedKey, hrk, condition, hc, filter, hf, rfl, rfl⟩ := ha
      exact .inr ⟨link, ownerKey, relatedKey, condition, filter, hi, hok, hrk, hc, hf, rfl, rfl, rfl⟩

theorem walk_cons_eq_none {env : Env} {step : NavigationStep} {steps : List NavigationStep}
    {below : Bool} {shape shape' : Shape} {d d' : Draft}
    (h : walk env (step :: steps) below shape d = (shape', d', none)) :
    ∃ owner d₁ owner' member many member', shape.owner? = some owner ∧
      d.takeStep env owner step below = (d₁, .ok (owner', member, many)) ∧
      walk env steps (below || many) member d₁ = (member', d', none) ∧
      shape' = shape.withOwner (owner'.withMember step.property member') := by
  unfold walk at h
  split at h
  · simp at h
  · rename_i owner ho
    split at h
    · simp at h
    · rename_i d₁ owner' member many ht
      rcases hw : walk env steps (below || many) member d₁ with ⟨member', d₂, failure⟩
      simp only [hw, Prod.mk.injEq] at h
      obtain ⟨rfl, rfl, rfl⟩ := h
      exact ⟨owner, d₁, owner', member, many, member', ho, ht, hw, rfl⟩

end Draft

theorem Query.load_eq_ok {d d' : Draft} {env : Env} {chain : NavigationChain} :
    Query.load d env chain = .ok d' ↔ chain.length ≤ env.settings.navigationDepth ∧
      ∃ result d₁, Draft.walk env chain.steps false d.result d = (result, d₁, none) ∧
        d' = { d₁ with result } := by
  unfold Query.load Draft.load
  by_cases hlen : env.settings.navigationDepth < chain.length
  · simp only [hlen, if_true, reduceCtorEq, false_iff, not_and]
    intro h
    omega
  · rw [if_neg hlen]
    rcases Draft.walk env chain.steps false d.result d with ⟨result, d₁, failure⟩
    cases failure with
    | none =>
      simp only [Except.ok.injEq]
      constructor
      · rintro rfl
        exact ⟨by omega, result, d₁, rfl, rfl⟩
      · rintro ⟨_, _, _, heq, rfl⟩
        cases heq
        rfl
    | some e => simp

/-! ## Queries -/

namespace Query

theorem root_eq_ok {env : Env} {entity : String} {q : Query} :
    root env entity = .ok q ↔ ∃ e, env.catalog.entity? entity = some e ∧
      q = { draft := {
        aliases := ({} : Aliases).register (({} : Aliases).fresh e.table)
        sources := ⟨.table e.table (({} : Aliases).fresh e.table), []⟩
        result := .object (.ofEntity e (({} : Aliases).fresh e.table)) } } := by
  simp only [root, Draft.root, bind_eq_ok, pure_eq_ok, Env.entity_eq_ok, eq_comm (a := q)]
  constructor
  · rintro ⟨_, ⟨e, he, rfl⟩, h⟩
    exact ⟨e, he, h⟩
  · rintro ⟨e, he, h⟩
    exact ⟨_, ⟨e, he, rfl⟩, h⟩

/-- The alias that a query is promoted under. -/
def promotedLabel (q : Query) (env : Env) : String := q.draft.aliases.fresh env.settings.tableStem

/-- The draft that promotion gives. -/
def promoted (q : Query) (env : Env) : Draft where
  bindings := q.draft.bindings
  aliases := (q.draft.aliases.enclose env.settings.tableStem).2
  sources := ⟨.derived (q.wrap env (q.promotedLabel env)).statement (q.promotedLabel env), []⟩
  orderings := (q.wrap env (q.promotedLabel env)).orderings
  inherited := true
  result := (q.wrap env (q.promotedLabel env)).result

theorem promote_eq_ok {q : Query} {env : Env} {d : Draft} :
    q.promote env = .ok d ↔ q.draft.result.hasCollection = false ∧ d = q.promoted env := by
  simp only [promote, bind_eq_ok, pure_eq_ok, Draft.ensureNoCollection_eq_ok, exists_const,
    eq_comm (b := d)]
  rfl

/-- The alias that a query is joined under to a draft. -/
def joinedLabel (outer : Draft) (env : Env) : String := outer.aliases.fresh env.settings.tableStem

theorem joinUnder_eq_ok {q : Query} {env : Env} {kind : Sql.JoinKind} {condition : Lambda}
    {bindings : Bindings} {aliases : Aliases} {label : String} {side : JoinSide} :
    q.joinUnder env kind condition bindings aliases label = .ok side ↔
      ∃ p e, condition.params.getLast? = some p ∧
        Scope.expression ⟨bindings.bind p (q.wrap env label).result, aliases,
          env.settings.expressionDepth⟩ condition = .ok e ∧
        side = ⟨(q.wrap env label).result,
          ⟨kind, .derived (q.wrap env label).statement label, e.asPredicate⟩⟩ := by
  simp only [joinUnder, bind_eq_ok, pure_eq_ok, Lambda.lastParam_eq_ok, Scope.predicate_eq_ok]
  constructor
  · rintro ⟨p, hp, _, ⟨e, he, rfl⟩, rfl⟩
    exact ⟨p, e, hp, he, rfl⟩
  · rintro ⟨p, e, hp, he, rfl⟩
    exact ⟨p, hp, _, ⟨e, he, rfl⟩, rfl⟩

theorem joinSide_eq_ok {q : Query} {env : Env} {kind : Sql.JoinKind} {condition : Lambda}
    {bindings : Bindings} {aliases aliases' : Aliases} {side : JoinSide} :
    q.joinSide env kind condition bindings aliases = (aliases', .ok side) ↔
      q.draft.result.hasCollection = false ∧
      aliases' = aliases.register (aliases.fresh env.settings.tableStem) ∧
      q.joinUnder env kind condition bindings aliases' (aliases.fresh env.settings.tableStem) =
        .ok side := by
  unfold joinSide
  cases hc : q.draft.ensureNoCollection "Join" with
  | error e =>
    have hc' : q.draft.result.hasCollection ≠ false := by
      intro h
      rw [Draft.ensureNoCollection_eq_ok (u := ()).mpr h] at hc
      cases hc
    simp [hc']
  | ok u =>
    rw [Draft.ensureNoCollection_eq_ok] at hc
    simp only [Aliases.reserve, Prod.mk.injEq, hc, true_and]
    constructor
    · rintro ⟨rfl, h⟩
      exact ⟨rfl, h⟩
    · rintro ⟨rfl, h⟩
      exact ⟨rfl, h⟩

theorem two_params {f : Lambda} {p p' : Param} (h : f.params.length = 2) (hp : f.params.head? = some p)
    (hp' : f.params.getLast? = some p') : f.params = [p, p'] := by
  match hf : f.params, h with
  | [a, b], _ =>
    rw [hf, List.head?_cons, Option.some.injEq] at hp
    rw [hf, List.getLast?_cons_cons, List.getLast?_singleton, Option.some.injEq] at hp'
    rw [hp, hp']

/-- The draft of a join before its selector is applied. -/
def joinedDraft (outer : Draft) (env : Env) (kind : Sql.JoinKind) (inner : Query) (on : Sql.Expr) :
    Draft :=
  { outer with
    aliases := outer.aliases.register (joinedLabel outer env)
    sources := outer.sources.join
      ⟨kind, .derived (inner.wrap env (joinedLabel outer env)).statement (joinedLabel outer env), on⟩ }

theorem join_eq_ok {q q' : Query} {env : Env} {kind : Sql.JoinKind} {inner : Query}
    {condition selector : Lambda} :
    q.join env kind inner condition selector = .ok q' ↔
      q.draft.result.hasCollection = false ∧ inner.draft.result.hasCollection = false ∧
      ∃ p p' r r' e result, condition.params = [p, p'] ∧ selector.params = [r, r'] ∧
        Scope.expression ⟨((q.promoted env).bindings.bind p (q.promoted env).result).bind p'
            (inner.wrap env (joinedLabel (q.promoted env) env)).result,
          (q.promoted env).aliases.register (joinedLabel (q.promoted env) env),
          env.settings.expressionDepth⟩ condition = .ok e ∧
        Scope.selection ⟨((q.promoted env).bindings.bind r (q.promoted env).result).bind r'
            (inner.wrap env (joinedLabel (q.promoted env) env)).result,
          (q.promoted env).aliases.register (joinedLabel (q.promoted env) env),
          env.settings.expressionDepth⟩ selector = .ok result ∧
        q' = { draft :=
          { joinedDraft (q.promoted env) env kind inner e.asPredicate with result } } := by
  simp only [join, bind_eq_ok, pure_eq_ok, Lambda.expectArity_eq_ok, Lambda.firstParam_eq_ok,
    Lambda.lastParam_eq_ok, exists_const, promote_eq_ok]
  constructor
  · rintro ⟨hc2, hs2, outer, ⟨hc, rfl⟩, p, hp, side, hside, r, hr, r', hr', result, hresult, rfl⟩
    rcases hj : inner.joinSide env kind condition
      ((q.promoted env).bindings.bind p (q.promoted env).result) (q.promoted env).aliases
      with ⟨aliases', outcome⟩
    simp only [hj] at hside hresult ⊢
    subst hside
    obtain ⟨hi, rfl, hu⟩ := joinSide_eq_ok.mp hj
    obtain ⟨p', e, hp', he, rfl⟩ := joinUnder_eq_ok.mp hu
    refine ⟨hc, hi, p, p', r, r', e, result, ?_, ?_, he, hresult, rfl⟩
    · exact two_params hc2 hp hp'
    · exact two_params hs2 hr hr'
  · rintro ⟨hc, hi, p, p', r, r', e, result, hcp, hsp, he, hresult, rfl⟩
    refine ⟨by rw [hcp]; rfl, by rw [hsp]; rfl, q.promoted env, ⟨hc, rfl⟩, p, by rw [hcp]; rfl, ?_⟩
    have hu := (@joinUnder_eq_ok inner env kind condition _ _ _ _).mpr
      ⟨p', e, by rw [hcp]; rfl, he, rfl⟩
    rw [joinSide_eq_ok.mpr ⟨hi, rfl, hu⟩]
    exact ⟨_, rfl, r, by rw [hsp]; rfl, r', by rw [hsp]; rfl, result, hresult, rfl⟩

end Query

/-! ## Operators -/

def Operator.isJoin : Operator → Bool
  | .join .. => true
  | _ => false

namespace Query

/-- What an operator other than a join makes of a draft at the general stage. -/
inductive Extends (env : Env) (d : Draft) : Operator → Query → Prop where
  | filter {f : Lambda} {d' : Draft} : d.filter env f = .ok d' → Extends env d (.filter f) { draft := d' }
  | orderBy {f : Lambda} {dir : Sql.Direction} {pl : Placement} {d' : Draft} :
    d.orderBy env f dir pl = .ok d' → Extends env d (.orderBy f dir pl) { draft := d' }
  | select {f : Lambda} {d' : Draft} : d.select env f = .ok d' → Extends env d (.select f) { draft := d' }
  | skip {n : Nat} : d.result.hasCollection = false →
    Extends env d (.skip n) { draft := d, stage := .skip n }
  | take {n : Nat} : d.result.hasCollection = false →
    Extends env d (.take n) { draft := d, stage := .take n }
  | distinct : d.result.hasCollection = false →
    Extends env d .distinct { draft := d, stage := .distinct }
  | aggregate {function : Sql.AggregateFunction} {args : List Lambda} {distinct : Bool} {d' : Draft} :
    d.aggregate env function args distinct = .ok d' →
    Extends env d (.aggregate function args distinct) { draft := d', stage := .aggregate }
  | groupBy {g : Grouping} {d' : Draft} : d.group env g = .ok d' →
    Extends env d (.groupBy g) { draft := d', stage := .grouping }
  | load {chain : NavigationChain} {d' : Draft} : Query.load d env chain = .ok d' →
    Extends env d (.load chain) { draft := d' }

theorem extends_of_acceptGeneral {env : Env} {d : Draft} {op : Operator} {q : Query}
    (hop : op.isJoin = false) (h : acceptGeneral d env op = .ok q) : Extends env d op q := by
  cases op with
  | join => cases hop
  | skip n | take n | distinct =>
    simp only [acceptGeneral, bind_eq_ok, pure_eq_ok, Draft.ensureNoCollection_eq_ok,
      exists_const] at h
    obtain ⟨hc, rfl⟩ := h
    constructor
    exact hc
  | _ =>
    simp only [acceptGeneral, bind_eq_ok, pure_eq_ok] at h
    obtain ⟨d', hd, rfl⟩ := h
    constructor
    exact hd

end Query

/-- Operators that change nothing but the stage. -/
inductive Stage.Moves : Stage → Operator → Stage → Prop where
  | skipSkip (n m : Nat) : Moves (.skip n) (.skip m) (.skip (min (n + m) maxCount))
  | skipTake (n m : Nat) : Moves (.skip n) (.take m) (.limit n m)
  | takeTake (n m : Nat) : Moves (.take n) (.take m) (.take (min n m))
  | limitTake (s n m : Nat) : Moves (.limit s n) (.take m) (.limit s (min n m))
  | distinctDistinct : Moves .distinct .distinct .distinct
  | groupingSkip (n : Nat) : Moves .grouping (.skip n) (.skip n)
  | groupingTake (n : Nat) : Moves .grouping (.take n) (.take n)
  | groupingDistinct : Moves .grouping .distinct .distinct

/-- Whether a selector can be applied without leaving the stage. -/
def Stage.selectsInPlace : Stage → Bool
  | .skip _ | .take _ | .limit _ _ | .grouping => true
  | _ => false

/-! ## Stages -/

namespace Stage

/-- Whether a query at the stage is wrapped as a derived table before the operator is added. -/
def promotes : Stage → Operator → Bool
  | _, .join .. => true
  | .general, _ => false
  | .skip _, .select _ | .skip _, .skip _ | .skip _, .take _ => false
  | .take _, .select _ | .take _, .take _ => false
  | .limit _ _, .select _ | .limit _ _, .take _ => false
  | .distinct, .distinct => false
  | .grouping, .select _ | .grouping, .skip _ | .grouping, .take _ | .grouping, .distinct => false
  | _, _ => true

/-- The stage after an operator. -/
def next : Stage → Operator → Stage
  | .skip n, .skip m => .skip (min (n + m) maxCount)
  | .skip n, .take m => .limit n m
  | .take n, .take m => .take (min n m)
  | .limit s n, .take m => .limit s (min n m)
  | _, .skip n => .skip n
  | _, .take n => .take n
  | _, .distinct => .distinct
  | _, .aggregate .. => .aggregate
  | _, .groupBy _ => .grouping
  | stage, .select _ => if stage.selectsInPlace then stage else .general
  | _, _ => .general

theorem Moves.operator {s s' : Stage} {op : Operator} (h : s.Moves op s') :
    (∃ n, op = .skip n) ∨ (∃ n, op = .take n) ∨ op = .distinct := by
  cases h <;> simp

theorem Moves.leaves {s s' : Stage} {op : Operator} (h : s.Moves op s') :
    s' ≠ .general ∧ s' ≠ .aggregate := by
  cases h <;> simp

theorem Moves.next {s s' : Stage} {op : Operator} (h : s.Moves op s') : s' = s.next op := by
  cases h <;> rfl

theorem Moves.stays {s s' : Stage} {op : Operator} (h : s.Moves op s') : s.promotes op ≠ true := by
  cases h <;> exact Bool.false_ne_true

end Stage

namespace Query

theorem Extends.next {env : Env} {d : Draft} {op : Operator} {q : Query} (h : Extends env d op q) :
    q.stage = Stage.next .general op := by
  cases h <;> rfl

/-- The query that an operator is added to: the query itself, or one that reads from it. -/
def host (q : Query) (env : Env) (op : Operator) : Query :=
  if q.stage.promotes op then { draft := q.promoted env } else q

theorem host_of_promotes {env : Env} {q : Query} {op : Operator} (h : q.stage.promotes op = true) :
    q.host env op = { draft := q.promoted env } := if_pos h

theorem host_of_stays {env : Env} {q : Query} {op : Operator} (h : q.stage.promotes op ≠ true) :
    q.host env op = q := if_neg h

/-- What an operator makes of the query that it is added to. -/
inductive Adds (env : Env) (q : Query) : Operator → Query → Prop where
  | extend {op : Operator} {q' : Query} : q.stage = .general → Extends env q.draft op q' → Adds env q op q'
  | move {op : Operator} {stage : Stage} : q.stage.Moves op stage → Adds env q op { q with stage }
  | select {f : Lambda} {d : Draft} : q.stage.selectsInPlace = true → q.draft.select env f = .ok d →
    Adds env q (.select f) { q with draft := d }
  | join {kind : Sql.JoinKind} {inner : Query} {condition selector : Lambda} {p p' r r' : Param}
      {e : Sql.Expr} {result : Shape} :
    q.stage = .general → inner.draft.result.hasCollection = false →
    condition.params = [p, p'] → selector.params = [r, r'] →
    Scope.expression ⟨(q.draft.bindings.bind p q.draft.result).bind p'
        (inner.wrap env (joinedLabel q.draft env)).result,
      q.draft.aliases.register (joinedLabel q.draft env), env.settings.expressionDepth⟩ condition =
        .ok e →
    Scope.selection ⟨(q.draft.bindings.bind r q.draft.result).bind r'
        (inner.wrap env (joinedLabel q.draft env)).result,
      q.draft.aliases.register (joinedLabel q.draft env), env.settings.expressionDepth⟩ selector =
        .ok result →
    Adds env q (.join kind inner condition selector)
      { draft := { joinedDraft q.draft env kind inner e.asPredicate with result } }

theorem accept_join {env : Env} {q q' : Query} {kind : Sql.JoinKind} {inner : Query}
    {condition selector : Lambda} (h : q.accept env (.join kind inner condition selector) = .ok q') :
    q.join env kind inner condition selector = .ok q' := by
  obtain ⟨draft, stage⟩ := q
  cases stage with
  | aggregate => cases h
  | _ => exact h

/-- What an operator does: the query is wrapped if the stage asks for it, which needs a result
without collections, and the operator is added to what is then there. -/
structure Accepted (env : Env) (q : Query) (op : Operator) (q' : Query) : Prop where
  flat : q.stage.promotes op = true → q.draft.result.hasCollection = false
  adds : Adds env (q.host env op) op q'
  stage : q'.stage = q.stage.next op

section Acceptance

variable {env : Env} {q q' : Query} {op : Operator}

theorem Accepted.of_adds (hp : q.stage.promotes op ≠ true) (h : Adds env q op q')
    (hn : q'.stage = q.stage.next op) : Accepted env q op q' where
  flat := fun hp' => absurd hp' hp
  adds := by rwa [host_of_stays hp]
  stage := hn

theorem accepted_of_promote (hp : q.stage.promotes op = true) (hj : op.isJoin = false)
    (hn : q.stage.next op = Stage.next .general op)
    (h : (do let d ← q.promote env; acceptGeneral d env op) = .ok q') : Accepted env q op q' := by
  obtain ⟨d, hd, hq⟩ := bind_eq_ok.mp h
  obtain ⟨hc, rfl⟩ := promote_eq_ok.mp hd
  have he := extends_of_acceptGeneral hj hq
  refine ⟨fun _ => hc, ?_, he.next.trans hn.symm⟩
  rw [host_of_promotes hp]
  exact .extend rfl he

theorem accepted_of_select {f : Lambda} (hs : q.stage.selectsInPlace = true)
    (h : q.selectInPlace env f = .ok q') : Accepted env q (.select f) q' := by
  simp only [selectInPlace, bind_eq_ok, pure_eq_ok] at h
  obtain ⟨d, hd, rfl⟩ := h
  obtain ⟨draft, stage⟩ := q
  refine .of_adds ?_ (.select hs hd) ?_
  · cases stage <;> first | exact Bool.false_ne_true | cases hs
  · cases stage <;> first | rfl | cases hs

theorem accepted_of_move {stage : Stage} (hm : q.stage.Moves op stage)
    (h : (.ok { q with stage } : Except CompileError Query) = .ok q') : Accepted env q op q' := by
  cases h
  exact .of_adds hm.stays (.move hm) hm.next

theorem accepted_of_join {kind : Sql.JoinKind} {inner : Query} {condition selector : Lambda}
    (h : q.join env kind inner condition selector = .ok q') :
    Accepted env q (.join kind inner condition selector) q' := by
  obtain ⟨hc, hi, p, p', r, r', e, result, hcp, hsp, he, hr, rfl⟩ := join_eq_ok.mp h
  obtain ⟨draft, stage⟩ := q
  refine ⟨fun _ => hc, ?_, by cases stage <;> rfl⟩
  rw [host_of_promotes (by cases stage <;> rfl)]
  exact .join rfl hi hcp hsp he hr

theorem adds_of_accept (h : q.accept env op = .ok q') : Accepted env q op q' := by
  by_cases hj : op.isJoin = true
  · cases op with
    | join => exact accepted_of_join (accept_join h)
    | _ => cases hj
  rw [Bool.not_eq_true] at hj
  -- What is left is the table of `Query.accept`, stage by stage.
  obtain ⟨draft, stage⟩ := q
  cases stage with
  | aggregate => cases h
  | general =>
    have he : Extends env draft op q' := by
      cases op with
      | join => cases hj
      | _ => exact extends_of_acceptGeneral rfl h
    refine .of_adds ?_ (.extend rfl he) he.next
    cases op <;> first | exact Bool.false_ne_true | cases hj
  | skip n =>
    cases op with
    | join => cases hj
    | load => cases h
    | select f => exact accepted_of_select rfl h
    | skip m => exact accepted_of_move (.skipSkip n m) h
    | take m => exact accepted_of_move (.skipTake n m) h
    | _ => exact accepted_of_promote rfl rfl rfl h
  | take n =>
    cases op with
    | join => cases hj
    | load => cases h
    | select f => exact accepted_of_select rfl h
    | take m => exact accepted_of_move (.takeTake n m) h
    | _ => exact accepted_of_promote rfl rfl rfl h
  | limit s n =>
    cases op with
    | join => cases hj
    | load => cases h
    | select f => exact accepted_of_select rfl h
    | take m => exact accepted_of_move (.limitTake s n m) h
    | _ => exact accepted_of_promote rfl rfl rfl h
  | distinct =>
    cases op with
    | join => cases hj
    | load => cases h
    | distinct => exact accepted_of_move .distinctDistinct h
    | _ => exact accepted_of_promote rfl rfl rfl h
  | grouping =>
    cases op with
    | join => cases hj
    | load => cases h
    | select f => exact accepted_of_select rfl h
    | skip m => exact accepted_of_move (.groupingSkip m) h
    | take m => exact accepted_of_move (.groupingTake m) h
    | distinct => exact accepted_of_move .groupingDistinct h
    | _ => exact accepted_of_promote rfl rfl rfl h

end Acceptance

theorem stage_of_accept {env : Env} {q q' : Query} {op : Operator} (h : q.accept env op = .ok q') :
    q.stage ≠ .aggregate := by
  obtain ⟨draft, stage⟩ := q
  rintro rfl
  cases h

end Query

end EntityQuery
