import EntityQuery.Proofs.Invariants
import EntityQuery.Proofs.Wrapping

/-! # Truth values in statements

Conditions are put together in three places: by the logical operations of lambdas, by adding one
condition to another, and by the joins of eager loading. All three take what they find for truth
values, and what they find may have been made by an earlier selection. So the form of every
expression that a lambda can still pick up has to be known, not only that of the conditions. -/

namespace EntityQuery
set_option autoImplicit false

/-! ## Expressions -/

namespace Sql.Expr

def isAnd : Expr → Bool
  | .and _ => true
  | _ => false

def isOr : Expr → Bool
  | .or _ => true
  | _ => false

/-- Whether there are at least two operands, all of them predicates and none of the same kind. -/
def operandsOf (kind : Expr → Bool) (ps : List Expr) : Bool :=
  2 ≤ ps.length && ps.all fun p => p.isPredicate && !kind p

/-- Whether the operands of the expression are such as its operation asks for. Only logical operations
ask for anything. -/
def operandsFit : Expr → Bool
  | .and ps => operandsOf isAnd ps
  | .or ps => operandsOf isOr ps
  | .not e => e.isPredicate
  | _ => true

/-- Whether the operands fit everywhere in the expression. -/
def isLogical (e : Expr) : Bool := e.nodes.all operandsFit

/-- Whether the expression is a predicate in which all operands fit. -/
def isCondition (e : Expr) : Bool := e.isPredicate && e.isLogical

theorem all_nodesAll (es : List Expr) : (nodesAll es).all operandsFit = es.all isLogical := by
  induction es with
  | nil => rfl
  | cons e es ih => rw [nodesAll, List.all_append, ih, List.all_cons, isLogical]

@[simp] theorem isLogical_column (c : Column) : isLogical (.column c) = true := rfl

@[simp] theorem isLogical_literal (v : Literal) : isLogical (.literal v) = true := rfl

@[simp] theorem isLogical_compare (o : Comparator) (l r : Expr) :
    isLogical (.compare o l r) = (l.isLogical && r.isLogical) :=
  List.all_append

@[simp] theorem isLogical_arithmetic (o : Arithmetic) (l r : Expr) :
    isLogical (.arithmetic o l r) = (l.isLogical && r.isLogical) :=
  List.all_append

@[simp] theorem isLogical_and (ps : List Expr) :
    isLogical (.and ps) = (operandsOf isAnd ps && ps.all isLogical) := by
  rw [← all_nodesAll]
  rfl

@[simp] theorem isLogical_or (ps : List Expr) :
    isLogical (.or ps) = (operandsOf isOr ps && ps.all isLogical) := by
  rw [← all_nodesAll]
  rfl

@[simp] theorem isLogical_not (e : Expr) : isLogical (.not e) = (e.isPredicate && e.isLogical) := rfl

@[simp] theorem isLogical_negate (e : Expr) : isLogical (.negate e) = e.isLogical := rfl

@[simp] theorem isLogical_isNull (e : Expr) (n : Bool) : isLogical (.isNull e n) = e.isLogical := rfl

@[simp] theorem isLogical_inList (e : Expr) (is : List Expr) (n : Bool) :
    isLogical (.inList e is n) = (e.isLogical && is.all isLogical) := by
  rw [← all_nodesAll]
  exact List.all_append

@[simp] theorem isLogical_call (f : String) (as : List Expr) :
    isLogical (.call f as) = as.all isLogical :=
  all_nodesAll as

@[simp] theorem isLogical_aggregate (f : AggregateFunction) (as : List Expr) (d : Bool) :
    isLogical (.aggregate f as d) = as.all isLogical :=
  all_nodesAll as

theorem isCondition_asPredicate {e : Expr} (h : e.isLogical = true) : e.asPredicate.isCondition = true := by
  unfold asPredicate isCondition
  split
  · rename_i hp
    rw [hp, h]
    rfl
  · rw [isLogical_compare, h]
    rfl

/-- Expressions that can be operands of a logical operation, together with others. -/
structure Operands (kind : Expr → Bool) (ps : List Expr) : Prop where
  nonempty : 1 ≤ ps.length
  predicate : ∀ p ∈ ps, p.isPredicate = true
  other : ∀ p ∈ ps, kind p = false
  logical : ∀ p ∈ ps, p.isLogical = true

theorem Operands.single {kind : Expr → Bool} {e : Expr} (h : e.isCondition = true)
    (hkind : kind e = false) : Operands kind [e] := by
  rw [isCondition, Bool.and_eq_true] at h
  refine ⟨le_refl 1, ?_, ?_, ?_⟩ <;> intro p hp <;> rw [List.mem_singleton.mp hp]
  · exact h.1
  · exact hkind
  · exact h.2

theorem operands_iff {kind : Expr → Bool} {ps : List Expr} :
    (operandsOf kind ps && ps.all isLogical) = true ↔ Operands kind ps ∧ 2 ≤ ps.length := by
  simp only [operandsOf, Bool.and_eq_true, decide_eq_true_eq, List.all_eq_true, Bool.not_eq_true']
  constructor
  · rintro ⟨⟨hlen, hfit⟩, hlogical⟩
    exact ⟨⟨by omega, fun p hp => (hfit p hp).1, fun p hp => (hfit p hp).2, hlogical⟩, hlen⟩
  · rintro ⟨h, hlen⟩
    exact ⟨⟨hlen, fun p hp => ⟨h.predicate p hp, h.other p hp⟩⟩, h.logical⟩

theorem Operands.append {kind : Expr → Bool} {ps qs : List Expr} (hp : Operands kind ps)
    (hq : Operands kind qs) : Operands kind (ps ++ qs) ∧ 2 ≤ (ps ++ qs).length := by
  have hlen : 2 ≤ (ps ++ qs).length := by
    rw [List.length_append]
    have := hp.nonempty
    have := hq.nonempty
    omega
  refine ⟨⟨by omega, ?_, ?_, ?_⟩, hlen⟩
  · exact List.forall_mem_append.mpr ⟨hp.predicate, hq.predicate⟩
  · exact List.forall_mem_append.mpr ⟨hp.other, hq.other⟩
  · exact List.forall_mem_append.mpr ⟨hp.logical, hq.logical⟩

theorem isLogical_of_isCondition {e : Expr} (h : e.isCondition = true) : e.isLogical = true := by
  rw [isCondition, Bool.and_eq_true] at h
  exact h.2

theorem conjuncts_operands {e : Expr} (h : e.isCondition = true) : Operands isAnd e.conjuncts := by
  cases e with
  | and ps =>
    have hl := isLogical_of_isCondition h
    rw [isLogical_and] at hl
    exact (operands_iff.mp hl).1
  | _ => exact .single h rfl

theorem disjuncts_operands {e : Expr} (h : e.isCondition = true) : Operands isOr e.disjuncts := by
  cases e with
  | or ps =>
    have hl := isLogical_of_isCondition h
    rw [isLogical_or] at hl
    exact (operands_iff.mp hl).1
  | _ => exact .single h rfl

theorem isCondition_and {l r : Expr} (hl : l.isCondition = true) (hr : r.isCondition = true) :
    isCondition (.and (l.conjuncts ++ r.conjuncts)) = true := by
  have h := operands_iff.mpr ((conjuncts_operands hl).append (conjuncts_operands hr))
  rw [isCondition, isLogical_and, h]
  rfl

theorem isCondition_or {l r : Expr} (hl : l.isCondition = true) (hr : r.isCondition = true) :
    isCondition (.or (l.disjuncts ++ r.disjuncts)) = true := by
  have h := operands_iff.mpr ((disjuncts_operands hl).append (disjuncts_operands hr))
  rw [isCondition, isLogical_or, h]
  rfl

end Sql.Expr

theorem Sql.Closed.logical : Sql.Closed True fun e => e.isLogical = true := by
  constructor
  case literal => intro v; rfl
  case compare => intro op l r hl hr; simp [hl, hr]
  case arithmetic => intro op l r hl hr; simp [hl, hr]
  case conjunction =>
    intro l r hl hr
    exact Expr.isLogical_of_isCondition
      (Expr.isCondition_and (Expr.isCondition_asPredicate hl) (Expr.isCondition_asPredicate hr))
  case disjunction =>
    intro l r hl hr
    exact Expr.isLogical_of_isCondition
      (Expr.isCondition_or (Expr.isCondition_asPredicate hl) (Expr.isCondition_asPredicate hr))
  case negation => intro e he; exact Expr.isCondition_asPredicate he
  case negate => intro e he; exact he
  case isNull => intro e n he; exact he
  case inList => intro e is he his; simpa [he] using his
  case call => intro f as has; simpa using has
  case aggregate => intro _ f as d has; simpa using has

/-! ## Drafts -/

theorem Sql.Kept.logical : Sql.Kept True (fun e => e.isLogical = true) (fun e => e.isCondition = true) where
  closed := .logical
  column _ := rfl
  predicate _ he := Sql.Expr.isCondition_asPredicate he
  keys l r hl hr := by
    rw [Sql.Expr.isCondition, Sql.Expr.isLogical_compare, hl, hr]
    rfl
  andAlso _ _ hl hr := Sql.Expr.isCondition_and hl hr

namespace Draft

/-- The conditions of the draft have `C`, all its other expressions have `Q`. -/
structure Made (Q C : Sql.Expr → Prop) (d : Draft) : Prop where
  result : ∀ e ∈ d.result.scalars, Q e
  condition : ∀ e ∈ d.condition, C e
  groupBy : ∀ e ∈ d.groupBy, Q e
  having : ∀ e ∈ d.having, C e
  orderings : ∀ o ∈ d.orderings, Q o.expr
  joins : ∀ j ∈ d.sources.joins, C j.on

variable {env : Env} {Q C : Sql.Expr → Prop} {d d' : Draft} {f : Lambda}

theorem made_iff : d.Made Q C ↔ d.Clauses Q C ∧ ∀ j ∈ d.sources.joins, C j.on :=
  ⟨fun h => ⟨{ h with }, h.joins⟩, fun h => { h.1 with joins := h.2 }⟩

theorem Made.select (hk : Sql.Kept True Q C) (hb : d.bindings = {}) (h : d.Made Q C)
    (hf : d.select env f = .ok d') : d'.Made Q C := by
  obtain ⟨hclauses, hjoins⟩ := made_iff.mp h
  have hclauses' := hclauses.select hk.closed hb (fun _ => trivial) hf
  obtain ⟨-, p, result, -, -, rfl⟩ := select_eq_ok.mp hf
  exact made_iff.mpr ⟨hclauses', hjoins⟩

theorem Made.load (hk : Sql.Kept True Q C) (hb : d.bindings = {}) (h : d.Made Q C)
    {chain : NavigationChain} (hl : Query.load d env chain = .ok d') : d'.Made Q C := by
  have hrest := (load_joins hl).1
  obtain ⟨-, result, d₁, hw, rfl⟩ := Query.load_eq_ok.mp hl
  obtain ⟨hj, hresult⟩ := kept_walk hk hb (fun _ _ => ⟨fun _ _ _ => trivial, fun _ _ _ => trivial⟩) h.joins
    h.result hw
  rw [hrest]
  exact { h with joins := hj, result := hresult }

end Draft

/-! ## Queries -/

namespace Query

variable {env : Env} {Q C : Sql.Expr → Prop} {q q' : Query} {op : Operator} {d : Draft}

theorem Extends.made (hk : Sql.Kept True Q C) (hb : d.bindings = {}) (hd : d.Made Q C)
    (h : Extends env d op q) : q.draft.Made Q C := by
  rcases h.frame with ⟨chain, -, hl⟩ | ⟨hop, hsources, -, -⟩
  · exact hd.load hk hb hl
  · obtain ⟨hclauses, hjoins⟩ := Draft.made_iff.mp hd
    rw [← hsources] at hjoins
    exact Draft.made_iff.mpr ⟨h.clauses hk.carried hb hclauses hop, hjoins⟩

theorem promoted_made (hk : Sql.Kept True Q C) (q : Query) (env : Env) : (q.promoted env).Made Q C := by
  refine ⟨?_, by simp [promoted], by simp [promoted], by simp [promoted], ?_, by simp [promoted]⟩
  · intro e he
    obtain ⟨name, rfl⟩ := scalars_wrap env _ e he
    exact hk.column _
  · intro o ho
    obtain ⟨o', -, hR⟩ := exists_of_mem_right (q.wrap_orderings_expose env _).flip o ho
    obtain ⟨c, -, hc, -⟩ := hR.2
    rw [hc]
    exact hk.column _

theorem Adds.made (hk : Sql.Kept True Q C) (hb : q.draft.bindings = {}) (hd : q.draft.Made Q C)
    (h : Adds env q op q') : q'.draft.Made Q C := by
  cases h with
  | extend _ he => exact he.made hk hb hd
  | move _ => exact hd
  | select _ hf => exact hd.select hk hb hf
  | @join kind inner condition selector p p' r r' e result _ _ _ _ he hresult =>
    have hinner : ∀ x ∈ (inner.wrap env (joinedLabel q.draft env)).result.scalars, Q x := by
      intro x hx
      obtain ⟨name, rfl⟩ := scalars_wrap env _ x hx
      exact hk.column _
    have hon : C e.asPredicate := by
      refine hk.predicate e (Scope.expression_closed hk.closed ?_ (fun _ => trivial) he)
      exact (Draft.bound_all hb hd.result p).bind hinner p'
    refine { hd with result := ?_, joins := ?_ }
    · refine Scope.selection_closed hk.closed ?_ (fun _ => trivial) hresult
      exact (Draft.bound_all hb hd.result r).bind hinner r'
    · exact List.forall_mem_append.mpr ⟨hd.joins, List.forall_mem_singleton.mpr hon⟩

theorem Reachable.made (hk : Sql.Kept True Q C) (h : Reachable env q) : q.draft.Made Q C := by
  induction h with
  | root hr =>
    obtain ⟨e, -, rfl⟩ := root_eq_ok.mp hr
    refine ⟨?_, by simp, by simp, by simp, by simp, by simp⟩
    intro x hx
    obtain ⟨p, -, rfl⟩ := Shape.scalars_ofEntity hx
    exact hk.column _
  | @accept q q' op hq _ ha ih _ =>
    obtain ⟨-, hadds, -⟩ := adds_of_accept ha
    have hbindings := hq.tidy
    by_cases hp : q.stage.promotes op = true
    · rw [host_of_promotes hp] at hadds
      exact hadds.made hk (hbindings.promoted env).bindings (q.promoted_made hk env)
    · rw [host_of_stays hp] at hadds
      exact hadds.made hk hbindings.bindings ih

end Query

/-! ## Statements -/

namespace Sql

/-- Conditions are predicates, and all logical operations have operands that fit. -/
structure Statement.Logical (st : Statement) : Prop where
  condition : ∀ e ∈ st.condition, e.isPredicate = true
  having : ∀ e ∈ st.having, e.isPredicate = true
  joins : ∀ j ∈ st.sources.joins, j.on.isPredicate = true
  operands : ∀ e ∈ st.expressions ++ st.sources.joins.map (·.on), ∀ n ∈ e.nodes,
    n.operandsFit = true

end Sql

theorem Query.Gives.logical {q : Query} {st : Sql.Statement} (hst : q.Gives st)
    (h : q.draft.Made (fun e => e.isLogical = true) (fun e => e.isCondition = true)) : st.Logical := by
  have hpredicate : ∀ e : Sql.Expr, e.isCondition = true → e.isPredicate = true := by
    intro e he
    rw [Sql.Expr.isCondition, Bool.and_eq_true] at he
    exact he.1
  have hexpressions : ∀ e ∈ st.expressions, e.isLogical = true :=
    hst.expressions (Draft.made_iff.mp h).1 fun _ he => Sql.Expr.isLogical_of_isCondition he
  have hjoins : ∀ e ∈ st.sources.joins.map (·.on), e.isLogical = true := by
    intro e he
    obtain ⟨j, hj, rfl⟩ := List.mem_map.mp he
    rw [hst.sources] at hj
    exact Sql.Expr.isLogical_of_isCondition (h.joins j hj)
  constructor
  case condition =>
    rw [hst.condition]
    exact fun e he => hpredicate e (h.condition e he)
  case having =>
    rw [hst.having]
    exact fun e he => hpredicate e (h.having e he)
  case joins =>
    rw [hst.sources]
    exact fun j hj => hpredicate j.on (h.joins j hj)
  case operands =>
    intro e he
    exact List.all_eq_true.mp ((List.forall_mem_append.mpr ⟨hexpressions, hjoins⟩) e he)

/-- **Truth values are where they are asked for.** In a compiled statement and in every statement
nested in it, all conditions are predicates. Wherever an expression has a logical operation, the
operands are predicates, and conjunctions and disjunctions have at least two of them, none of which
is of the same kind. -/
theorem compile_logical {env : Env} {entity : String} {ops : List Operator} {m : Mapping}
    (hops : ∀ op ∈ ops, op.Built env) (h : compile env entity ops = .ok m) :
    ∀ st ∈ m.statement.nested, st.Logical := by
  intro st hst
  obtain ⟨q, hq, hgives⟩ := compile_nested_reachable hops h st hst
  exact hgives.logical (hq.made .logical)

namespace Sample

/-- Users with their city if it is one of two, told whether they are adults of a known city. Those who
are, but for the first, are asked for in three ways: as a part of a conjunction, in a disjunction that
reads the answer as a column, and by a number. -/
def knownAdults : List Operator :=
  [.load ⟨[{
      property := "city"
      condition := some ⟨[y], .binary .or
        (.binary (.compare .eq) (.member (.param y) "name") (.const (.string "Porto")))
        (.binary .or (.binary (.compare .eq) (.member (.param y) "name") (.const (.string "Faro")))
          (.const (.bool false)))⟩
      filter := some ⟨[y], .not (.member (.param y) "id")⟩ }]⟩,
    .select ⟨[x], .record [("id", .member (.param x) "id"),
      ("known", .binary .and
        (.binary (.compare .ge) (.member (.param x) "age") (.const (.int 18)))
        (.binary (.compare .ne) (.member (.member (.param x) "city") "id") (.const .null)))]⟩,
    .filter ⟨[x], .binary .and (.member (.param x) "known") (.member (.param x) "id")⟩,
    .filter ⟨[x], .member (.param x) "known"⟩,
    .skip 1,
    .filter ⟨[x], .binary .or (.member (.param x) "known") (.not (.member (.param x) "known"))⟩,
    .filter ⟨[x], .member (.param x) "id"⟩]

/-- The conditions that come of it, by statement. -/
def knownAdultsConditions : List (List String) :=
  [["(((T.known = TRUE) OR NOT (T.known = TRUE)) AND (T.id = TRUE))"],
    ["((users.age >= 18) AND cities.id IS NOT NULL AND (users.id = TRUE) AND (users.age >= 18) " ++
        "AND cities.id IS NOT NULL)",
      "((users.city_id = cities.id) AND ((cities.name = 'Porto') OR (cities.name = 'Faro') OR FALSE) " ++
        "AND NOT (cities.id = TRUE))"]]

end Sample

/-- The conditions of a statement and of its joins, as texts. -/
def Sql.Statement.conditionTexts (st : Sql.Statement) : List String :=
  (st.condition.toList ++ st.sources.joins.map (·.on)).map Sql.Expr.text

theorem compile_logical_knownAdults : ∃ m, compile Sample.env "User" Sample.knownAdults = .ok m ∧
    m.statement.nested.map (fun st => st.conditionTexts) = Sample.knownAdultsConditions ∧
    ∀ st ∈ m.statement.nested, st.Logical := by
  have h : (do
      let m ← compile Sample.env "User" Sample.knownAdults
      pure (m.statement.nested.map (fun st => st.conditionTexts)) :
        Except CompileError (List (List String))) = .ok Sample.knownAdultsConditions :=
    ok_of_toOption (by decide +kernel)
  simp only [bind_eq_ok, pure_eq_ok] at h
  obtain ⟨m, hm, htexts⟩ := h
  refine ⟨m, hm, htexts, compile_logical ?_ hm⟩
  simp [Sample.knownAdults, Operator.Built]

end EntityQuery
