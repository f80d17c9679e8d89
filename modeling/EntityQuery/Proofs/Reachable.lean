import EntityQuery.Proofs.Projection
import EntityQuery.Proofs.Steps

/-! # Reachable queries and nested statements

A query is reachable if operators build it from an entity, and every query that is joined on the way
is reachable too. What holds of all reachable queries holds of everything that compiles. -/

namespace EntityQuery
set_option autoImplicit false

namespace Query

/-- The queries that operators build from entities, inner queries of joins being built likewise. -/
inductive Reachable (env : Env) : Query → Prop where
  | root {entity : String} {q : Query} : Query.root env entity = .ok q → Reachable env q
  | accept {q q' : Query} {op : Operator} : Reachable env q →
    (∀ kind inner condition selector, op = .join kind inner condition selector →
      Reachable env inner) →
    q.accept env op = .ok q' → Reachable env q'

end Query

/-- The inner query, if the operator is a join, was built by operators. -/
def Operator.Built (env : Env) (op : Operator) : Prop :=
  ∀ kind inner condition selector, op = .join kind inner condition selector →
    Query.Reachable env inner

namespace Query

theorem acceptAll_cons {q : Query} {env : Env} {op : Operator} {ops : List Operator} {r : Query} :
    q.acceptAll env (op :: ops) = .ok r ↔
      ∃ q', q.accept env op = .ok q' ∧ q'.acceptAll env ops = .ok r := by
  rw [acceptAll, List.foldlM_cons, bind_eq_ok]
  rfl

theorem reachable_of_acceptAll {env : Env} {q r : Query} {ops : List Operator}
    (hq : Reachable env q) (hops : ∀ op ∈ ops, op.Built env) (h : q.acceptAll env ops = .ok r) :
    Reachable env r := by
  induction ops generalizing q with
  | nil =>
    rw [acceptAll, List.foldlM_nil, pure_eq_ok] at h
    rw [← h]
    exact hq
  | cons op ops ih =>
    obtain ⟨q', hq', h⟩ := acceptAll_cons.mp h
    refine ih ?_ (fun o ho => hops o (List.mem_cons_of_mem op ho)) h
    exact .accept hq (hops op (List.mem_cons_self ..)) hq'

theorem reachable_of_build {env : Env} {entity : String} {q : Query} {ops : List Operator}
    (hops : ∀ op ∈ ops, op.Built env) (h : build env entity ops = .ok q) : Reachable env q := by
  obtain ⟨r, hr, h⟩ := bind_eq_ok.mp h
  exact reachable_of_acceptAll (.root hr) hops h

/-! ## Histories -/

/-- The operators with the query that each of them came upon. -/
def history (env : Env) : Query → List Operator → List (Query × Operator)
  | _, [] => []
  | q, op :: ops =>
    (q, op) :: match q.accept env op with
      | .ok q' => history env q' ops
      | .error _ => []

theorem operators_history {env : Env} {q r : Query} {ops : List Operator}
    (h : q.acceptAll env ops = .ok r) : (q.history env ops).map (·.2) = ops := by
  induction ops generalizing q with
  | nil => rfl
  | cons op ops ih =>
    obtain ⟨q', hq', h⟩ := acceptAll_cons.mp h
    rw [history, hq', List.map_cons, ih h]

/-- A machine that reads the history of a run keeps pace with the run, if it can make every step and
the relation between the two survives it. -/
theorem acceptAll_pace {σ : Type} {env : Env} {next : σ → Query × Operator → Except CompileError σ}
    {P : Query → σ → Prop}
    (hstep : ∀ (q q' : Query) (s : σ) (op : Operator), Reachable env q → P q s →
      q.accept env op = .ok q' → ∃ s', next s (q, op) = .ok s' ∧ P q' s')
    {q r : Query} {s : σ} {ops : List Operator} (hq : Reachable env q)
    (hops : ∀ op ∈ ops, op.Built env) (hs : P q s) (h : q.acceptAll env ops = .ok r) :
    ∃ s', (q.history env ops).foldlM next s = .ok s' ∧ P r s' := by
  induction ops generalizing q s with
  | nil =>
    rw [acceptAll, List.foldlM_nil, pure_eq_ok] at h
    rw [← h]
    exact ⟨s, rfl, hs⟩
  | cons op ops ih =>
    obtain ⟨q', hq', h⟩ := acceptAll_cons.mp h
    obtain ⟨s₁, hs₁, hP⟩ := hstep q q' s op hq hs hq'
    have hreach : Reachable env q' := .accept hq (hops op (List.mem_cons_self ..)) hq'
    obtain ⟨s₂, hs₂, hP₂⟩ := ih hreach (fun o ho => hops o (List.mem_cons_of_mem op ho)) hP h
    refine ⟨s₂, ?_, hP₂⟩
    rw [history, hq', List.foldlM_cons]
    exact bind_eq_ok.mpr ⟨s₁, hs₁, hs₂⟩

end Query

theorem compile_eq_ok {env : Env} {entity : String} {ops : List Operator} {m : Mapping} :
    compile env entity ops = .ok m ↔
      ∃ q, Query.build env entity ops = .ok q ∧ m = Mapping.ofQuery env q := by
  simp only [compile, bind_eq_ok, pure_eq_ok, eq_comm (b := m)]

theorem Mapping.ofQuery_statement (env : Env) (q : Query) (table : String) :
    (Mapping.ofQuery env q).statement =
      (q.draft.result.rebind env.settings.columnStem table none q.statement).2 :=
  Shape.activator_snd _ table q.draft.result none q.statement

/-! ## Nested statements -/

namespace Sql

mutual

def Source.nested : Source → List Statement
  | .table _ _ => []
  | .derived q _ => q.nested

def Join.nestedAll : List Join → List Statement
  | [] => []
  | ⟨_, s, _⟩ :: js => s.nested ++ Join.nestedAll js

def Sources.nested : Sources → List Statement
  | ⟨s, js⟩ => s.nested ++ Join.nestedAll js

/-- The statement and every statement nested in it. -/
def Statement.nested : Statement → List Statement
  | ⟨f, cs, c, g, h, o, d, s, t⟩ => ⟨f, cs, c, g, h, o, d, s, t⟩ :: f.nested

end

theorem Statement.nested_eq (st : Statement) : st.nested = st :: st.sources.nested := by
  cases st
  rfl

theorem Join.nestedAll_eq (js : List Join) : Join.nestedAll js = js.flatMap fun j => j.source.nested := by
  induction js with
  | nil => rfl
  | cons j js ih =>
    obtain ⟨k, s, e⟩ := j
    rw [Join.nestedAll, ih, List.flatMap_cons]

/-- All sources, the first one first. -/
def Sources.all (s : Sources) : List Source := s.first :: s.joins.map (·.source)

theorem Sources.nested_eq (s : Sources) : s.nested = s.all.flatMap Source.nested := by
  obtain ⟨first, joins⟩ := s
  rw [Sources.nested, Join.nestedAll_eq, Sources.all, List.flatMap_cons, List.flatMap_map]

theorem Sources.aliases_eq (s : Sources) : s.aliases = s.all.map Source.label := by
  simp [Sources.aliases, Sources.all, Function.comp_def]

theorem Sources.all_join (s : Sources) (j : Join) : (s.join j).all = s.all ++ [j.source] := by
  simp [Sources.join, Sources.all]

/-- The expressions of a statement's own clauses, those of its sources left out. -/
def Statement.expressions (st : Statement) : List Expr :=
  st.columns.map (·.expr) ++ st.condition.toList ++ st.groupBy ++ st.having.toList ++
    st.orderings.map (·.expr)

end Sql

/-! ## A sample catalog -/

namespace Sample

/-- Users have a city, which may be missing, and orders. -/
def user : Entity where
  name := "User"
  table := "users"
  key := ["id"]
  properties :=
    [("id", .ofColumn "id" "id"), ("name", .ofColumn "name" "name"), ("age", .ofColumn "age" "age"),
      ("city_id", .ofColumn "city_id" "city_id"), ("city", .toOne "city" "City" ⟨"city_id", "id"⟩),
      ("orders", .toMany "orders" "Order" ⟨"id", "user_id"⟩)]

/-- Cities have a name. -/
def city : Entity where
  name := "City"
  table := "cities"
  key := ["id"]
  properties := [("id", .ofColumn "id" "id"), ("name", .ofColumn "name" "name")]

/-- Orders belong to a user. -/
def order : Entity where
  name := "Order"
  table := "orders"
  key := ["id"]
  properties :=
    [("id", .ofColumn "id" "id"), ("user_id", .ofColumn "user_id" "user_id"),
      ("amount", .ofColumn "amount" "amount"), ("paid", .ofColumn "paid" "paid"),
      ("user", .toOne "user" "User" ⟨"user_id", "id"⟩)]

def catalog : Catalog := ⟨[("User", user), ("City", city), ("Order", order)]⟩

def env : Env := { catalog }

def x : Param := ⟨0, "x"⟩

def y : Param := ⟨1, "y"⟩

/-- The three largest paid orders. -/
def paidOrders : List Operator :=
  [.filter ⟨[x], .member (.param x) "paid"⟩,
    .orderBy ⟨[x], .member (.param x) "amount"⟩ .desc .primary,
    .take 3]

/-- Adults by their city's name but for the first two, each with those of the given orders that
are theirs. -/
def adultsWith (orders : Query) : List Operator :=
  [.load ⟨[{ property := "city" }]⟩,
    .filter ⟨[x], .binary (.compare .ge) (.member (.param x) "age") (.const (.int 18))⟩,
    .orderBy ⟨[x], .member (.member (.param x) "city") "name"⟩ .asc .primary,
    .skip 2,
    .distinct,
    .join .left orders
      ⟨[x, y], .binary (.compare .eq) (.member (.param x) "id") (.member (.param y) "user_id")⟩
      ⟨[x, y], .record [("name", .member (.param x) "name"), ("order", .param y)]⟩]

theorem adultsWith_built {env : Env} {orders : Query} (h : Query.Reachable env orders) :
    ∀ op ∈ adultsWith orders, op.Built env := by
  intro op hop kind inner condition selector hj
  subst hj
  simp only [adultsWith, List.mem_cons, List.not_mem_nil, reduceCtorEq, false_or, or_false,
    Operator.join.injEq] at hop
  rw [hop.2.1]
  exact h

end Sample

end EntityQuery
