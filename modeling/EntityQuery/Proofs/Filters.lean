import EntityQuery.Proofs.Resolution
import EntityQuery.Proofs.Unfolding

/-! # Where filters end up

A run leaves behind a spine of statements, each reading from the one before. The operators of the
run fall into layers, one for each statement of the spine: an operator that wraps the query starts a
new layer, any other goes to the layer at hand. Every statement holds exactly the filters of its
layer, in order and over the columns of tables, and no filter comes after an operator of the same
layer that changes which rows there are. -/

namespace EntityQuery
set_option autoImplicit false

namespace Sql

/-! ## Spines -/

mutual

/-- The statements that a source reads from through first sources, the innermost first. -/
def Source.spine : Source → List Statement
  | .table _ _ => []
  | .derived q _ => q.spine

def Sources.spine : Sources → List Statement
  | ⟨s, _⟩ => s.spine

/-- The statements that a statement reads from through first sources, and the statement itself at
the end. -/
def Statement.spine : Statement → List Statement
  | ⟨f, cs, c, g, h, o, d, s, t⟩ => f.spine ++ [⟨f, cs, c, g, h, o, d, s, t⟩]

end

theorem Statement.spine_eq (st : Statement) : st.spine = st.sources.spine ++ [st] := by
  cases st
  rfl

theorem Sources.Grows.spine {s t : Sources} (h : s.Grows t) : t.spine = s.spine := by
  obtain ⟨x, js⟩ := s
  obtain ⟨y, js'⟩ := t
  obtain rfl : y = x := h.first
  rfl

/-- The conjuncts of a condition. -/
def conjunctsOf (condition : Option Expr) : List Expr := condition.toList.flatMap Expr.conjuncts

theorem conjunctsOf_andAlso (o : Option Expr) (e : Expr) :
    conjunctsOf (some (Expr.andAlso o e)) = conjunctsOf o ++ e.conjuncts := by
  cases o <;> simp [conjunctsOf, Expr.andAlso, Expr.conjuncts]

/-- The conjuncts of what a statement keeps rows by, over the columns of tables. -/
def Statement.filters (st : Statement) : List Expr :=
  (conjunctsOf st.condition).map st.sources.unfold

end Sql

/-! ## Layers -/

namespace Operator

def isFilter : Operator → Bool
  | .filter _ => true
  | _ => false

def isSkip : Operator → Bool
  | .skip _ => true
  | _ => false

def isTake : Operator → Bool
  | .take _ => true
  | _ => false

def isDistinct : Operator → Bool
  | .distinct => true
  | _ => false

def isGroupBy : Operator → Bool
  | .groupBy _ => true
  | _ => false

/-- Whether the operator changes which rows there are, other than by filtering them. -/
def reshapes (op : Operator) : Bool := op.isSkip || op.isTake || op.isDistinct || op.isGroupBy

end Operator

/-- An operator with the conjuncts that it filters by, over the columns of tables. -/
structure Entry where
  operator : Operator
  filters : List Sql.Expr

/-- The operators of a run in layers. -/
structure Ledger where
  -- The statements that have been wrapped, the innermost first.
  closed : List (List Entry) := []
  current : List Entry := []

namespace Ledger

def layers (l : Ledger) : List (List Entry) := l.closed ++ [l.current]

def close (l : Ledger) : Ledger := ⟨l.layers, []⟩

def add (l : Ledger) (x : Entry) : Ledger := { l with current := l.current ++ [x] }

/-- Adds an entry, to a new layer if the query is wrapped for it. -/
def record (l : Ledger) (wraps : Bool) (x : Entry) : Ledger := (if wraps then l.close else l).add x

theorem flatten_add (l : Ledger) (x : Entry) : (l.add x).layers.flatten = l.layers.flatten ++ [x] := by
  simp [layers, add]

theorem flatten_record (l : Ledger) (wraps : Bool) (x : Entry) :
    (l.record wraps x).layers.flatten = l.layers.flatten ++ [x] := by
  rw [record, flatten_add]
  cases wraps <;> simp [close, layers]

end Ledger

/-- The conjuncts that an operator filters by when it is added to the draft, over the columns of
tables. -/
def Draft.filtersOf (d : Draft) (env : Env) : Operator → Except CompileError (List Sql.Expr)
  | .filter f => do
    let e ← d.argument env f
    return e.asPredicate.conjuncts.map d.sources.unfold
  | _ => .ok []

/-- Enters the next operator of a run in the ledger. -/
def Ledger.follow (env : Env) (l : Ledger) (x : Query × Operator) : Except CompileError Ledger := do
  let filters ← (x.1.host env x.2).draft.filtersOf env x.2
  return l.record (x.1.stage.promotes x.2) ⟨x.2, filters⟩

theorem Ledger.operators_follow {env : Env} {l l' : Ledger} {xs : List (Query × Operator)}
    (h : xs.foldlM (Ledger.follow env) l = .ok l') :
    l'.layers.flatten.map (·.operator) = l.layers.flatten.map (·.operator) ++ xs.map (·.2) := by
  induction xs generalizing l with
  | nil =>
    rw [List.foldlM_nil, pure_eq_ok] at h
    simp [h]
  | cons x xs ih =>
    rw [List.foldlM_cons] at h
    obtain ⟨l₁, hl₁, h⟩ := bind_eq_ok.mp h
    obtain ⟨filters, -, hl₁⟩ := bind_eq_ok.mp hl₁
    rw [pure_eq_ok] at hl₁
    rw [ih h, ← hl₁, flatten_record]
    simp

/-- The statement records the operators of the layer: its filters are theirs in order, it has a
window or merges rows exactly if one of them asks for that, it is grouped only if one of them groups,
and no filter comes after an operator that reshapes. -/
structure Sql.Statement.Records (st : Sql.Statement) (layer : List Entry) : Prop where
  filters : st.filters = layer.flatMap (·.filters)
  skip : st.skip.isSome = layer.any (·.operator.isSkip)
  take : st.take.isSome = layer.any (·.operator.isTake)
  distinct : st.distinct = layer.any (·.operator.isDistinct)
  groupBy : st.groupBy ≠ [] → layer.any (·.operator.isGroupBy) = true
  order : layer.Pairwise fun x y => x.operator.reshapes = true → y.operator.isFilter = false

theorem Sql.Statement.filters_of_records {sts : List Statement} {layers : List (List Entry)}
    (h : List.Forall₂ Records sts layers) :
    sts.flatMap filters = layers.flatten.flatMap (·.filters) := by
  induction h with
  | nil => rfl
  | cons hr _ ih => rw [List.flatMap_cons, List.flatten_cons, List.flatMap_append, hr.filters, ih]

/-! ## What an operator adds -/

namespace Stage

def skips : Stage → Bool
  | .skip _ | .limit _ _ => true
  | _ => false

def takes : Stage → Bool
  | .take _ | .limit _ _ => true
  | _ => false

def merges : Stage → Bool
  | .distinct => true
  | _ => false

end Stage

namespace Query

variable {env : Env} {q q' : Query} {op : Operator}

theorem statement_skip (q : Query) : q.statement.skip.isSome = q.stage.skips := by
  obtain ⟨d, stage⟩ := q
  cases stage <;> rfl

theorem statement_take (q : Query) : q.statement.take.isSome = q.stage.takes := by
  obtain ⟨d, stage⟩ := q
  cases stage <;> rfl

theorem statement_distinct (q : Query) : q.statement.distinct = q.stage.merges := by
  obtain ⟨d, stage⟩ := q
  cases stage <;> rfl

/-- The filters of the statement at hand. -/
def filters (q : Query) : List Sql.Expr := (Sql.conjunctsOf q.draft.condition).map q.draft.sources.unfold

theorem statement_filters (q : Query) : q.statement.filters = q.filters := by
  unfold Sql.Statement.filters filters
  rw [statement_condition, statement_sources]

theorem Adds.stage (h : Adds env q op q') :
    q'.stage.skips = (q.stage.skips || op.isSkip) ∧ q'.stage.takes = (q.stage.takes || op.isTake) ∧
      q'.stage.merges = (q.stage.merges || op.isDistinct) := by
  obtain ⟨d, stage⟩ := q
  cases h with
  | extend hs he =>
    obtain rfl : stage = .general := hs
    cases he <;> exact ⟨rfl, rfl, rfl⟩
  | move hm =>
    change Stage.Moves stage op _ at hm
    cases hm <;> exact ⟨rfl, rfl, rfl⟩
  | select _ _ => simp [Operator.isSkip, Operator.isTake, Operator.isDistinct]
  | join hs _ _ _ _ _ =>
    obtain rfl : stage = .general := hs
    exact ⟨rfl, rfl, rfl⟩

theorem Adds.general_of_isFilter (h : Adds env q op q') (hop : op.isFilter = true) :
    q.stage = .general := by
  cases h with
  | extend hs _ => exact hs
  | move hm => rcases hm.operator with ⟨n, rfl⟩ | ⟨n, rfl⟩ | rfl <;> cases hop
  | select _ _ => cases hop
  | join hs _ _ _ _ _ => exact hs

/-- A query that is at the general stage was there before, and was not reshaped. -/
theorem Adds.general (h : Adds env q op q') (hs : q'.stage = .general) :
    q.stage = .general ∧ op.reshapes = false := by
  obtain ⟨d, stage⟩ := q
  cases h with
  | extend hg he =>
    refine ⟨hg, ?_⟩
    cases he <;> first | rfl | cases hs
  | move hm =>
    change Stage.Moves stage op _ at hm
    cases hm <;> cases hs
  | select hp _ =>
    obtain rfl : stage = .general := hs
    cases hp
  | join hg _ _ _ _ _ => exact ⟨hg, rfl⟩

/-- What becomes of the filters, the spine and the grouping when an operator is added. -/
structure Carries (q : Query) (op : Operator) (filters : List Sql.Expr) (q' : Query) : Prop where
  filters : q'.filters = q.filters ++ filters
  spine : q'.draft.sources.spine = q.draft.sources.spine
  groupBy : q'.draft.groupBy ≠ [] → q.draft.groupBy ≠ [] ∨ op.isGroupBy = true

theorem Carries.same (hc : q'.draft.condition = q.draft.condition)
    (hs : q'.draft.sources = q.draft.sources) (hg : q'.draft.groupBy = q.draft.groupBy) :
    q.Carries op [] q' where
  filters := by rw [Query.filters, Query.filters, hc, hs, List.append_nil]
  spine := by rw [hs]
  groupBy := by rw [hg]; exact .inl

theorem Carries.grows (hd : q.draft.Sound env) (hc : q'.draft.condition = q.draft.condition)
    (hs : q.draft.sources.Grows q'.draft.sources) (hg : q'.draft.groupBy = q.draft.groupBy) :
    q.Carries op [] q' where
  filters := by
    rw [Query.filters, Query.filters, hc, List.append_nil]
    refine List.map_congr_left fun e he => hs.unfold fun c hmem => ?_
    obtain ⟨x, hx, hex⟩ := List.mem_flatMap.mp he
    have hx' : x ∈ q.draft.condition := Option.mem_toList.mp hx
    refine (hd.supplied.condition x hx' c ?_).mem_aliases
    rw [← Sql.Expr.flatMap_columns_conjuncts]
    exact List.mem_flatMap.mpr ⟨e, hex, hmem⟩
  spine := hs.spine
  groupBy := by rw [hg]; exact .inl

theorem filtersOf_filter {d d' : Draft} {f : Lambda} (h : d.filter env f = .ok d') :
    ∃ filters, d.filtersOf env (.filter f) = .ok filters ∧
      Carries { draft := d } (.filter f) filters { draft := d' } := by
  obtain ⟨p, e, hp, he, rfl⟩ := Draft.filter_eq_ok.mp h
  refine ⟨_, bind_eq_ok.mpr ⟨e, Draft.argument_eq_ok.mpr ⟨p, hp, he⟩, rfl⟩, ?_, rfl, .inl⟩
  simp only [filters, Draft.addCondition, Sql.conjunctsOf_andAlso, List.map_append]

theorem Extends.carries {d : Draft} (hd : d.Sound env) (he : Extends env d op q') :
    ∃ filters, d.filtersOf env op = .ok filters ∧ Carries { draft := d } op filters q' := by
  cases he with
  | filter hf => exact filtersOf_filter hf
  | orderBy hf =>
    obtain ⟨p, e, -, -, rfl⟩ := Draft.orderBy_eq_ok.mp hf
    exact ⟨[], rfl, by split <;> exact .same rfl rfl rfl⟩
  | select hf =>
    obtain ⟨-, p, result, -, -, rfl⟩ := Draft.select_eq_ok.mp hf
    exact ⟨[], rfl, .same rfl rfl rfl⟩
  | skip _ => exact ⟨[], rfl, .same rfl rfl rfl⟩
  | take _ => exact ⟨[], rfl, .same rfl rfl rfl⟩
  | distinct _ => exact ⟨[], rfl, .same rfl rfl rfl⟩
  | aggregate hf =>
    obtain ⟨-, -, es, -, rfl⟩ := Draft.aggregate_eq_ok.mp hf
    exact ⟨[], rfl, by simp [filters], rfl, by simp⟩
  | groupBy hg =>
    have heq := Draft.group_rest hg
    exact ⟨[], rfl, by rw [heq]; simp [filters], by rw [heq], fun _ => .inr rfl⟩
  | load hl =>
    obtain ⟨heq, hgrows⟩ := Draft.load_joins hl
    exact ⟨[], rfl, .grows hd (by rw [heq]) hgrows (by rw [heq])⟩

theorem Adds.carries (hd : q.draft.Sound env) (h : Adds env q op q') :
    ∃ filters, q.draft.filtersOf env op = .ok filters ∧ q.Carries op filters q' := by
  cases h with
  | extend _ he =>
    obtain ⟨filters, hf, hc⟩ := he.carries hd
    exact ⟨filters, hf, hc.filters, hc.spine, hc.groupBy⟩
  | move hm =>
    refine ⟨[], ?_, .same rfl rfl rfl⟩
    rcases hm.operator with ⟨n, rfl⟩ | ⟨n, rfl⟩ | rfl <;> rfl
  | select _ hf =>
    obtain ⟨-, p, result, -, -, rfl⟩ := Draft.select_eq_ok.mp hf
    exact ⟨[], rfl, .same rfl rfl rfl⟩
  | join _ _ _ _ _ _ => exact ⟨[], rfl, .grows hd rfl (.join _ _) rfl⟩

/-! ## Runs -/

/-- The ledger is that of the query: the statements that it reads from record the closed layers and
its own statement records the layer at hand, which reshapes nothing yet at the general stage. -/
structure Keeps (q : Query) (l : Ledger) : Prop where
  closed : List.Forall₂ Sql.Statement.Records q.draft.sources.spine l.closed
  current : q.statement.Records l.current
  general : q.stage = .general → ∀ x ∈ l.current, x.operator.reshapes = false

variable {l : Ledger}

theorem spine_promoted (q : Query) (env : Env) : (q.promoted env).sources.spine =
    q.draft.sources.spine ++ [(q.wrap env (q.promotedLabel env)).statement] := by
  have hsources : (q.wrap env (q.promotedLabel env)).statement.sources = q.draft.sources := by
    rw [(q.wrap_widens env (q.promotedLabel env)).clauses]
    exact q.statement_sources
  rw [← hsources, ← Sql.Statement.spine_eq]
  rfl

theorem Keeps.promoted (env : Env) (h : q.Keeps l) : Keeps { draft := q.promoted env } l.close where
  closed := by
    rw [spine_promoted]
    refine List.rel_append h.closed (.cons ?_ .nil)
    rw [(q.wrap_widens env (q.promotedLabel env)).clauses]
    exact ⟨h.current.filters, h.current.skip, h.current.take, h.current.distinct,
      h.current.groupBy, h.current.order⟩
  current := ⟨rfl, rfl, rfl, rfl, fun h => absurd rfl h, .nil⟩
  general := by
    intro _ x hx
    cases hx

theorem Keeps.adds (hd : q.draft.Sound env) (h : q.Keeps l) (ha : Adds env q op q') :
    ∃ filters, q.draft.filtersOf env op = .ok filters ∧ q'.Keeps (l.add ⟨op, filters⟩) := by
  obtain ⟨filters, hf, hc⟩ := ha.carries hd
  obtain ⟨hskips, htakes, hmerges⟩ := ha.stage
  have hr := h.current
  refine ⟨filters, hf, by rw [hc.spine]; exact h.closed, ⟨?_, ?_, ?_, ?_, ?_, ?_⟩, ?_⟩
  · rw [statement_filters, hc.filters, ← statement_filters, hr.filters]
    simp [Ledger.add]
  · rw [statement_skip, hskips, ← statement_skip, hr.skip]
    simp [Ledger.add]
  · rw [statement_take, htakes, ← statement_take, hr.take]
    simp [Ledger.add]
  · rw [statement_distinct, hmerges, ← statement_distinct, hr.distinct]
    simp [Ledger.add]
  · intro hg
    rw [statement_groupBy] at hg
    rw [Ledger.add, List.any_append, Bool.or_eq_true]
    refine (hc.groupBy hg).imp (fun hg => hr.groupBy (by rw [statement_groupBy]; exact hg)) ?_
    intro hop
    simp [hop]
  · -- A filter finds the query at the general stage, where nothing has reshaped the rows.
    refine List.pairwise_append.mpr ⟨hr.order, List.pairwise_singleton _ _, ?_⟩
    intro x hx y hy hreshapes
    rw [List.mem_singleton.mp hy]
    cases hop : op.isFilter with
    | false => rfl
    | true =>
      rw [h.general (ha.general_of_isFilter hop) x hx] at hreshapes
      cases hreshapes
  · intro hs x hx
    obtain ⟨hg, hop⟩ := ha.general hs
    rcases List.mem_append.mp hx with hx | hx
    · exact h.general hg x hx
    · rw [List.mem_singleton.mp hx]
      exact hop

theorem Keeps.accept (hq : Reachable env q) (h : q.Keeps l) (ha : q.accept env op = .ok q') :
    ∃ l', l.follow env (q, op) = .ok l' ∧ q'.Keeps l' := by
  obtain ⟨-, hadds, -⟩ := adds_of_accept ha
  have hhost : (q.host env op).Keeps (if q.stage.promotes op then l.close else l) := by
    unfold host
    cases q.stage.promotes op with
    | true => exact h.promoted env
    | false => exact h
  obtain ⟨filters, hf, hkeeps⟩ := hhost.adds (host_sound hq.sound op) hadds
  exact ⟨_, bind_eq_ok.mpr ⟨filters, hf, rfl⟩, hkeeps⟩

theorem root_keeps {entity : String} (h : root env entity = .ok q) : q.Keeps {} := by
  obtain ⟨e, -, rfl⟩ := root_eq_ok.mp h
  exact ⟨.nil, ⟨rfl, rfl, rfl, rfl, fun h => absurd rfl h, .nil⟩, fun _ x hx => by cases hx⟩

end Query

/-- **Filters are conserved.** Along every run the operators fall into layers, in order and one for
each statement of the spine. Over the columns of tables the filters of the spine are those of the
operators, each once and in order; each statement records its own layer, and no filter of a layer
comes after an operator of that layer that reshapes the rows. -/
theorem Query.build_filters {env : Env} {entity : String} {ops : List Operator} {q : Query}
    (hops : ∀ op ∈ ops, op.Built env) (h : Query.build env entity ops = .ok q) :
    ∃ root l, Query.root env entity = .ok root ∧ (root.history env ops).map (·.2) = ops ∧
      (root.history env ops).foldlM (Ledger.follow env) {} = .ok l ∧
      l.layers.flatten.map (·.operator) = ops ∧
      q.statement.spine.flatMap Sql.Statement.filters = l.layers.flatten.flatMap (·.filters) ∧
      List.Forall₂ Sql.Statement.Records q.statement.spine l.layers := by
  obtain ⟨root, hroot, hall⟩ := bind_eq_ok.mp h
  have hhistory := operators_history hall
  obtain ⟨l, hl, hkeeps⟩ := acceptAll_pace (fun q q' l op hq hP ha => Keeps.accept hq hP ha)
    (.root hroot) hops (root_keeps hroot) hall
  have hspine : List.Forall₂ Sql.Statement.Records q.statement.spine l.layers := by
    rw [Sql.Statement.spine_eq, statement_sources]
    exact List.rel_append hkeeps.closed (.cons hkeeps.current .nil)
  refine ⟨root, l, hroot, hhistory, hl, ?_, ?_, hspine⟩
  · rw [Ledger.operators_follow hl, hhistory]
    rfl
  · exact Sql.Statement.filters_of_records hspine

theorem Query.build_filters_adults : ∃ inner q,
    Query.build Sample.env "Order" Sample.paidOrders = .ok inner ∧
    Query.build Sample.env "User" (Sample.adultsWith inner ++
      [.filter ⟨[Sample.x], .member (.member (.param Sample.x) "order") "paid"⟩]) = .ok q ∧
    q.statement.spine.map (·.filters.length) = [1, 0, 1] ∧
    ∃ l : Ledger,
      q.statement.spine.flatMap Sql.Statement.filters = l.layers.flatten.flatMap (·.filters) ∧
      List.Forall₂ Sql.Statement.Records q.statement.spine l.layers := by
  have h : (do
      let inner ← Query.build Sample.env "Order" Sample.paidOrders
      let q ← Query.build Sample.env "User" (Sample.adultsWith inner ++
        [.filter ⟨[Sample.x], .member (.member (.param Sample.x) "order") "paid"⟩])
      pure (q.statement.spine.map (·.filters.length)) : Except CompileError (List Nat)) =
        .ok [1, 0, 1] := ok_of_toOption (by decide +kernel)
  simp only [bind_eq_ok, pure_eq_ok] at h
  obtain ⟨inner, hi, q, hq, hn⟩ := h
  have hinner : Reachable Sample.env inner :=
    reachable_of_build (by simp [Sample.paidOrders, Operator.Built]) hi
  obtain ⟨root, l, -, -, -, -, hfilters, hspine⟩ := build_filters (fun op hop => by
    rcases List.mem_append.mp hop with hop | hop
    · exact Sample.adultsWith_built hinner op hop
    · rw [List.mem_singleton.mp hop]
      intro kind inner condition selector hj
      cases hj) hq
  exact ⟨inner, q, hi, hq, hn, l, hfilters, hspine⟩

end EntityQuery
