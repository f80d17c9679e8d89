import EntityQuery.Proofs.Correctness
import EntityQuery.Proofs.Filters

/-! # Paging

A skip or a take goes into the window of the statement at hand where the two make one window, and
else on a statement of its own that reads from it. Either way the windows, cut one after the other
from the statement at hand outward, leave the rows that the operators leave one by one. Counts that
are added stop at `maxCount`, which no list of that length can tell. -/

namespace EntityQuery
set_option autoImplicit false

/-- A skip or a take. -/
inductive Cut where
  | skip (count : Nat)
  | take (count : Nat)

namespace Cut

def operator : Cut → Operator
  | .skip n => .skip n
  | .take n => .take n

/-- What is left of the rows. -/
def rows {α : Type} : Cut → List α → List α
  | .skip n, rows => rows.drop n
  | .take n, rows => rows.take n

end Cut

namespace Sql.Statement

variable {α : Type}

/-- The window of the statement, cut out of the rows. -/
def page (st : Statement) (rows : List α) : List α := window st.skip st.take rows

theorem length_page_le (st : Statement) (rows : List α) : (st.page rows).length ≤ rows.length := by
  unfold page window
  split <;> simp only [List.length_take, List.length_drop] <;> omega

/-- The statements differ at most in their columns and in their windows. -/
def Repages (st st' : Statement) : Prop :=
  st' = { st with columns := st'.columns, skip := st'.skip, take := st'.take }

theorem Repages.trans {st st' st'' : Statement} (h : st.Repages st') (h' : st'.Repages st'') :
    st.Repages st'' := by
  unfold Repages
  rw [h', h]

theorem Widens.repages {st st' : Statement} (h : st.Widens st') : st.Repages st' := by
  unfold Repages
  rw [h.clauses]

/-- The second statement reads from the first alone and does nothing to its rows but sort them and
cut out a window. -/
structure Pages (inner outer : Statement) : Prop where
  sources : ∃ label, outer.sources = ⟨.derived inner label, []⟩
  condition : outer.condition = none
  groupBy : outer.groupBy = []
  having : outer.having = none
  distinct : outer.distinct = false

theorem Pages.repages {inner outer outer' : Statement} (h : inner.Pages outer)
    (h' : outer.Repages outer') : inner.Pages outer' := by
  rw [h']
  exact ⟨h.sources, h.condition, h.groupBy, h.having, h.distinct⟩

end Sql.Statement

namespace Query

variable {env : Env} {q : Query} {α : Type}

/-! ## One operator -/

theorem accept_cut (env : Env) (hs : q.stage ≠ .aggregate)
    (hc : q.draft.result.hasCollection = false) (cut : Cut) :
    q.accept env cut.operator =
      .ok ⟨(q.host env cut.operator).draft, q.stage.next cut.operator⟩ := by
  obtain ⟨d, stage⟩ := q
  have hd : d.result.hasCollection = false := hc
  have hpromote : Query.promote ⟨d, stage⟩ env = .ok (Query.promoted ⟨d, stage⟩ env) :=
    promote_eq_ok.mpr ⟨hc, rfl⟩
  have hpromoted : (Query.promoted ⟨d, stage⟩ env).result.hasCollection = false :=
    (hasCollection_wrap ..).trans hc
  have hgeneral : ∀ (d : Draft), d.result.hasCollection = false →
      acceptGeneral d env cut.operator = .ok ⟨d, Stage.next .general cut.operator⟩ := by
    intro d hd
    cases cut <;> exact bind_eq_ok.mpr ⟨(), Draft.ensureNoCollection_eq_ok.mpr hd, rfl⟩
  -- The stages at which the query is wrapped first.
  have hwrapped : (do let d ← Query.promote ⟨d, stage⟩ env; acceptGeneral d env cut.operator) =
      .ok ⟨Query.promoted ⟨d, stage⟩ env, Stage.next .general cut.operator⟩ :=
    bind_eq_ok.mpr ⟨_, hpromote, hgeneral _ hpromoted⟩
  cases stage with
  | aggregate => exact absurd rfl hs
  | general => cases cut <;> exact hgeneral d hd
  | skip n => cases cut <;> rfl
  | take n =>
    cases cut with
    | skip m => exact hwrapped
    | take m => rfl
  | limit s n =>
    cases cut with
    | skip m => exact hwrapped
    | take m => rfl
  | distinct => cases cut <;> exact hwrapped
  | grouping => cases cut <;> rfl

theorem page_next {d : Draft} {stage : Stage} {cut : Cut} (hs : stage ≠ .aggregate)
    (hp : stage.promotes cut.operator = false) {rows : List α} (hr : rows.length ≤ maxCount) :
    (Query.mk d (stage.next cut.operator)).statement.page rows =
      cut.rows ((Query.mk d stage).statement.page rows) := by
  cases stage with
  | aggregate => exact absurd rfl hs
  | general => cases cut <;> rfl
  | skip n =>
    cases cut with
    | skip m => exact drop_min hr n m
    | take m => rfl
  | take n =>
    cases cut with
    | skip m => cases hp
    | take m =>
      change (rows.drop 0).take (min n m) = ((rows.drop 0).take n).take m
      rw [List.take_take, Nat.min_comm]
  | limit s n =>
    cases cut with
    | skip m => cases hp
    | take m =>
      change (rows.drop s).take (min n m) = ((rows.drop s).take n).take m
      rw [List.take_take, Nat.min_comm]
  | distinct => cases cut <;> cases hp
  | grouping => cases cut <;> rfl

theorem page_of_promotes {d : Draft} {stage : Stage} {cut : Cut}
    (hp : stage.promotes cut.operator = true) (rows : List α) :
    (Query.mk d (stage.next cut.operator)).statement.page rows = cut.rows rows := by
  cases stage <;> cases cut <;> first | rfl | cases hp

theorem repages_next {d : Draft} {stage : Stage} {cut : Cut} (hs : stage ≠ .aggregate)
    (hp : stage.promotes cut.operator = false) :
    (Query.mk d stage).statement.Repages (Query.mk d (stage.next cut.operator)).statement := by
  cases stage with
  | aggregate => exact absurd rfl hs
  | distinct => cases cut <;> cases hp
  | _ => cases cut <;> rfl

theorem pages_promoted (stage : Stage) (cut : Cut) :
    (q.wrap env (q.promotedLabel env)).statement.Pages
      (Query.mk (q.promoted env) (stage.next cut.operator)).statement where
  sources := ⟨q.promotedLabel env, statement_sources _⟩
  condition := statement_condition _
  groupBy := statement_groupBy _
  having := statement_having _
  distinct := by cases stage <;> cases cut <;> rfl

/-! ## Runs -/

theorem page_wrap (q : Query) (env : Env) (table : String) (rows : List α) :
    (q.wrap env table).statement.page rows = q.statement.page rows := by
  rw [(q.wrap_widens env table).clauses]
  rfl

/-- **Windows add up.** A query that is not collapsed and has no collections takes every list of
skips and takes. The statements that are there afterwards and were not there before are the
statement at hand, changed in its window alone, and statements that only page the one before. Their
windows, cut out one after the other, leave of any rows what the skips and takes leave of the window
that the query had. -/
theorem acceptAll_cuts (q : Query) (env : Env) (hs : q.stage ≠ .aggregate)
    (hc : q.draft.result.hasCollection = false) (cuts : List Cut) :
    ∃ q' level levels, q.acceptAll env (cuts.map Cut.operator) = .ok q' ∧
      q'.statement.spine = q.draft.sources.spine ++ level :: levels ∧
      q.statement.Repages level ∧ (level :: levels).IsChain Sql.Statement.Pages ∧
      ∀ (α : Type) (rows : List α), rows.length ≤ maxCount →
        (level :: levels).foldl (fun rows st => st.page rows) rows =
          cuts.foldl (fun rows cut => cut.rows rows) (q.statement.page rows) := by
  induction cuts generalizing q with
  | nil =>
    refine ⟨q, q.statement, [], rfl, ?_, by cases q.statement; rfl, .singleton _, fun _ _ _ => rfl⟩
    rw [Sql.Statement.spine_eq, statement_sources]
  | cons cut cuts ih =>
    have haccept := accept_cut env hs hc cut
    have hnext : q.stage.next cut.operator ≠ .aggregate := by
      obtain ⟨d, stage⟩ := q
      cases stage <;> cases cut <;> simp [Stage.next, Cut.operator]
    cases hp : q.stage.promotes cut.operator with
    | false =>
      have hhost : (q.host env cut.operator).draft = q.draft := by rw [host, hp]; rfl
      rw [hhost] at haccept
      obtain ⟨q', level, levels, hall, hspine, hlevel, hchain, hrows⟩ :=
        ih ⟨q.draft, q.stage.next cut.operator⟩ hnext hc
      refine ⟨q', level, levels, acceptAll_cons.mpr ⟨_, haccept, hall⟩, hspine,
        (repages_next hs hp).trans hlevel, hchain, ?_⟩
      intro α rows hr
      rw [hrows α rows hr, page_next hs hp hr, List.foldl_cons]
    | true =>
      have hhost : (q.host env cut.operator).draft = q.promoted env := by rw [host, hp]; rfl
      rw [hhost] at haccept
      obtain ⟨q', level, levels, hall, hspine, hlevel, hchain, hrows⟩ :=
        ih ⟨q.promoted env, q.stage.next cut.operator⟩ hnext ((hasCollection_wrap ..).trans hc)
      refine ⟨q', (q.wrap env (q.promotedLabel env)).statement, level :: levels,
        acceptAll_cons.mpr ⟨_, haccept, hall⟩, ?_, (q.wrap_widens env _).repages,
        .cons_cons ((pages_promoted q.stage cut).repages hlevel) hchain, ?_⟩
      · rw [hspine, spine_promoted, List.append_assoc]
        rfl
      · intro α rows hr
        have hlength : (q.statement.page rows).length ≤ maxCount :=
          (q.statement.length_page_le rows).trans hr
        rw [List.foldl_cons, page_wrap, hrows α _ hlength, page_of_promotes hp, List.foldl_cons]

/-- Ten users after the third, cut down further: the first take goes into the window, the first skip
does not, and the second skip is more than can be counted. -/
theorem acceptAll_cuts_users : ∃ q q' level levels,
    build Sample.env "User" [.orderBy ⟨[Sample.x], .member (.param Sample.x) "name"⟩ .asc .primary,
      .skip 3, .take 10] = .ok q ∧
    q.stage ≠ .aggregate ∧ q.draft.result.hasCollection = false ∧
    q.acceptAll Sample.env [.take 7, .skip maxCount, .skip 1, .take 5, .skip 2] = .ok q' ∧
    q'.statement.spine = q.draft.sources.spine ++ level :: levels ∧
    (level :: levels).map (fun st => (st.skip, st.take)) =
      [(some 3, some 7), (some maxCount, some 5), (some 2, none)] ∧
    ∀ (α : Type) (rows : List α), rows.length ≤ maxCount →
      (level :: levels).foldl (fun rows st => st.page rows) rows =
        (((((q.statement.page rows).take 7).drop maxCount).drop 1).take 5).drop 2 := by
  have h : (do
      let q ← build Sample.env "User"
        [.orderBy ⟨[Sample.x], .member (.param Sample.x) "name"⟩ .asc .primary, .skip 3, .take 10]
      let q' ← q.acceptAll Sample.env [.take 7, .skip maxCount, .skip 1, .take 5, .skip 2]
      pure (q.draft.result.hasCollection || !q.draft.sources.spine.isEmpty,
        q'.statement.spine.map fun st => (st.skip, st.take)) :
        Except CompileError (Bool × List (Option Nat × Option Nat))) =
      .ok (false, [(some 3, some 7), (some maxCount, some 5), (some 2, none)]) :=
    ok_of_toOption (by decide +kernel)
  simp only [bind_eq_ok, pure_eq_ok, Prod.mk.injEq, Bool.or_eq_false_iff, Bool.not_eq_false',
    List.isEmpty_iff] at h
  obtain ⟨q, hq, r, hr, ⟨hc, hbelow⟩, hwindows⟩ := h
  have hs : q.stage ≠ .aggregate := by
    obtain ⟨q₁, hq₁, -⟩ := acceptAll_cons.mp hr
    exact stage_of_accept hq₁
  obtain ⟨q', level, levels, hall, hspine, -, -, hrows⟩ := acceptAll_cuts q Sample.env hs hc
    [.take 7, .skip maxCount, .skip 1, .take 5, .skip 2]
  obtain rfl : q' = r := Except.ok.inj (hall.symm.trans hr)
  refine ⟨q, q', level, levels, hq, hs, hc, hr, hspine, ?_, hrows⟩
  rw [hspine, hbelow] at hwindows
  exact hwindows

end Query

end EntityQuery
