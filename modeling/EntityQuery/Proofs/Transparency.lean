import EntityQuery.Proofs.Provenance

/-! # Promotion is invisible to the reader

A query that is read through a derived table is built into the same objects, from the same cells,
as the query itself. Rebinding selects the scalars of the result in the derived table, and finishing
the promoted query selects the columns that stand for them once more. The two passes run in
lockstep: a scalar finds a column in the one exactly where its column finds one in the other, and
since the names in use agree, so do the new ones. -/

namespace EntityQuery
set_option autoImplicit false

namespace Sql

/-- The columns of a derived table, selected once more under the names they have. -/
def passing (table : String) (columns : List Projected) : List Projected :=
  columns.map fun c => ⟨.column ⟨table, c.label⟩, c.label⟩

theorem labels_passing (table : String) (cs : List Projected) :
    (passing table cs).map (·.label) = cs.map (·.label) := by
  rw [passing, List.map_map]
  rfl

theorem passing_passing (table table' : String) (cs : List Projected) :
    passing table (passing table' cs) = passing table cs := by
  rw [passing, passing, List.map_map]
  rfl

theorem findIdx?_passing (table label : String) (cs : List Projected) :
    (passing table cs).findIdx? (·.expr == .column ⟨table, label⟩) =
      cs.findIdx? (·.label == label) := by
  rw [passing, List.findIdx?_map]
  congr 1
  funext c
  have e : ((Expr.column ⟨table, c.label⟩ : Expr) == .column ⟨table, label⟩) =
      ((⟨table, c.label⟩ : Column) == ⟨table, label⟩) := rfl
  change ((Expr.column ⟨table, c.label⟩ : Expr) == .column ⟨table, label⟩) = _
  rw [e, Bool.eq_iff_iff]
  simp

theorem Distinguished.findIdx?_label {cs : List Projected} (h : Distinguished cs) {i : Nat}
    {c : Projected} (hi : cs[i]? = some c) : cs.findIdx? (·.label == c.label) = some i := by
  obtain ⟨hlt, hc⟩ := List.getElem?_eq_some_iff.mp hi
  rw [List.findIdx?_eq_some_iff_getElem]
  refine ⟨hlt, by rw [hc]; exact beq_self_eq_true _, ?_⟩
  intro j hj heq
  have hne := List.pairwise_iff_getElem.mp h.labels j i (by omega) hlt hj
  rw [beq_iff_eq] at heq
  rw [heq, hc] at hne
  exact hne rfl

namespace Statement

/-- The columns of `ot` pass on those of `st`, which is visible under `table`. -/
structure PassedOn (table : String) (st ot : Statement) : Prop where
  columns : ot.columns = passing table st.columns
  distinguished : Distinguished st.columns

/-- Selecting what an expression is outside does there what selecting the expression does inside:
the position is the same, and so is the name if there is a new one. -/
theorem PassedOn.project {table : String} {st ot : Statement} (h : PassedOn table st ot) (e : Expr)
    (hint : Option String) (base : String) :
    (ot.project (st.expose e hint base table).2 hint base).2 = (st.project e hint base).2 ∧
      PassedOn table (st.project e hint base).1
        (ot.project (st.expose e hint base table).2 hint base).1 := by
  have hd := project_distinguished h.distinguished e hint base
  have hfind (label : String) : ot.find? (.column ⟨table, label⟩) =
      st.columns.findIdx? (·.label == label) := by
    rw [find?, h.columns, findIdx?_passing]
  cases hf : st.find? e with
  | some i =>
    obtain ⟨hlt, -, -⟩ := List.findIdx?_eq_some_iff_getElem.mp hf
    have hi := List.getElem?_eq_getElem hlt
    have hp : st.project e hint base = (st, i) := by rw [Statement.project, hf]
    have ho : (st.expose e hint base table).2 = .column ⟨table, (st.columns[i]).label⟩ := by
      simp only [expose, hp, label?, hi]
      rfl
    have hot : ot.find? (.column ⟨table, (st.columns[i]).label⟩) = some i := by
      rw [hfind, h.distinguished.findIdx?_label hi]
    rw [ho, hp, Statement.project, hot]
    exact ⟨rfl, h⟩
  | none =>
    have hp : st.project e hint base =
        ({ st with columns := st.columns ++ [⟨e, st.freshAlias (hint.getD base)⟩] },
          st.columns.length) := by
      rw [Statement.project, hf]
    have ho : (st.expose e hint base table).2 =
        .column ⟨table, st.freshAlias (hint.getD base)⟩ := by
      simp only [expose, hp, label?, List.getElem?_concat_length]
      rfl
    have hot : ot.find? (.column ⟨table, st.freshAlias (hint.getD base)⟩) = none := by
      rw [hfind, List.findIdx?_eq_none_iff]
      intro c hc
      have hne := st.freshAlias_free (hint.getD base) c hc
      exact beq_false_of_ne fun heq => hne (by rw [heq])
    -- Both statements have the same names in use.
    have hname : ot.freshAlias (hint.getD base) = st.freshAlias (hint.getD base) := by
      rw [freshAlias, freshAlias, h.columns, labels_passing]
    rw [hp] at hd
    rw [ho, hp, Statement.project, hot]
    refine ⟨?_, ?_, hd⟩
    · rw [h.columns, passing, List.length_map]
    · change ot.columns ++ _ = _
      rw [hname, h.columns, passing, passing, List.map_append, List.map_singleton]

end Statement

end Sql

/-! ## Shapes -/

namespace Shape

section
variable (base table : String)

mutual

theorem activator_rebind : ∀ (s : Shape) (hint : Option String) (st ot : Sql.Statement),
    Sql.Statement.PassedOn table st ot →
      (activator base (rebind base table s hint st).1 hint ot).1 = (activator base s hint st).1 ∧
      Sql.Statement.PassedOn table (rebind base table s hint st).2
        (activator base (rebind base table s hint st).1 hint ot).2
  | .scalar e, hint, st, ot, h => by
    obtain ⟨hi, hp⟩ := h.project e hint base
    exact ⟨congrArg Activator.cell hi, hp⟩
  | .object ⟨entity, key, ms, _, _⟩, _, st, ot, h => by
    obtain ⟨hms, hp⟩ := memberActivators_rebind ms st ot h
    refine ⟨?_, hp⟩
    simp only [rebind, activator]
    rw [hms]
  | .collection s _ _, _, st, ot, h => by
    obtain ⟨hs, hp⟩ := activator_rebind s none st ot h
    exact ⟨congrArg Activator.collection hs, hp⟩

theorem memberActivators_rebind : ∀ (ms : List (String × Shape)) (st ot : Sql.Statement),
    Sql.Statement.PassedOn table st ot →
      (memberActivators base (rebindMembers base table ms st).1 ot).1 =
        (memberActivators base ms st).1 ∧
      Sql.Statement.PassedOn table (rebindMembers base table ms st).2
        (memberActivators base (rebindMembers base table ms st).1 ot).2
  | [], _, _, h => ⟨rfl, h⟩
  | (n, s) :: ms, st, ot, h => by
    obtain ⟨hs, hp⟩ := activator_rebind s (some n) st ot h
    obtain ⟨hms, hp'⟩ := memberActivators_rebind ms _ _ hp
    refine ⟨?_, hp'⟩
    simp only [rebindMembers, memberActivators]
    rw [hs, hms, activator_snd base table s (some n) st]

end

end

end Shape

/-! ## Queries -/

namespace Query

/-- The query behind so many derived tables. -/
def behind (q : Query) (env : Env) : Nat → Except CompileError Query
  | 0 => .ok q
  | n + 1 => do
    let q' ← q.behind env n
    q'.asSubquery env

theorem asSubquery_of_flat {q : Query} {env : Env} (h : q.draft.result.hasCollection = false) :
    q.asSubquery env = .ok { draft := q.promoted env } :=
  bind_eq_ok.mpr ⟨_, promote_eq_ok.mpr ⟨h, rfl⟩, rfl⟩

variable (q : Query) (env : Env)

theorem ofQuery_promoted :
    (Mapping.ofQuery env { draft := q.promoted env }).activator = (Mapping.ofQuery env q).activator ∧
      (Mapping.ofQuery env { draft := q.promoted env }).statement.columns =
        Sql.passing (q.promotedLabel env) (Mapping.ofQuery env q).statement.columns := by
  have hstart : Sql.Statement.PassedOn (q.promotedLabel env) q.statement
      (statement { draft := q.promoted env }) := by
    refine ⟨?_, ?_⟩
    · rw [statement_columns, statement_columns]
      rfl
    · rw [statement_columns]
      exact .nil
  have hlock := Shape.activator_rebind env.settings.columnStem (q.promotedLabel env)
    q.draft.result none q.statement _ hstart
  refine ⟨hlock.1, ?_⟩
  rw [Mapping.ofQuery_statement env q (q.promotedLabel env)]
  exact hlock.2.columns

theorem exists_behind (h : q.draft.result.hasCollection = false) (n : Nat) :
    ∃ q', q.behind env n = .ok q' ∧ q'.draft.result.hasCollection = false ∧
      (Mapping.ofQuery env q').activator = (Mapping.ofQuery env q).activator ∧
      ∀ table, Sql.passing table (Mapping.ofQuery env q').statement.columns =
        Sql.passing table (Mapping.ofQuery env q).statement.columns := by
  induction n with
  | zero => exact ⟨q, rfl, h, rfl, fun _ => rfl⟩
  | succ n ih =>
    obtain ⟨q', hq', hflat, hactivator, hcolumns⟩ := ih
    obtain ⟨hsame, hpassing⟩ := q'.ofQuery_promoted env
    refine ⟨{ draft := q'.promoted env }, ?_, (q'.hasCollection_wrap env _).trans hflat,
      hsame.trans hactivator, ?_⟩
    · rw [behind, hq']
      exact asSubquery_of_flat hflat
    · intro table
      rw [hpassing, Sql.passing_passing, hcolumns]

/-- **Promotion is invisible to the reader.** A query without collections can be put behind any number
of derived tables. The recipe that builds its results stays what it was, and the columns are those
of the outermost derived table, in the order and under the names that the query itself gives them. -/
theorem behind_invisible (h : q.draft.result.hasCollection = false) (n : Nat) :
    ∃ q' st table, q.behind env (n + 1) = .ok q' ∧
      (Mapping.ofQuery env q').statement.sources = ⟨.derived st table, []⟩ ∧
      (Mapping.ofQuery env q').activator = (Mapping.ofQuery env q).activator ∧
      (Mapping.ofQuery env q').statement.columns =
        Sql.passing table (Mapping.ofQuery env q).statement.columns := by
  obtain ⟨q', hq', hflat, hactivator, hcolumns⟩ := q.exists_behind env h n
  obtain ⟨hsame, hpassing⟩ := q'.ofQuery_promoted env
  refine ⟨{ draft := q'.promoted env }, (q'.wrap env (q'.promotedLabel env)).statement,
    q'.promotedLabel env, ?_, ?_, hsame.trans hactivator, ?_⟩
  · rw [behind, hq']
    exact asSubquery_of_flat hflat
  · exact (gives_ofQuery _ env).sources
  · rw [hpassing, hcolumns]

/-- Users with their city, sorted by a value that is no part of the result: names repeat, and the
derived table has one column more than the reader sees. -/
theorem behind_invisible_users : ∃ q,
    build Sample.env "User"
      [.load ⟨[{ property := "city" }]⟩,
        .orderBy ⟨[Sample.x], .negate (.member (.param Sample.x) "age")⟩ .asc .primary] = .ok q ∧
    q.draft.result.hasCollection = false ∧
    (Mapping.ofQuery Sample.env q).statement.columns.map (·.label) =
      ["id", "name", "age", "city_id", "id1", "name1"] ∧
    ∃ q' st table, q.behind Sample.env 3 = .ok q' ∧
      (Mapping.ofQuery Sample.env q').statement.sources = ⟨.derived st table, []⟩ ∧
      (Mapping.ofQuery Sample.env q').activator = (Mapping.ofQuery Sample.env q).activator ∧
      (Mapping.ofQuery Sample.env q').statement.columns =
        Sql.passing table (Mapping.ofQuery Sample.env q).statement.columns := by
  have h : (do
      let q ← build Sample.env "User"
        [.load ⟨[{ property := "city" }]⟩,
          .orderBy ⟨[Sample.x], .negate (.member (.param Sample.x) "age")⟩ .asc .primary]
      pure (q.draft.result.hasCollection,
        (Mapping.ofQuery Sample.env q).statement.columns.map (·.label)) :
        Except CompileError (Bool × List String)) =
      .ok (false, ["id", "name", "age", "city_id", "id1", "name1"]) :=
    ok_of_toOption (by decide +kernel)
  simp only [bind_eq_ok, pure_eq_ok, Prod.mk.injEq] at h
  obtain ⟨q, hq, hc, hlabels⟩ := h
  exact ⟨q, hq, hc, hlabels, behind_invisible q Sample.env hc 2⟩

end Query

end EntityQuery
