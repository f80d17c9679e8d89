import EntityQuery.Proofs.Filters
import EntityQuery.Proofs.Provenance

/-! # Aliases are unique

The sources that a statement reads from through first sources, down to the table at the root, all
have aliases of their own, whatever the tables are called and whatever made-up aliases start with:
an alias that was given out stays taken when the statement is wrapped and can no longer be
mentioned. A query that is joined brings its own aliases, unique among themselves. -/

namespace EntityQuery
set_option autoImplicit false

namespace Sql

/-- The aliases of all sources along the spine, those of the innermost statement first. -/
def Statement.spineAliases (st : Statement) : List String :=
  st.spine.flatMap fun s => s.sources.aliases

/-- The aliases of the sources and of all that the first of them reads from. -/
def Sources.spineAliases (s : Sources) : List String :=
  s.spine.flatMap (fun st => st.sources.aliases) ++ s.aliases

theorem Statement.spineAliases_eq (st : Statement) : st.spineAliases = st.sources.spineAliases := by
  rw [Statement.spineAliases, Sources.spineAliases, Statement.spine_eq, List.flatMap_append,
    List.flatMap_singleton]

theorem Sources.spineAliases_join (s : Sources) (j : Join) :
    (s.join j).spineAliases = s.spineAliases ++ [j.source.label] := by
  rw [Sources.spineAliases, Sources.spineAliases, (Sources.Grows.join s j).spine,
    Sources.aliases_join, List.append_assoc]

theorem Sources.spineAliases_derived (st : Statement) (table : String) :
    Sources.spineAliases ⟨.derived st table, []⟩ = st.spineAliases ++ [table] := rfl

end Sql

/-! ## Taken aliases -/

/-- The aliases along the spine are distinct, and all of them are taken. -/
structure Aliases.Covers (a : Aliases) (s : Sql.Sources) : Prop where
  nodup : s.spineAliases.Nodup
  taken : ∀ label ∈ s.spineAliases, label ∈ a.taken

theorem Aliases.Covers.extend {a a' : Aliases} {s s' : Sql.Sources} {base : String} (h : a.Covers s)
    (hs : s'.spineAliases = s.spineAliases ++ [a.fresh base])
    (ha : a'.taken = Aliases.insert (a.fresh base) a.taken) : a'.Covers s' := by
  have hfresh : a.fresh base ∉ s.spineAliases := by
    intro hmem
    exact a.fresh_notMem base (h.taken _ hmem)
  refine ⟨?_, ?_⟩
  · rw [hs, List.nodup_append_comm]
    exact List.nodup_cons.mpr ⟨hfresh, h.nodup⟩
  · intro label hlabel
    rw [hs, List.mem_append, List.mem_singleton] at hlabel
    rw [ha, Aliases.mem_insert]
    exact hlabel.imp_left (h.taken label)

namespace Query

variable {env : Env} {q q' : Query} {op : Operator}

theorem root_covers {entity : String} (h : root env entity = .ok q) :
    q.draft.aliases.Covers q.draft.sources := by
  obtain ⟨e, -, rfl⟩ := root_eq_ok.mp h
  refine ⟨List.nodup_singleton _, ?_⟩
  intro label hlabel
  exact hlabel

theorem promoted_covers (h : q.draft.aliases.Covers q.draft.sources) :
    (q.promoted env).aliases.Covers (q.promoted env).sources := by
  refine h.extend ?_ rfl
  change Sql.Sources.spineAliases ⟨.derived _ _, []⟩ = _
  rw [Sql.Sources.spineAliases_derived, Sql.Statement.spineAliases_eq, (q.gives_wrap env _).sources]
  rfl

theorem Extends.covers {d : Draft} (hd : d.aliases.Covers d.sources) (h : Extends env d op q') :
    q'.draft.aliases.Covers q'.draft.sources := by
  rcases h.frame with ⟨chain, -, hl⟩ | ⟨-, hsources, haliases, -⟩
  · refine Draft.load_induction ?_ hd hl
    intro a s table on hs
    exact hs.extend (s.spineAliases_join _) rfl
  · rw [hsources, haliases]
    exact hd

theorem Adds.covers (hq : q.draft.aliases.Covers q.draft.sources) (h : Adds env q op q') :
    q'.draft.aliases.Covers q'.draft.sources := by
  cases h with
  | extend _ he => exact he.covers hq
  | move _ => exact hq
  | select _ hf =>
    have hd := Extends.covers hq (Extends.select hf)
    exact hd
  | join _ _ _ _ _ _ => exact hq.extend (q.draft.sources.spineAliases_join _) rfl

theorem Reachable.covers (h : Reachable env q) : q.draft.aliases.Covers q.draft.sources := by
  induction h with
  | root hr => exact root_covers hr
  | @accept q q' op _ _ ha ih _ =>
    obtain ⟨-, hadds, -⟩ := adds_of_accept ha
    have hhost : (q.host env op).draft.aliases.Covers (q.host env op).draft.sources := by
      unfold host
      split
      · exact promoted_covers ih
      · exact ih
    exact hadds.covers hhost

end Query

/-- **Aliases are unique.** In a compiled statement, and in every statement nested in it, all sources
along the spine have different aliases, and the columns differ in their names, even up to case, and
in what they select. -/
theorem compile_aliases_unique {env : Env} {entity : String} {ops : List Operator} {m : Mapping}
    (hops : ∀ op ∈ ops, op.Built env) (h : compile env entity ops = .ok m) :
    ∀ st ∈ m.statement.nested, st.spineAliases.Nodup ∧ Sql.Distinguished st.columns := by
  intro st hst
  obtain ⟨q, hq, hgives⟩ := compile_nested_reachable hops h st hst
  refine ⟨?_, hgives.distinguished⟩
  rw [Sql.Statement.spineAliases_eq, hgives.sources]
  exact hq.covers.nodup

/-- The sample catalog, with aliases made up from names that are in use. -/
def Sample.clashing : Env :=
  { catalog := Sample.catalog, settings := { tableStem := "users", columnStem := "id" } }

/-- The three largest orders. -/
def Sample.largestOrders : List Operator :=
  [.orderBy ⟨[Sample.x], .negate (.member (.param Sample.x) "amount")⟩ .asc .primary, .take 3]

theorem compile_aliases_unique_clashing : ∃ inner m,
    Query.build Sample.clashing "Order" Sample.largestOrders = .ok inner ∧
    compile Sample.clashing "User" (Sample.adultsWith inner) = .ok m ∧
    m.statement.nested.map (fun st => st.spineAliases) =
      [["users", "cities", "users1", "users2", "users3"], ["users", "cities", "users1"],
        ["users", "cities"], ["orders"]] ∧
    m.statement.nested.map (fun st => st.columns.map (·.label)) =
      [["name", "id", "user_id", "amount", "paid"], ["id", "name", "age", "city_id", "id1", "name1"],
        ["id", "name", "age", "city_id", "id1", "name1"], ["id", "user_id", "amount", "paid", "id1"]] ∧
    ∀ st ∈ m.statement.nested, st.spineAliases.Nodup ∧ Sql.Distinguished st.columns := by
  have h : (do
      let inner ← Query.build Sample.clashing "Order" Sample.largestOrders
      let m ← compile Sample.clashing "User" (Sample.adultsWith inner)
      pure (m.statement.nested.map (fun st => st.spineAliases),
        m.statement.nested.map (fun st => st.columns.map (·.label))) :
        Except CompileError (List (List String) × List (List String))) =
      .ok ([["users", "cities", "users1", "users2", "users3"], ["users", "cities", "users1"],
        ["users", "cities"], ["orders"]],
        [["name", "id", "user_id", "amount", "paid"], ["id", "name", "age", "city_id", "id1", "name1"],
        ["id", "name", "age", "city_id", "id1", "name1"], ["id", "user_id", "amount", "paid", "id1"]]) :=
    ok_of_toOption (by decide +kernel)
  simp only [bind_eq_ok, pure_eq_ok, Prod.mk.injEq] at h
  obtain ⟨inner, hi, m, hm, haliases, hlabels⟩ := h
  refine ⟨inner, m, hi, hm, haliases, hlabels, compile_aliases_unique ?_ hm⟩
  refine Sample.adultsWith_built (Query.reachable_of_build ?_ hi)
  simp [Sample.largestOrders, Operator.Built]

end EntityQuery
