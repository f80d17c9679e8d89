import EntityQuery.Proofs.Resolution
import EntityQuery.Proofs.Unfolding

/-! # What a query is sorted by

The orderings of a query are rewritten each time it is wrapped, and an ordering that was not asked
for gives way to the next one that is. `Sorting` is a machine that knows nothing of aliases or
derived tables: it keeps the keys in terms of the columns of tables, and a mark that says whether
they were only carried over. Along every run its list is what the orderings of the query unfold to,
and its mark is that of the query. -/

namespace EntityQuery
set_option autoImplicit false

/-! ## The machine -/

/-- What rows are sorted by, as far as the operators so far determine it. -/
structure Sorting where
  stage : Stage := .general
  keys : List Sql.Ordering := []
  -- Carried over from a wrapped statement, not asked for.
  inherited : Bool := false

namespace Sorting

/-- Wrapping keeps the keys and marks them. -/
def promote (s : Sorting) (op : Operator) : Sorting :=
  if s.stage.promotes op then { s with inherited := true } else s

/-- What an operator that asks for the given keys does to a sorting. -/
def ask (s : Sorting) (keys : List Sql.Ordering) : Operator → Sorting
  | .orderBy _ _ .primary => { s with keys, inherited := false }
  | .orderBy _ _ .secondary =>
    { s with keys := if s.inherited then keys else s.keys ++ keys, inherited := false }
  | .groupBy g => if g.orderings.isEmpty then s else { s with keys, inherited := false }
  | .aggregate .. => { s with keys := [], inherited := false }
  | _ => s

/-- One step of the machine, for an operator that asks for the given keys. -/
def next (s : Sorting) (op : Operator) (keys : List Sql.Ordering) : Sorting :=
  { (s.promote op).ask keys op with stage := s.stage.next op }

end Sorting

/-! ## Keys of operators -/

/-- The ordering over the columns of tables that an ordering over the sources stands for. -/
def Sql.Sources.unfoldOrdering (s : Sql.Sources) (o : Sql.Ordering) : Sql.Ordering :=
  { o with expr := s.unfold o.expr }

/-- The orderings that an operator asks for when it is added to the draft. -/
def Draft.orderingsOf (d : Draft) (env : Env) : Operator → Except CompileError (List Sql.Ordering)
  | .orderBy f direction _ => do
    let o ← d.groupOrdering env d.result (f, direction)
    return [o]
  | .groupBy g => do
    let keys ← g.keys.mapM (d.groupKey env)
    g.orderings.mapM (d.groupOrdering env (groupShape (keyShape (keys.map (·.2))) d.result))
  | _ => .ok []

/-- The keys that an operator asks for when it is added to the draft, over the columns of tables. -/
def Draft.keysOf (d : Draft) (env : Env) (op : Operator) : Except CompileError (List Sql.Ordering) := do
  let os ← d.orderingsOf env op
  return os.map d.sources.unfoldOrdering

/-- One step of the machine along a run: the keys are those that the operator asks for where it is
added. -/
def Sorting.follow (env : Env) (s : Sorting) (x : Query × Operator) : Except CompileError Sorting := do
  let keys ← (x.1.host env x.2).draft.keysOf env x.2
  return s.next x.2 keys

/-! ## Unfolded orderings -/

/-- Over the columns of tables, the first ordering is the second. -/
def Sql.Sources.Sorts (s : Sql.Sources) (o key : Sql.Ordering) : Prop :=
  o.direction = key.direction ∧ (s.unfold o.expr == key.expr) = true

/-- The orderings of the draft unfold to the keys, and its mark is the given one. -/
structure Draft.SortedBy (d : Draft) (keys : List Sql.Ordering) (inherited : Bool) : Prop where
  orderings : List.Forall₂ d.sources.Sorts d.orderings keys
  inherited : d.inherited = inherited

theorem Sql.Sources.sorts_self (s : Sql.Sources) (os : List Sql.Ordering) :
    List.Forall₂ s.Sorts os (os.map s.unfoldOrdering) := by
  induction os with
  | nil => exact .nil
  | cons o os ih => exact .cons ⟨rfl, BEq.rfl⟩ ih

theorem Sql.Sources.beq_of_sorts {s : Sql.Sources} {os keys : List Sql.Ordering}
    (h : List.Forall₂ s.Sorts os keys) : (os.map s.unfoldOrdering == keys) = true := by
  induction h with
  | nil => rfl
  | cons ho _ ih =>
    rw [List.map_cons, List.cons_beq_cons, ih, Bool.and_true]
    change ((s.unfold _ == _) && _) = true
    rw [ho.2, Bool.true_and, beq_iff_eq]
    exact ho.1

theorem Sql.Sources.Grows.sorts {s t : Sql.Sources} (h : s.Grows t) {os keys : List Sql.Ordering}
    (hos : ∀ o ∈ os, o.expr.Over fun c => c.table ∈ s.aliases) (hs : List.Forall₂ s.Sorts os keys) :
    List.Forall₂ t.Sorts os keys := by
  induction hs with
  | nil => exact .nil
  | cons ho _ ih =>
    refine .cons ⟨ho.1, ?_⟩ (ih fun o hmem => hos o (List.mem_cons_of_mem _ hmem))
    rw [h.unfold (hos _ (List.mem_cons_self ..))]
    exact ho.2

namespace Draft

variable {env : Env} {d d' : Draft} {keys : List Sql.Ordering} {mark : Bool}

theorem Sound.orderings_over (h : d.Sound env) :
    ∀ o ∈ d.orderings, o.expr.Over fun c => c.table ∈ d.sources.aliases :=
  fun o ho => (h.supplied.orderings o ho).mono fun _ hc => hc.mem_aliases

theorem SortedBy.grows (hd : d.Sound env) (h : d.SortedBy keys mark)
    (hs : d.sources.Grows d'.sources) (ho : d'.orderings = d.orderings)
    (hi : d'.inherited = d.inherited) : d'.SortedBy keys mark := by
  refine ⟨?_, hi.trans h.inherited⟩
  rw [ho]
  exact hs.sorts hd.orderings_over h.orderings

end Draft

/-! ## Wrapping -/

theorem forall₂_trans {α β γ : Type} {R : α → β → Prop} {S : β → γ → Prop} {T : α → γ → Prop}
    (hT : ∀ a b c, R a b → S b c → T a c) {as : List α} {bs : List β} {cs : List γ}
    (h : List.Forall₂ R as bs) (h' : List.Forall₂ S bs cs) : List.Forall₂ T as cs := by
  induction h generalizing cs with
  | nil =>
    cases h'
    exact .nil
  | cons hab _ ih =>
    cases h' with
    | cons hbc hrest => exact .cons (hT _ _ _ hab hbc) (ih hrest)

namespace Query

variable {env : Env} {q q' : Query} {keys : List Sql.Ordering} {mark : Bool}

theorem promoted_sortedBy (env : Env) (h : q.draft.SortedBy keys mark) :
    (q.promoted env).SortedBy keys true := by
  have hd := q.wrap_distinguished env (q.promotedLabel env)
  have hsources : (q.wrap env (q.promotedLabel env)).statement.sources = q.draft.sources := by
    rw [(q.wrap_widens env _).clauses]
    exact q.statement_sources
  refine ⟨?_, rfl⟩
  refine forall₂_trans ?_ (q.wrap_orderings_expose env (q.promotedLabel env)) h.orderings
  intro o o' key ho hkey
  have hunfolds := ho.2.unfolds [] hd
  rw [hsources] at hunfolds
  exact ⟨ho.1.trans hkey.1, BEq.trans hunfolds hkey.2⟩

/-! ## Operators -/

end Query

namespace Draft

variable {env : Env} {d d' : Draft} {s : Sorting}

/-- The draft is sorted as the machine says. -/
def Follows (d : Draft) (s : Sorting) : Prop := d.SortedBy s.keys s.inherited

theorem keysOf_eq_ok {op : Operator} {os : List Sql.Ordering} (h : d.orderingsOf env op = .ok os) :
    d.keysOf env op = .ok (os.map d.sources.unfoldOrdering) := bind_eq_ok.mpr ⟨os, h, rfl⟩

theorem Follows.orderBy (h : d.Follows s) {f : Lambda} {dir : Sql.Direction} {pl : Placement}
    (hf : d.orderBy env f dir pl = .ok d') :
    ∃ keys, d.keysOf env (.orderBy f dir pl) = .ok keys ∧ d'.Follows (s.ask keys (.orderBy f dir pl)) := by
  obtain ⟨p, e, hp, he, rfl⟩ := orderBy_eq_ok.mp hf
  have ho : d.orderingsOf env (.orderBy f dir pl) = .ok [⟨e, dir⟩] :=
    bind_eq_ok.mpr ⟨_, groupOrdering_eq_ok.mpr ⟨p, e, hp, he, rfl⟩, rfl⟩
  refine ⟨_, keysOf_eq_ok ho, ?_⟩
  have hnew := d.sources.sorts_self [⟨e, dir⟩]
  cases pl with
  | primary =>
    rw [if_pos (by simp)]
    exact ⟨hnew, rfl⟩
  | secondary =>
    have hmark := h.inherited
    cases hi : d.inherited with
    | true =>
      rw [hi] at hmark
      simp only [Bool.true_or, if_true]
      refine ⟨?_, rfl⟩
      simp only [Sorting.ask, ← hmark, if_true]
      exact hnew
    | false =>
      rw [hi] at hmark
      rw [if_neg (by simp)]
      refine ⟨?_, rfl⟩
      simp only [Sorting.ask, ← hmark, Bool.false_eq_true, if_false]
      exact List.rel_append h.orderings hnew

theorem Follows.group (h : d.Follows s) {g : Grouping} (hg : d.group env g = .ok d') :
    ∃ keys, d.keysOf env (.groupBy g) = .ok keys ∧ d'.Follows (s.ask keys (.groupBy g)) := by
  obtain ⟨-, -, keys, having, os, p, result, hk, -, ho, -, -, hd'⟩ := group_eq_ok.mp hg
  refine ⟨_, keysOf_eq_ok (bind_eq_ok.mpr ⟨keys, hk, ho⟩), ?_⟩
  have hempty : g.orderings.isEmpty = os.isEmpty := by
    rw [Bool.eq_iff_iff, List.isEmpty_iff_length_eq_zero, List.isEmpty_iff_length_eq_zero,
      (mapM_eq_ok.mp ho).length_eq]
  have hsources : d'.sources = d.sources := by rw [group_rest hg]
  have horderings : d'.orderings = if os.isEmpty then d.orderings else os := by
    rw [hd', setOrderings_eq, addHavings_eq]
  have hinherited : d'.inherited = if os.isEmpty then d.inherited else false := by
    rw [hd', setOrderings_eq, addHavings_eq]
  simp only [Follows, Sorting.ask, hempty]
  cases he : os.isEmpty with
  | true =>
    simp only [he, if_true] at horderings hinherited ⊢
    exact ⟨by rw [hsources, horderings]; exact h.orderings, hinherited.trans h.inherited⟩
  | false =>
    simp only [he, Bool.false_eq_true, if_false] at horderings hinherited ⊢
    exact ⟨by rw [hsources, horderings]; exact d.sources.sorts_self os, hinherited⟩

theorem Follows.load (hd : d.Sound env) (h : d.Follows s) {chain : NavigationChain}
    (hl : Query.load d env chain = .ok d') : d'.Follows s := by
  obtain ⟨heq, hgrows⟩ := load_joins hl
  refine SortedBy.grows hd h hgrows ?_ ?_ <;> rw [heq]

end Draft

namespace Query

variable {env : Env} {q q' : Query} {op : Operator} {s : Sorting}

theorem extends_follows {d : Draft} (hd : d.Sound env) (h : d.Follows s) (he : Extends env d op q') :
    ∃ keys, d.keysOf env op = .ok keys ∧ q'.draft.Follows (s.ask keys op) := by
  cases he with
  | filter hf =>
    obtain ⟨p, e, -, -, rfl⟩ := Draft.filter_eq_ok.mp hf
    exact ⟨[], rfl, h.orderings, h.inherited⟩
  | orderBy hf => exact h.orderBy hf
  | select hf =>
    obtain ⟨-, p, result, -, -, rfl⟩ := Draft.select_eq_ok.mp hf
    exact ⟨[], rfl, h.orderings, h.inherited⟩
  | skip _ => exact ⟨[], rfl, h⟩
  | take _ => exact ⟨[], rfl, h⟩
  | distinct _ => exact ⟨[], rfl, h⟩
  | aggregate hf =>
    obtain ⟨-, -, es, -, rfl⟩ := Draft.aggregate_eq_ok.mp hf
    exact ⟨[], rfl, .nil, rfl⟩
  | groupBy hg => exact h.group hg
  | load hl => exact ⟨[], rfl, h.load hd hl⟩

theorem adds_follows (hd : q.draft.Sound env) (h : q.draft.Follows s) (ha : Adds env q op q') :
    ∃ keys, q.draft.keysOf env op = .ok keys ∧ q'.draft.Follows (s.ask keys op) := by
  cases ha with
  | extend _ he => exact extends_follows hd h he
  | move hm => rcases hm.operator with ⟨n, rfl⟩ | ⟨n, rfl⟩ | rfl <;> exact ⟨[], rfl, h⟩
  | select _ hf =>
    have hs := extends_follows hd h (Extends.select hf)
    exact hs
  | join _ _ _ _ _ _ => exact ⟨[], rfl, Draft.SortedBy.grows hd h (.join _ _) rfl rfl⟩

/-- The machine keeps pace with a query: it is at the same stage, and its keys and its mark are those
of the query. -/
structure Sorted (q : Query) (s : Sorting) : Prop where
  stage : s.stage = q.stage
  follows : q.draft.Follows s

theorem Sorted.accept (hq : Reachable env q) (h : q.Sorted s) (ha : q.accept env op = .ok q') :
    ∃ s', s.follow env (q, op) = .ok s' ∧ q'.Sorted s' := by
  obtain ⟨-, hadds, hstage⟩ := adds_of_accept ha
  have hhost : (q.host env op).draft.Follows (s.promote op) := by
    unfold host Sorting.promote
    rw [h.stage]
    cases q.stage.promotes op with
    | true => exact promoted_sortedBy env h.follows
    | false => exact h.follows
  obtain ⟨keys, hkeys, hfollows⟩ := adds_follows (host_sound hq.sound op) hhost hadds
  refine ⟨s.next op keys, bind_eq_ok.mpr ⟨keys, hkeys, rfl⟩, ?_, hfollows⟩
  rw [hstage, ← h.stage]
  rfl

theorem root_sorted {entity : String} (h : root env entity = .ok q) : q.Sorted {} := by
  obtain ⟨e, -, rfl⟩ := root_eq_ok.mp h
  exact ⟨rfl, .nil, rfl⟩

end Query

/-- **Orderings follow the machine.** Along every run the machine can make each step, and at the end
its stage and its mark are those of the query, and its keys are what the orderings of the query
unfold to. -/
theorem Query.build_sorted {env : Env} {entity : String} {ops : List Operator} {q : Query}
    (hops : ∀ op ∈ ops, op.Built env) (h : Query.build env entity ops = .ok q) :
    ∃ root s, Query.root env entity = .ok root ∧ (root.history env ops).map (·.2) = ops ∧
      (root.history env ops).foldlM (Sorting.follow env) {} = .ok s ∧
      (q.draft.orderings.map q.draft.sources.unfoldOrdering == s.keys) = true ∧
      q.draft.inherited = s.inherited ∧ q.stage = s.stage := by
  obtain ⟨root, hroot, hall⟩ := bind_eq_ok.mp h
  obtain ⟨s, hs, hsorted⟩ := acceptAll_pace (fun q q' s op hq hP ha => Sorted.accept hq hP ha)
    (.root hroot) hops (root_sorted hroot) hall
  exact ⟨root, s, hroot, operators_history hall, hs, Sql.Sources.beq_of_sorts hsorted.follows.orderings,
    hsorted.follows.inherited, hsorted.stage.symm⟩

theorem Query.build_sorted_adults : ∃ inner q s,
    Query.build Sample.env "Order" Sample.paidOrders = .ok inner ∧
    Query.build Sample.env "User" (Sample.adultsWith inner) = .ok q ∧
    q.draft.orderings.length = 1 ∧ q.draft.inherited = true ∧
    (q.draft.orderings.map q.draft.sources.unfoldOrdering == Sorting.keys s) = true ∧
    s.inherited = true := by
  have h : (do
      let inner ← Query.build Sample.env "Order" Sample.paidOrders
      let q ← Query.build Sample.env "User" (Sample.adultsWith inner)
      pure (q.draft.orderings.length, q.draft.inherited) : Except CompileError (Nat × Bool)) =
        .ok (1, true) := ok_of_toOption (by decide +kernel)
  simp only [bind_eq_ok, pure_eq_ok, Prod.mk.injEq] at h
  obtain ⟨inner, hi, q, hq, hn, hmark⟩ := h
  have hinner : Reachable Sample.env inner :=
    reachable_of_build (by simp [Sample.paidOrders, Operator.Built]) hi
  obtain ⟨root, s, -, -, -, hkeys, hinherited, -⟩ :=
    build_sorted (Sample.adultsWith_built hinner) hq
  exact ⟨inner, q, s, hi, hq, hn, hmark, hkeys, hinherited ▸ hmark⟩

end EntityQuery
