import EntityQuery.Proofs.Grafting
import EntityQuery.Proofs.Renaming
import EntityQuery.Proofs.WiderScopes

/-! # Loading before or after filtering and sorting

Filters and orderings read the result and change a clause that loading does not look at; loading leaves
every scalar of the result where a lambda finds it. So the two can be asked for in either order. -/

namespace EntityQuery
set_option autoImplicit false

/-! ## Members of a result that grows -/

theorem Shape.Keeps.member? {s s' m : Shape} {name : String} (h : s.Keeps s')
    (hm : s.member? name = some m) : ∃ m', s'.member? name = some m' ∧ m.Keeps m' := by
  cases s with
  | scalar e => cases hm
  | collection element c f => cases hm
  | object o =>
    obtain ⟨t, ht, hcontinues⟩ := h [] (.object o) rfl
    cases ht
    cases s' with
    | scalar e => cases hcontinues
    | collection element c f => cases hcontinues
    | object o' =>
      have hpart : ∀ path, (Shape.object o).partAt? (.member name :: path) = m.partAt? path := by
        intro path
        exact congrArg (·.bind fun m => m.partAt? path) hm
      obtain ⟨m', hm', -⟩ := h [.member name] m (hpart [])
      obtain ⟨m', hm', -⟩ := Option.bind_eq_some_iff.mp hm'
      refine ⟨m', hm', fun path part hpath => ?_⟩
      obtain ⟨part', hpart', hcontinues⟩ := h (.member name :: path) part ((hpart path).trans hpath)
      refine ⟨part', ?_, hcontinues⟩
      rw [← hpart']
      exact (congrArg (·.bind fun m => m.partAt? path) hm').symm

theorem Shape.Keeps.scalar {e : Sql.Expr} {s' : Shape} (h : (Shape.scalar e).Keeps s') :
    s' = .scalar e := by
  obtain ⟨t, ht, hcontinues⟩ := h [] (.scalar e) rfl
  cases ht
  cases s' with
  | scalar e' => exact congrArg Shape.scalar hcontinues
  | object o => cases hcontinues
  | collection element c f => cases hcontinues

theorem Bindings.shape?_keeps (b : Bindings) (p : Param) {s s' : Shape} (h : s.Keeps s') :
    ∀ (t : Term) {m : Shape}, (b.bind p s).shape? t = some m →
      ∃ m', (b.bind p s').shape? t = some m' ∧ m.Keeps m'
  | .param q, m, hm => by
    simp only [Bindings.shape?, get?_bind] at hm ⊢
    split at hm
    · cases hm
      exact ⟨s', by simp [*], h⟩
    · exact ⟨m, by simp [*], .refl m⟩
  | .member t name, m, hm => by
    obtain ⟨owner, howner, hm⟩ := Option.bind_eq_some_iff.mp hm
    obtain ⟨owner', howner', hkeeps⟩ := shape?_keeps b p h t howner
    obtain ⟨m', hm', hkeeps⟩ := hkeeps.member? hm
    exact ⟨m', Option.bind_eq_some_iff.mpr ⟨owner', howner', hm'⟩, hkeeps⟩
  | .const _, _, hm | .binary .., _, hm | .not _, _, hm | .negate _, _, hm | .call .., _, hm
  | .isIn .., _, hm | .aggregate .., _, hm | .record _, _, hm => by cases hm

/-! ## Lambdas on a result that grows -/

theorem Aliases.isVisible_register {a : Aliases} {label : String} (h : a.isVisible label = true)
    (other : String) : (a.register other).isVisible label = true := by
  simp only [Aliases.isVisible, List.contains_iff_mem] at h ⊢
  exact Aliases.mem_insert.mpr (.inl h)

namespace Draft

variable {env : Env} {d d' : Draft} {chain : NavigationChain}

theorem isVisible_grafted (d : Draft) (gs : List Graft) {label : String}
    (h : d.aliases.isVisible label = true) : (d.grafted gs).aliases.isVisible label = true := by
  change (gs.foldl (fun aliases g => aliases.register g.label) d.aliases).isVisible label = true
  generalize d.aliases = aliases at h
  induction gs generalizing aliases with
  | nil => exact h
  | cons g gs ih => exact ih _ (Aliases.isVisible_register h g.label)

/-- What a lambda can read of the result it can read when a chain has been loaded. -/
theorem load_within (h : d.load env chain = (d', none)) (p : Param) :
    (d.scope env (d.bindings.bind p d.result)).Within
      (d'.scope env (d'.bindings.bind p d'.result)) := by
  obtain ⟨-, result, d₁, hw, rfl⟩ := load_eq_none.mp h
  obtain ⟨gs, rfl, hkeeps, -⟩ := walk_grafts hw
  refine ⟨?_, fun label => isVisible_grafted d gs, Nat.le_refl _⟩
  intro t e ht
  obtain ⟨m, hm, hscalar⟩ := Bindings.shape?_keeps d.bindings p hkeeps t ht
  rwa [hscalar.scalar] at hm

/-! ## Changes of clauses -/

/-- A change that loading overlooks, and that overlooks the result. -/
structure Clausal (change : Draft → Draft) : Prop extends Overlooked change where
  result : ∀ d, (change d).result = d.result
  withResult : ∀ d result, change { d with result } = { change d with result }

theorem load_clausal {change : Draft → Draft} (hc : Clausal change)
    (h : d.load env chain = (d', none)) : (change d).load env chain = (change d', none) := by
  obtain ⟨hdepth, result, d₁, hw, rfl⟩ := load_eq_none.mp h
  refine load_eq_none.mpr ⟨hdepth, result, change d₁, ?_, hc.withResult d₁ result⟩
  rw [hc.result, walk_overlooked hc.toOverlooked, hw]

theorem clausal_addCondition (e : Sql.Expr) : Clausal (·.addCondition e) :=
  ⟨⟨fun _ => rfl, fun _ => rfl, fun _ => rfl, fun _ _ => rfl, fun _ _ => rfl⟩, fun _ => rfl, fun _ _ => rfl⟩

/-- The draft with an ordering more. -/
def sortedBy (o : Sql.Ordering) (placement : Placement) (d : Draft) : Draft :=
  { d with
    orderings := if d.inherited || placement == .primary then [o] else d.orderings ++ [o]
    inherited := false }

theorem clausal_sortedBy (o : Sql.Ordering) (placement : Placement) : Clausal (sortedBy o placement) :=
  ⟨⟨fun _ => rfl, fun _ => rfl, fun _ => rfl, fun _ _ => rfl, fun _ _ => rfl⟩, fun _ => rfl, fun _ _ => rfl⟩

theorem orderBy_eq_sortedBy {f : Lambda} {dir : Sql.Direction} {placement : Placement} :
    d.orderBy env f dir placement = .ok d' ↔ ∃ p e, f.params = [p] ∧
      (d.scope env (d.bindings.bind p d.result)).expression f = .ok e ∧
      d' = d.sortedBy ⟨e, dir⟩ placement := by
  have hsorted : ∀ e : Sql.Expr, d.sortedBy ⟨e, dir⟩ placement =
      if d.inherited || placement == .primary then
        { d with orderings := [⟨e, dir⟩], inherited := false }
      else { d with orderings := d.orderings ++ [⟨e, dir⟩] } := by
    intro e
    unfold sortedBy
    cases h : d.inherited || placement == .primary with
    | true => rfl
    | false =>
      -- The orderings that are kept are not inherited.
      rw [Bool.or_eq_false_iff] at h
      simp [h.1]
  simp only [orderBy_eq_ok, hsorted]

end Draft

/-! ## Operators in either order -/

/-- The operator reads one lambda of the result, and changes a clause by what the lambda denotes. -/
inductive Operator.Tunes : Operator → Lambda → (Sql.Expr → Draft → Draft) → Prop where
  | filter (f : Lambda) : Tunes (.filter f) f fun e => (·.addCondition e.asPredicate)
  | orderBy (f : Lambda) (dir : Sql.Direction) (placement : Placement) :
    Tunes (.orderBy f dir placement) f fun e => Draft.sortedBy ⟨e, dir⟩ placement

theorem Operator.Tunes.clausal {op : Operator} {f : Lambda} {change : Sql.Expr → Draft → Draft}
    (h : op.Tunes f change) (e : Sql.Expr) : Draft.Clausal (change e) := by
  cases h with
  | filter => exact Draft.clausal_addCondition _
  | orderBy => exact Draft.clausal_sortedBy _ _

namespace Query

variable {env : Env} {q q₁ q₂ : Query} {op : Operator} {chain : NavigationChain}

theorem accept_general (hs : q.stage = .general) (env : Env) (op : Operator) :
    q.accept env op = acceptGeneral q.draft env op := by
  unfold accept
  rw [hs]

theorem accept_load_eq_ok (hs : q.stage = .general) :
    q.accept env (.load chain) = .ok q₁ ↔
      ∃ d', q.draft.load env chain = (d', none) ∧ ({ draft := d' } : Query) = q₁ := by
  rw [accept_general hs]
  simp only [acceptGeneral, bind_eq_ok, pure_eq_ok, Query.load_eq_ok, Draft.load_eq_none]

theorem accept_tunes_eq_ok {f : Lambda} {change : Sql.Expr → Draft → Draft} (h : op.Tunes f change)
    (hs : q.stage = .general) :
    q.accept env op = .ok q₁ ↔ ∃ p e, f.params = [p] ∧
      (q.draft.scope env (q.draft.bindings.bind p q.draft.result)).expression f = .ok e ∧
      ({ draft := change e q.draft } : Query) = q₁ := by
  rw [accept_general hs]
  cases h with
  | filter | orderBy =>
    simp only [acceptGeneral, bind_eq_ok, pure_eq_ok, Draft.filter_eq_ok, Draft.orderBy_eq_sortedBy]
    constructor
    · rintro ⟨_, ⟨p, e, hp, he, rfl⟩, rfl⟩
      exact ⟨p, e, hp, he, rfl⟩
    · rintro ⟨p, e, hp, he, rfl⟩
      exact ⟨_, ⟨p, e, hp, he, rfl⟩, rfl⟩

/-- **Loading comes before or after filtering and sorting.** If a chain can be loaded and a filter or an
ordering can be added, each can still be when the other is done, and both orders lead to the same
query. -/
theorem accept_load_interchange (hs : q.stage = .general)
    (hop : (∃ f, op = .filter f) ∨ ∃ f dir placement, op = .orderBy f dir placement)
    (hload : q.accept env (.load chain) = .ok q₁) (haccept : q.accept env op = .ok q₂) :
    ∃ r, q₁.accept env op = .ok r ∧ q₂.accept env (.load chain) = .ok r := by
  obtain ⟨f, change, htunes⟩ : ∃ f change, op.Tunes f change := by
    rcases hop with ⟨f, rfl⟩ | ⟨f, dir, placement, rfl⟩
    · exact ⟨f, _, .filter f⟩
    · exact ⟨f, _, .orderBy f dir placement⟩
  obtain ⟨d', hd', rfl⟩ := (accept_load_eq_ok hs).mp hload
  obtain ⟨p, e, hp, he, rfl⟩ := (accept_tunes_eq_ok htunes hs).mp haccept
  refine ⟨{ draft := change e d' }, ?_, ?_⟩
  · have he' := (Draft.load_within hd' p).expression he
    exact (accept_tunes_eq_ok htunes rfl).mpr ⟨p, e, hp, he', rfl⟩
  · have hchanged := Draft.load_clausal (htunes.clausal e) hd'
    exact (accept_load_eq_ok rfl).mpr ⟨_, hchanged, rfl⟩

theorem accept_load_interchange_orders : ∃ q q₁ q₂ r,
    Query.build Sample.env "User"
      [.orderBy ⟨[Sample.x], .member (.param Sample.x) "city_id"⟩ .asc .primary] = .ok q ∧
    q.accept Sample.env (.load Sample.paidOrdersOf) = .ok q₁ ∧
    q.accept Sample.env
      (.orderBy ⟨[Sample.x], .member (.param Sample.x) "name"⟩ .desc .secondary) = .ok q₂ ∧
    q₁.accept Sample.env
      (.orderBy ⟨[Sample.x], .member (.param Sample.x) "name"⟩ .desc .secondary) = .ok r ∧
    q₂.accept Sample.env (.load Sample.paidOrdersOf) = .ok r ∧
    q₁.draft.sources.aliases = ["users", "orders", "users1"] ∧
    q₂.draft.orderings.map (·.expr.text) = ["users.city_id", "users.name"] := by
  have h : (do
      let q ← Query.build Sample.env "User"
        [.orderBy ⟨[Sample.x], .member (.param Sample.x) "city_id"⟩ .asc .primary]
      let q₁ ← q.accept Sample.env (.load Sample.paidOrdersOf)
      let q₂ ← q.accept Sample.env
        (.orderBy ⟨[Sample.x], .member (.param Sample.x) "name"⟩ .desc .secondary)
      pure (q.stage, q₁.draft.sources.aliases, q₂.draft.orderings.map (·.expr.text)) :
        Except CompileError (Stage × List String × List String)) =
      .ok (.general, ["users", "orders", "users1"], ["users.city_id", "users.name"]) :=
    ok_of_toOption (by decide +kernel)
  simp only [bind_eq_ok, pure_eq_ok, Prod.mk.injEq] at h
  obtain ⟨q, hq, q₁, hq₁, q₂, hq₂, hstage, hnames, hkeys⟩ := h
  obtain ⟨r, hr₁, hr₂⟩ := accept_load_interchange hstage (.inr ⟨_, _, _, rfl⟩) hq₁ hq₂
  exact ⟨q, q₁, q₂, r, hq, hq₁, hq₂, hr₁, hr₂, hnames, hkeys⟩

end Query

end EntityQuery
