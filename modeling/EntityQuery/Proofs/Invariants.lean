import EntityQuery.Proofs.Evaluation
import EntityQuery.Proofs.Provenance
import EntityQuery.Proofs.Resolution

/-! # What every reachable query is like

Parameters are bound while a lambda is read and at no other time. The aliases that lambdas may
mention are those of the sources, in order. Collections are part of the result at the general stage
only, since every way out of that stage asks for a result without them. -/

namespace EntityQuery
set_option autoImplicit false

/-! ## Aliases -/

namespace Draft

variable {env : Env} {d d' : Draft}

/-- The visible aliases are those of the sources, and they are taken. -/
structure Named (d : Draft) : Prop where
  visible : d.aliases.visible = d.sources.aliases
  taken : ∀ a ∈ d.aliases.visible, a ∈ d.aliases.taken

theorem Named.join (h : d.Named) (base : String) {j : Sql.Join}
    (hj : j.source.label = d.aliases.fresh base) :
    Named { d with
      aliases := d.aliases.register (d.aliases.fresh base), sources := d.sources.join j } := by
  have hfresh : d.aliases.fresh base ∉ d.aliases.visible :=
    fun hmem => d.aliases.fresh_notMem base (h.taken _ hmem)
  have hvisible : Aliases.insert (d.aliases.fresh base) d.aliases.visible =
      d.aliases.visible ++ [d.aliases.fresh base] := by
    rw [Aliases.insert, if_neg (by simpa using hfresh)]
  refine ⟨?_, ?_⟩
  · change Aliases.insert _ _ = _
    rw [hvisible, h.visible, Sql.Sources.aliases_eq, Sql.Sources.aliases_eq, Sql.Sources.all_join,
      List.map_append, List.map_singleton, hj]
  · intro a ha
    change a ∈ Aliases.insert _ _ at ha
    change a ∈ Aliases.insert _ _
    rw [Aliases.mem_insert] at ha ⊢
    exact ha.imp_left (h.taken a)

theorem Named.load (h : d.Named) {chain : NavigationChain} (hl : Query.load d env chain = .ok d') :
    d'.Named := by
  have hd' := load_induction (P := fun a s => Named { d with aliases := a, sources := s })
    (fun a s table on ha => ha.join table rfl) h hl
  exact ⟨hd'.visible, hd'.taken⟩

end Draft

/-! ## Collections -/

theorem Scope.flat_bind {aliases : Aliases} {depthLimit : Nat} {p : Param} {shape : Shape}
    (h : shape.hasCollection = false) :
    Scope.Flat ⟨Bindings.bind {} p shape, aliases, depthLimit⟩ :=
  (Scope.flat_empty aliases depthLimit).bind h p

namespace Draft

variable {env : Env} {d d' : Draft}

theorem flat_groupShape {shapes : List Shape} {elements : Shape}
    (hs : ∀ s ∈ shapes, s.hasCollection = false) (he : elements.hasCollection = false) :
    (groupShape (keyShape shapes) elements).hasCollection = false := by
  have hitems : ∀ (k : Nat) (ss : List Shape), (∀ s ∈ ss, s.hasCollection = false) →
      Shape.anyCollection (itemMembers k ss) = false := by
    intro k ss
    induction ss generalizing k with
    | nil => intro _; rfl
    | cons s ss ih =>
      intro h
      rw [itemMembers, Shape.anyCollection, h s (List.mem_cons_self ..),
        ih (k + 1) fun x hx => h x (List.mem_cons_of_mem _ hx)]
      rfl
  have hkey : (keyShape shapes).hasCollection = false := by
    unfold keyShape
    split
    · exact hs _ (List.mem_singleton_self _)
    · exact hitems 1 shapes hs
  simp only [groupShape, Shape.hasCollection, Shape.anyCollection, hkey, he, Bool.or_false]

theorem flat_select (hb : d.bindings = {}) {f : Lambda} (h : d.select env f = .ok d') :
    d'.result.hasCollection = false := by
  obtain ⟨hc, p, result, -, hr, rfl⟩ := select_eq_ok.mp h
  rw [hb] at hr
  exact Scope.shape_flat (Scope.flat_bind hc) f.body 0 result hr

theorem flat_group (hb : d.bindings = {}) {g : Grouping} (h : d.group env g = .ok d') :
    d'.result.hasCollection = false := by
  obtain ⟨hc, -, keys, having, os, p, result, hk, -, -, -, hr, rfl⟩ := group_eq_ok.mp h
  rw [hb] at hr
  refine Scope.shape_flat (Scope.flat_bind (flat_groupShape ?_ hc)) g.selector.body 0 result hr
  intro s hs
  obtain ⟨key, hkey, rfl⟩ := List.mem_map.mp hs
  refine forall_of_mapM (Q := fun k => k.2.hasCollection = false) hk ?_ key hkey
  intro f k hfk
  obtain ⟨p', -, -, hshape⟩ := groupKey_eq_ok.mp hfk
  rw [hb] at hshape
  exact Scope.shape_flat (Scope.flat_bind hc) f.body 0 _ hshape

end Draft

/-! ## Properties of expressions -/

/-- Two properties that operators keep: `Q` is one that columns have and that lambdas keep in what
they build, `C` is one of conditions that are made of expressions with `Q`. -/
structure Sql.Kept (aggregates : Prop) (Q C : Sql.Expr → Prop) : Prop where
  closed : Sql.Closed aggregates Q
  column : ∀ c, Q (.column c)
  predicate : ∀ e, Q e → C e.asPredicate
  keys : ∀ l r, Q l → Q r → C (.compare .eq l r)
  andAlso : ∀ l r, C l → C r → C (Sql.Expr.andAlso (some l) r)

theorem Sql.Kept.carried {A : Prop} {Q C : Sql.Expr → Prop} (hk : Sql.Kept A Q C) : Sql.Carried A Q C :=
  ⟨hk.closed, hk.predicate, hk.andAlso⟩

namespace Draft

variable {env : Env} {A : Prop} {Q C : Sql.Expr → Prop} {d d' : Draft}

/-- The lambdas of the step have aggregates only if `A`. -/
def StepAllows (A : Prop) (step : NavigationStep) : Prop :=
  (∀ f ∈ step.condition, f.body.hasAggregate = true → A) ∧
    ∀ f ∈ step.filter, f.body.hasAggregate = true → A

theorem kept_takeStep (hk : Sql.Kept A Q C) (hb : d.bindings = {}) {owner owner' : ObjectOf Shape}
    {step : NavigationStep} {below many : Bool} {member : Shape} (hstep : StepAllows A step)
    (hj : ∀ j ∈ d.sources.joins, C j.on) (ho : ∀ e ∈ Shape.memberScalars owner.members, Q e)
    (ht : d.takeStep env owner step below = (d', .ok (owner', member, many))) :
    (∀ j ∈ d'.sources.joins, C j.on) ∧ (∀ e ∈ Shape.memberScalars owner'.members, Q e) ∧
      ∀ e ∈ member.scalars, Q e := by
  rcases takeStep_eq_ok ht with ⟨-, rfl, rfl, hm⟩ |
    ⟨link, k, k', c, f, -, hok, hrk, hc, hf, rfl, rfl, rfl⟩
  · exact ⟨hj, ho, fun e he => ho e (Shape.scalars_of_lookup hm e he)⟩
  · have hrelated : ∀ e ∈ Shape.memberScalars
        (ObjectOf.ofEntity link.target (d.aliases.fresh link.target.table)).members, Q e := by
      intro e he
      obtain ⟨p, -, rfl⟩ := Shape.scalars_ofEntity he
      exact hk.column _
    have hon : C (linkCondition k k' c f) := by
      refine linkCondition_closed hk.keys hk.andAlso ?_ ?_ ?_ ?_
      · exact ho k (Shape.scalars_of_lookup hok k (List.mem_singleton_self _))
      · exact hrelated k' (Shape.scalars_of_lookup hrk k' (List.mem_singleton_self _))
      · exact stepPredicate_closed hk.closed hk.predicate hstep.1 hc hb hrelated
      · exact stepPredicate_closed hk.closed hk.predicate hstep.2 hf hb hrelated
    refine ⟨List.forall_mem_append.mpr ⟨hj, List.forall_mem_singleton.mpr hon⟩, ?_, ?_⟩
    · intro e he
      rcases Shape.memberScalars_put he with he | he
      · rw [scalars_relatedShape] at he
        exact hrelated e he
      · exact ho e he
    · rw [scalars_relatedShape]
      exact hrelated

theorem kept_walk (hk : Sql.Kept A Q C) (hb : d.bindings = {}) {steps : List NavigationStep}
    {below : Bool} {shape shape' : Shape} (hsteps : ∀ step ∈ steps, StepAllows A step)
    (hj : ∀ j ∈ d.sources.joins, C j.on) (hs : ∀ e ∈ shape.scalars, Q e)
    (hw : walk env steps below shape d = (shape', d', none)) :
    (∀ j ∈ d'.sources.joins, C j.on) ∧ ∀ e ∈ shape'.scalars, Q e := by
  induction steps generalizing below shape shape' d with
  | nil =>
    cases hw
    exact ⟨hj, hs⟩
  | cons step steps ih =>
    obtain ⟨owner, d₁, owner', member, many, member', ho, ht, hrest, rfl⟩ := walk_cons_eq_none hw
    rw [Shape.scalars_owner ho] at hs
    obtain ⟨hj₁, howner, hmember⟩ := kept_takeStep hk hb (hsteps step (List.mem_cons_self ..)) hj hs ht
    have hb₁ : d₁.bindings = {} := by
      rw [(takeStep_joins ht).rest]
      exact hb
    obtain ⟨hj', hmember'⟩ :=
      ih hb₁ (fun s hs => hsteps s (List.mem_cons_of_mem _ hs)) hj₁ hmember hrest
    refine ⟨hj', ?_⟩
    intro e he
    rw [Shape.scalars_withOwner] at he
    rcases Shape.memberScalars_put he with he | he
    · exact hmember' e he
    · exact howner e he

end Draft

/-! ## Queries -/

namespace Query

variable {env : Env} {q q' : Query} {op : Operator}

/-- What all queries that operators build have in common. -/
structure Tidy (q : Query) : Prop where
  bindings : q.draft.bindings = {}
  named : q.draft.Named
  flat : q.stage ≠ .general → q.draft.result.hasCollection = false

theorem root_tidy {entity : String} (h : root env entity = .ok q) : q.Tidy := by
  obtain ⟨e, -, rfl⟩ := root_eq_ok.mp h
  refine ⟨rfl, ⟨rfl, ?_⟩, fun h => absurd rfl h⟩
  intro a ha
  exact ha

theorem Tidy.promoted (h : q.Tidy) (env : Env) : Tidy { draft := q.promoted env } := by
  refine ⟨h.bindings, ⟨rfl, ?_⟩, fun h => absurd rfl h⟩
  intro a ha
  change a ∈ Aliases.insert _ _
  exact Aliases.mem_insert.mpr (.inr (List.mem_singleton.mp ha))

theorem Extends.bindings {d : Draft} (h : Extends env d op q') : q'.draft.bindings = d.bindings := by
  rcases h.frame with ⟨chain, -, hl⟩ | ⟨-, -, -, hbindings⟩
  · rw [(Draft.load_joins hl).1]
  · exact hbindings

theorem Extends.named {d : Draft} (hd : d.Named) (h : Extends env d op q') : q'.draft.Named := by
  rcases h.frame with ⟨chain, -, hl⟩ | ⟨-, hsources, haliases, -⟩
  · exact hd.load hl
  · refine ⟨?_, ?_⟩
    · rw [haliases, hsources]
      exact hd.visible
    · rw [haliases]
      exact hd.taken

theorem Extends.flat {d : Draft} (hd : d.bindings = {}) (h : Extends env d op q')
    (hs : q'.stage ≠ .general) : q'.draft.result.hasCollection = false := by
  cases h with
  | filter _ => exact absurd rfl hs
  | orderBy _ => exact absurd rfl hs
  | select _ => exact absurd rfl hs
  | skip hc => exact hc
  | take hc => exact hc
  | distinct hc => exact hc
  | aggregate hf =>
    obtain ⟨-, -, es, -, rfl⟩ := Draft.aggregate_eq_ok.mp hf
    rfl
  | groupBy hg => exact Draft.flat_group hd hg
  | load _ => exact absurd rfl hs

theorem Tidy.adds (h : q.Tidy) (ha : Adds env q op q') : q'.Tidy := by
  cases ha with
  | extend _ he => exact ⟨he.bindings.trans h.bindings, he.named h.named, he.flat h.bindings⟩
  | move hm =>
    -- No operator of this kind is accepted at the general stage.
    refine ⟨h.bindings, h.named, fun _ => h.flat ?_⟩
    intro hs
    rw [hs] at hm
    cases hm
  | select _ hf =>
    have hflat := Draft.flat_select h.bindings hf
    obtain ⟨-, p, result, -, -, rfl⟩ := Draft.select_eq_ok.mp hf
    exact ⟨h.bindings, ⟨h.named.visible, h.named.taken⟩, fun _ => hflat⟩
  | @join kind inner _ _ _ _ _ _ e _ _ _ _ _ _ _ =>
    have hn := h.named.join env.settings.tableStem
      (j := ⟨kind, .derived (inner.wrap env (joinedLabel q.draft env)).statement
        (joinedLabel q.draft env), e.asPredicate⟩) rfl
    exact ⟨h.bindings, ⟨hn.visible, hn.taken⟩, fun hs => absurd rfl hs⟩

theorem Tidy.accept (h : q.Tidy) (ha : q.accept env op = .ok q') : q'.Tidy := by
  obtain ⟨-, hadds, -⟩ := adds_of_accept ha
  have hhost : (q.host env op).Tidy := by
    unfold host
    cases q.stage.promotes op with
    | true => exact h.promoted env
    | false => exact h
  exact hhost.adds hadds

theorem Tidy.acceptAll {ops : List Operator} (h : q.Tidy) (ha : q.acceptAll env ops = .ok q') :
    q'.Tidy := by
  induction ops generalizing q with
  | nil =>
    rw [Query.acceptAll, List.foldlM_nil, pure_eq_ok] at ha
    rw [← ha]
    exact h
  | cons op ops ih =>
    obtain ⟨r, hr, ha⟩ := acceptAll_cons.mp ha
    exact ih (h.accept hr) ha

theorem tidy_of_build {entity : String} {ops : List Operator} (h : build env entity ops = .ok q) :
    q.Tidy := by
  obtain ⟨r, hr, h⟩ := bind_eq_ok.mp h
  exact (root_tidy hr).acceptAll h

theorem Reachable.tidy (h : Reachable env q) : q.Tidy := by
  induction h with
  | root hr => exact root_tidy hr
  | accept _ _ ha ih _ => exact ih.accept ha

end Query

end EntityQuery
