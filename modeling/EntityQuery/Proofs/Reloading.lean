import EntityQuery.Proofs.Columns
import EntityQuery.Proofs.Freshness

/-! # Chains loaded in parts

A chain walks through what is loaded already and joins what is not. So loading a chain amounts to
loading any first part of it and then the whole, a chain that is loaded changes nothing when it is
loaded again, and a chain that fails leaves behind what its steps before the failure have loaded. -/

namespace EntityQuery
set_option autoImplicit false

/-! ## Objects along a path -/

namespace Shape

/-- The object at the end of a path of members, elements standing in for their collections. -/
def nodeAt? : Shape → List String → Option (ObjectOf Shape)
  | s, [] => s.owner?
  | s, name :: path => do
    let o ← s.owner?
    let m ← o.members.lookup name
    m.nodeAt? path

theorem nodeAt?_cons {s m : Shape} {o : ObjectOf Shape} {name : String} (ho : s.owner? = some o)
    (hm : o.members.lookup name = some m) (path : List String) :
    s.nodeAt? (name :: path) = m.nodeAt? path := by
  simp [nodeAt?, ho, hm]

theorem withOwner_withOwner (s : Shape) (o o' : ObjectOf Shape) :
    (s.withOwner o).withOwner o' = s.withOwner o' := by
  cases s <;> rfl

theorem withOwner_of_owner {s : Shape} {o : ObjectOf Shape} (h : s.owner? = some o) :
    s.withOwner o = s := by
  unfold owner? at h
  split at h
  · cases h
    rfl
  · cases h
    rfl
  · cases h

/-- The shape is as before, or the object that steps belong to has been replaced. -/
def Reworks (s t : Shape) : Prop := t = s ∨ ∃ o o', s.owner? = some o ∧ t = s.withOwner o'

theorem Reworks.isCollection {s t : Shape} (h : s.Reworks t) : t.isCollection = s.isCollection := by
  rcases h with rfl | ⟨o, o', ho, rfl⟩
  · rfl
  · exact isCollection_withOwner ho o'

theorem Reworks.scalar? {s t : Shape} (h : s.Reworks t) (hs : s.scalar? = none) : t.scalar? = none := by
  rcases h with rfl | ⟨o, o', ho, rfl⟩
  · exact hs
  · cases s <;> rfl

end Shape

namespace ObjectOf

variable {μ : Type}

theorem lookup_withMember (o : ObjectOf μ) (name : String) (m : μ) :
    (o.withMember name m).members.lookup name = some m :=
  Entries.lookup_put_self name m o.members

theorem withMember_withMember (o : ObjectOf μ) (name : String) (m m' : μ) :
    (o.withMember name m).withMember name m' = o.withMember name m' := by
  simp only [withMember, Entries.put_put]

theorem withMember_of_lookup {o : ObjectOf μ} {name : String} {m : μ}
    (h : o.members.lookup name = some m) : o.withMember name m = o := by
  simp only [withMember, Entries.put_of_lookup h]

end ObjectOf

/-- The navigation of a name that the object's entity declares, with the entity that it leads to. -/
def Env.navigation? (env : Env) (owner : ObjectOf Shape) (name : String) : Option (Property × Entity) := do
  let entity ← env.catalog.entity? (← owner.entity)
  let p ← entity.property? name
  let target ← env.catalog.entity? (← p.target)
  return (p, target)

namespace Draft

variable {env : Env} {d d₁ d' : Draft} {owner owner' : ObjectOf Shape} {step : NavigationStep}
  {below many : Bool} {member : Shape}

theorem navigation?_of_inspect {link : Link} (h : inspect env owner step below = .ok (many, some link)) :
    ∃ p, env.navigation? owner step.property = some (p, link.target) ∧
      p.association = some link.association ∧ link.many = (p.kind == .collection) ∧ link.many = many ∧
      Entries.has step.property owner.members = false := by
  obtain ⟨name, entity, p, target, hname, hentity, hp, -, hmany, hhas, -, ha, ht, htarget, hlink⟩ :=
    inspect_eq_link h
  refine ⟨p, ?_, ha, hlink.trans hmany, hlink, hhas⟩
  simp [Env.navigation?, hname, hentity, hp, ht, htarget]

/-! ## Steps that are loaded already -/

theorem inspect_record (o : ObjectOf Shape) (hname : o.entity = none)
    (hm : o.members.lookup step.property = some member) :
    inspect env o step below = .ok (many, none) ↔
      member.scalar? = none ∧ many = member.isCollection := by
  unfold inspect
  rw [hname]
  cases member with
  | scalar e => simp [hm, Shape.scalar?]
  | object o => simp [hm, Shape.scalar?, eq_comm]
  | collection s c f => simp [hm, Shape.scalar?, eq_comm]

theorem inspect_entity (o : ObjectOf Shape) {name : String} (hname : o.entity = some name)
    (hm : o.members.lookup step.property = some member) :
    inspect env o step below = .ok (many, none) ↔ ∃ entity p, env.catalog.entity? name = some entity ∧
      entity.property? step.property = some p ∧ p.kind.isNavigation = true ∧
      many = (p.kind == .collection) := by
  have hhas : Entries.has step.property o.members = true := by rw [Entries.has, hm]; rfl
  constructor
  · intro h
    rcases inspect_eq_none h with ⟨hnone, -⟩ | ⟨name', entity, p, hname', hentity, hp, hkind, hmany, -⟩
    · rw [hname] at hnone
      cases hnone
    · rw [hname] at hname'
      cases hname'
      exact ⟨entity, p, hentity, hp, hkind, hmany⟩
  · rintro ⟨entity, p, hentity, hp, hkind, rfl⟩
    have hok : env.entity name = .ok entity := Env.entity_eq_ok.mpr hentity
    unfold inspect
    simp [hname, hok, hp, hkind, hhas, bind, Except.bind]

/-- A step that was taken is found loaded, whatever lambdas it carries the next time, also if steps
below it have been taken since. -/
theorem inspect_again (ht : d.takeStep env owner step below = (d₁, .ok (owner', member, many)))
    {member' : Shape} (hm : member.Reworks member') {again : NavigationStep}
    (hs : again.property = step.property) (flag : Bool) :
    inspect env (owner'.withMember step.property member') again flag = .ok (many, none) := by
  have hlookup : (owner'.withMember step.property member').members.lookup again.property = some member' := by
    rw [hs]
    exact owner'.lookup_withMember step.property member'
  rcases takeStep_eq_ok ht with ⟨hi, -, rfl, hlook⟩ | ⟨link, k, k', c, f, hi, -, -, -, -, -, -, rfl⟩
  · cases hname : owner'.entity with
    | none =>
      rw [inspect_record (owner'.withMember _ _) hname hlookup]
      obtain ⟨hscalar, hmany⟩ := (inspect_record owner' hname hlook).mp hi
      exact ⟨hm.scalar? hscalar, hmany.trans hm.isCollection.symm⟩
    | some name =>
      rw [inspect_entity (owner'.withMember _ _) hname hlookup, hs]
      exact (inspect_entity owner' hname hlook).mp hi
  · obtain ⟨name, entity, p, target, hname, hentity, hp, hkind, hmany, -⟩ := inspect_eq_link hi
    rw [inspect_entity ((owner.withMember _ _).withMember _ _) hname hlookup, hs]
    exact ⟨entity, p, hentity, hp, hkind, hmany⟩

theorem takeStep_again (ht : d.takeStep env owner step below = (d₁, .ok (owner', member, many)))
    {member' : Shape} (hm : member.Reworks member') {again : NavigationStep}
    (hs : again.property = step.property) (flag : Bool) (e : Draft) :
    e.takeStep env (owner'.withMember step.property member') again flag =
      (e, .ok (owner'.withMember step.property member', member', many)) := by
  have hlookup : (owner'.withMember step.property member').members.lookup again.property = some member' := by
    rw [hs]
    exact owner'.lookup_withMember step.property member'
  unfold takeStep
  simp only [inspect_again ht hm hs flag, hlookup]

/-! ## Walks -/

variable {steps first rest again : List NavigationStep} {shape shape' : Shape}

theorem walk_cons_of_ok {e : Draft} {failure : Option CompileError} {member' : Shape}
    (ho : shape.owner? = some owner)
    (ht : d.takeStep env owner step below = (d₁, .ok (owner', member, many)))
    (hw : walk env steps (below || many) member d₁ = (member', e, failure)) :
    walk env (step :: steps) below shape d =
      (shape.withOwner (owner'.withMember step.property member'), e, failure) := by
  rw [walk, ho]
  simp only [ht, hw]

theorem walk_reworks (hw : walk env steps below shape d = (shape', d', none)) : shape.Reworks shape' := by
  cases steps with
  | nil =>
    cases hw
    exact .inl rfl
  | cons step steps =>
    obtain ⟨owner, d₁, owner', member, many, member', ho, -, -, rfl⟩ := walk_cons_eq_none hw
    exact .inr ⟨owner, _, ho, rfl⟩

theorem walk_again (hw : walk env steps below shape d = (shape', d', none))
    (hsteps : again.map (·.property) <+: steps.map (·.property)) (flag : Bool) (e : Draft) :
    walk env again flag shape' e = (shape', e, none) := by
  induction steps generalizing again below shape shape' d flag with
  | nil =>
    rw [List.map_nil, List.prefix_nil, List.map_eq_nil_iff] at hsteps
    rw [hsteps]
    rfl
  | cons step steps ih =>
    cases again with
    | nil => rfl
    | cons s again =>
      obtain ⟨hs, hagain⟩ := List.cons_prefix_cons.mp hsteps
      change s.property = step.property at hs
      obtain ⟨owner, d₁, owner', member, many, member', ho, ht, hrest, rfl⟩ := walk_cons_eq_none hw
      have htake := takeStep_again ht (walk_reworks hrest) hs flag e
      have hbelow := ih hrest hagain (flag || many)
      rw [walk_cons_of_ok (shape.owner_withOwner _) htake hbelow, Shape.withOwner_withOwner, hs,
        ObjectOf.withMember_withMember]

/-- After its first steps a chain is walked as if they had been loaded by a chain of their own. -/
theorem walk_append (hw : walk env first below shape d = (shape', d', none)) :
    walk env (first ++ rest) below shape' d' = walk env (first ++ rest) below shape d := by
  induction first generalizing below shape shape' d with
  | nil =>
    cases hw
    rfl
  | cons step first ih =>
    obtain ⟨owner, d₁, owner', member, many, member', ho, ht, hfirst, rfl⟩ := walk_cons_eq_none hw
    rcases hrest : walk env (first ++ rest) (below || many) member d₁ with ⟨member₂, d₂, failure⟩
    have hbelow : walk env (first ++ rest) (below || many) member' d' = (member₂, d₂, failure) :=
      (ih hfirst).trans hrest
    have htake := takeStep_again ht (walk_reworks hfirst) rfl below d'
    rw [List.cons_append, walk_cons_of_ok ho ht hrest,
      walk_cons_of_ok (shape.owner_withOwner _) htake hbelow, Shape.withOwner_withOwner,
      ObjectOf.withMember_withMember]

theorem walk_first (hw : walk env (first ++ rest) below shape d = (shape', d', none)) :
    ∃ shape₁ d₁, walk env first below shape d = (shape₁, d₁, none) := by
  induction first generalizing below shape shape' d with
  | nil => exact ⟨shape, d, rfl⟩
  | cons step first ih =>
    obtain ⟨owner, d₁, owner', member, many, member', ho, ht, hrest, -⟩ := walk_cons_eq_none hw
    obtain ⟨member₁, d₂, hfirst⟩ := ih hrest
    exact ⟨_, d₂, walk_cons_of_ok ho ht hfirst⟩

/-! ## Chains -/

theorem load_eq_none {chain : NavigationChain} :
    d.load env chain = (d', none) ↔ chain.length ≤ env.settings.navigationDepth ∧
      ∃ result d₁, walk env chain.steps false d.result d = (result, d₁, none) ∧
        d' = { d₁ with result } := by
  rw [← Query.load_eq_ok, Query.load]
  rcases d.load env chain with ⟨d₂, failure⟩
  cases failure <;> simp

/-! A walk reads bindings and aliases, takes aliases and joins tables. All else in a draft it passes on,
so what is changed there can be changed before the walk or after it. -/

/-- The change has to do with nothing that a walk looks at or changes. -/
structure Overlooked (change : Draft → Draft) : Prop where
  bindings : ∀ d, (change d).bindings = d.bindings
  aliases : ∀ d, (change d).aliases = d.aliases
  sources : ∀ d, (change d).sources = d.sources
  withAliases : ∀ d aliases, change { d with aliases } = { change d with aliases }
  withSources : ∀ d sources, change { d with sources } = { change d with sources }

variable {change : Draft → Draft}

theorem stepPredicate_overlooked (hc : Overlooked change) (d : Draft) (env : Env) (related : Shape)
    (f : Option Lambda) :
    (change d).stepPredicate env related f = d.stepPredicate env related f := by
  cases f with
  | none => rfl
  | some f => simp only [stepPredicate, scopeOf, scope, hc.bindings, hc.aliases]

theorem attach_overlooked (hc : Overlooked change) (d : Draft) (env : Env) (owner : ObjectOf Shape)
    (step : NavigationStep) (link : Link) (label : String) :
    (change d).attach env owner step link label =
      (d.attach env owner step link label).map fun x => (change x.1, x.2) := by
  simp only [attach, stepPredicate_overlooked hc, hc.sources, ← hc.withSources]
  rcases Shape.keyOf owner link.association.thisKey with _ | ownerKey
  · rfl
  rcases Shape.keyOf (ObjectOf.ofEntity link.target label) link.association.otherKey with _ | relatedKey
  · rfl
  rcases d.stepPredicate env (.object (.ofEntity link.target label)) step.condition with _ | condition
  · rfl
  rcases d.stepPredicate env (.object (.ofEntity link.target label)) step.filter with _ | filter
  · rfl
  rfl

theorem takeStep_overlooked (hc : Overlooked change) (d : Draft) :
    (change d).takeStep env owner step below =
      (change (d.takeStep env owner step below).1, (d.takeStep env owner step below).2) := by
  unfold takeStep
  rcases inspect env owner step below with _ | ⟨many, _ | link⟩
  · rfl
  · cases owner.members.lookup step.property <;> rfl
  · simp only [hc.aliases, ← hc.withAliases, attach_overlooked hc]
    rcases attach { d with aliases := (d.aliases.reserve link.target.table).2 } env owner step link
      (d.aliases.reserve link.target.table).1 with _ | x
    · rfl
    · rfl

theorem walk_overlooked (hc : Overlooked change) (d : Draft) :
    walk env steps below shape (change d) =
      ((walk env steps below shape d).1, change (walk env steps below shape d).2.1,
        (walk env steps below shape d).2.2) := by
  induction steps generalizing below shape d with
  | nil => rfl
  | cons step steps ih =>
    unfold walk
    cases shape.owner? with
    | none => rfl
    | some owner =>
      simp only [takeStep_overlooked hc]
      rcases d.takeStep env owner step below with ⟨d₁, _ | ⟨owner', member, many⟩⟩
      · rfl
      · simp only [ih]

theorem walk_with_result (result : Shape) :
    walk env steps below shape { d with result } =
      ((walk env steps below shape d).1, { (walk env steps below shape d).2.1 with result },
        (walk env steps below shape d).2.2) := by
  have hc : Overlooked fun d => { d with result } :=
    ⟨fun _ => rfl, fun _ => rfl, fun _ => rfl, fun _ _ => rfl, fun _ _ => rfl⟩
  exact walk_overlooked hc d

/-! ## Loading again -/

/-- **A chain absorbs its parts.** Once a chain is loaded, chains along the same properties, or some
first of them, find everything in place and change nothing, whatever lambdas they carry. And loading
the first steps of a chain before it comes to the same as loading the chain at once. -/
theorem load_absorbs {chain : NavigationChain} (h : d.load env chain = (d', none)) :
    (∀ again : NavigationChain, again.steps.map (·.property) <+: chain.steps.map (·.property) →
      d'.load env again = (d', none)) ∧
    ∀ first : NavigationChain, first.steps <+: chain.steps →
      ∃ d₁, d.load env first = (d₁, none) ∧ d₁.load env chain = (d', none) := by
  obtain ⟨hdepth, result, d₂, hw, rfl⟩ := load_eq_none.mp h
  constructor
  · intro again hagain
    have hlength : again.length ≤ chain.length := by
      simpa [NavigationChain.length] using hagain.length_le
    have hwalk := walk_again hw hagain false { d₂ with result }
    exact load_eq_none.mpr ⟨hlength.trans hdepth, result, _, hwalk, rfl⟩
  · intro first hfirst
    have hlength : first.length ≤ chain.length := hfirst.length_le
    obtain ⟨rest, hrest⟩ := hfirst
    rw [← hrest] at hw
    obtain ⟨result₁, d₁, hw₁⟩ := walk_first hw
    refine ⟨{ d₁ with result := result₁ }, ?_, ?_⟩
    · exact load_eq_none.mpr ⟨hlength.trans hdepth, result₁, d₁, hw₁, rfl⟩
    · have hwalk := (walk_append hw₁).trans hw
      refine load_eq_none.mpr ⟨hdepth, result, { d₂ with result := result₁ }, ?_, rfl⟩
      rw [← hrest, walk_with_result, hwalk]

end Draft

namespace Sample

/-- The paid orders of users, each with its user. -/
def paidOrdersOf : NavigationChain :=
  ⟨[{ property := "orders", condition := some ⟨[x], .member (.param x) "paid"⟩ }, { property := "user" }]⟩

/-- The orders of users with their users, if these had a nickname, which they have not. -/
def nicknamed : NavigationChain :=
  ⟨[{ property := "orders" },
    { property := "user", filter := some ⟨[x], .member (.param x) "nickname"⟩ }]⟩

end Sample

namespace Draft

/-- The second chain cannot be loaded where the first is not, but here no lambda of it is read. -/
theorem load_absorbs_orders : ∃ q d' d₁, Query.build Sample.env "User" [] = .ok q ∧
    q.draft.load Sample.env Sample.paidOrdersOf = (d', none) ∧
    d'.sources.aliases = ["users", "orders", "users1"] ∧
    (q.draft.load Sample.env Sample.nicknamed).2.isSome = true ∧
    d'.load Sample.env Sample.nicknamed = (d', none) ∧
    q.draft.load Sample.env ⟨Sample.paidOrdersOf.steps.take 1⟩ = (d₁, none) ∧
    d₁.load Sample.env Sample.paidOrdersOf = (d', none) := by
  have h : (do
      let q ← Query.build Sample.env "User" []
      let loaded := q.draft.load Sample.env Sample.paidOrdersOf
      pure (loaded.2.isNone, loaded.1.sources.aliases,
        (q.draft.load Sample.env Sample.nicknamed).2.isSome) :
        Except CompileError (Bool × List String × Bool)) =
      .ok (true, ["users", "orders", "users1"], true) := ok_of_toOption (by decide +kernel)
  simp only [bind_eq_ok, pure_eq_ok, Prod.mk.injEq, Option.isNone_iff_eq_none] at h
  obtain ⟨q, hq, hnone, hnames, hfails⟩ := h
  have hload : q.draft.load Sample.env Sample.paidOrdersOf =
      ((q.draft.load Sample.env Sample.paidOrdersOf).1, none) := Prod.ext rfl hnone
  obtain ⟨hagain, hfirst⟩ := load_absorbs hload
  obtain ⟨d₁, hd₁, hrest⟩ := hfirst ⟨Sample.paidOrdersOf.steps.take 1⟩ (List.take_prefix 1 _)
  refine ⟨q, _, d₁, hq, hload, hnames, hfails, hagain Sample.nicknamed ?_, hd₁, hrest⟩
  exact List.prefix_refl _

/-! ## Chains that fail -/

variable {env : Env} {d d' : Draft} {owner : ObjectOf Shape} {step : NavigationStep} {below : Bool}
  {steps : List NavigationStep} {shape shape' : Shape}

/-- A step that fails has changed nothing, but for the alias of a table that it was about to join. -/
theorem takeStep_eq_error {e : CompileError} (h : d.takeStep env owner step below = (d', .error e)) :
    d' = d ∨ ∃ many link, inspect env owner step below = .ok (many, some link) ∧
      d' = { d with aliases := (d.aliases.reserve link.target.table).2 } := by
  unfold takeStep at h
  split at h
  · cases h
    exact .inl rfl
  · split at h
    · cases h
    · cases h
      exact .inl rfl
  · rename_i many link hi
    simp only at h
    split at h
    · cases h
      exact .inr ⟨many, link, hi, rfl⟩
    · cases h

/-- A walk that fails has taken the steps before the failure, and comes no further with other steps
after it. -/
theorem walk_eq_some {e : CompileError} (hw : walk env steps below shape d = (shape', d', some e)) :
    ∃ first step rest d₁, steps = first ++ step :: rest ∧
      walk env first below shape d = (shape', d₁, none) ∧
      (∀ others, walk env (first ++ step :: others) below shape d = (shape', d', some e)) ∧
      (d' = d₁ ∨ ∃ owner flag, shape'.nodeAt? (first.map (·.property)) = some owner ∧
        d₁.takeStep env owner step flag = (d', .error e)) := by
  induction steps generalizing below shape shape' d with
  | nil => cases hw
  | cons step steps ih =>
    cases ho : shape.owner? with
    | none =>
      have hstop : ∀ others, walk env (step :: others) below shape d =
          (shape, d, some (.unsupported (.notNavigation step.property))) := by
        intro others
        rw [walk, ho]
      rw [hstop steps] at hw
      cases hw
      exact ⟨[], step, steps, d', rfl, rfl, hstop, .inl rfl⟩
    | some owner =>
      rcases ht : d.takeStep env owner step below with ⟨d₁, e' | ⟨owner', member, many⟩⟩
      · have hstop : ∀ others, walk env (step :: others) below shape d = (shape, d₁, some e') := by
          intro others
          rw [walk, ho]
          simp only [ht]
        rw [hstop steps] at hw
        cases hw
        exact ⟨[], step, steps, d, rfl, rfl, hstop, .inr ⟨owner, below, ho, ht⟩⟩
      · rcases hrest : walk env steps (below || many) member d₁ with ⟨member', d₂, failure⟩
        rw [walk_cons_of_ok ho ht hrest] at hw
        cases hw
        obtain ⟨first, last, rest, d₃, rfl, hfirst, hstop, hlast⟩ := ih hrest
        refine ⟨step :: first, last, rest, d₃, rfl, walk_cons_of_ok ho ht hfirst, ?_, ?_⟩
        · exact fun others => walk_cons_of_ok ho ht (hstop others)
        · refine hlast.imp_right ?_
          rintro ⟨o, flag, hnode, htake⟩
          refine ⟨o, flag, ?_, htake⟩
          rw [List.map_cons, Shape.nodeAt?_cons (shape.owner_withOwner _)
            (owner'.lookup_withMember step.property member')]
          exact hnode

end Draft

theorem Aliases.reserve_fresh (a : Aliases) (base : String) :
    (a.reserve base).1 ∉ a.taken ∧ (a.reserve base).2.taken = a.taken ++ [(a.reserve base).1] ∧
      ((∀ label ∈ a.visible, label ∈ a.taken) →
        (a.reserve base).2.visible = a.visible ++ [(a.reserve base).1]) := by
  have hfresh := a.fresh_notMem base
  have hinsert : ∀ names : List String, a.fresh base ∉ names →
      Aliases.insert (a.fresh base) names = names ++ [a.fresh base] := by
    intro names hnames
    rw [Aliases.insert, if_neg (by simpa using hnames)]
  refine ⟨hfresh, hinsert a.taken hfresh, fun hvisible => hinsert a.visible ?_⟩
  exact fun hmem => hfresh (hvisible _ hmem)

namespace Draft

variable {env : Env} {d d' : Draft}

/-- **A chain that fails stops between two steps.** What is left behind is what a proper first part of
the chain loads on its own, down to every clause and name. Only an alias may have been taken besides,
the one that is fresh for the table of the step that failed. -/
theorem load_failure_leaves {chain : NavigationChain} {e : CompileError}
    (h : d.load env chain = (d', some e)) :
    ∃ first step rest d₁, chain.steps = first ++ step :: rest ∧ d.load env ⟨first⟩ = (d₁, none) ∧
      (d' = d₁ ∨
        ∃ owner p target, d₁.result.nodeAt? (first.map (·.property)) = some owner ∧
          env.navigation? owner step.property = some (p, target) ∧
          d.load env ⟨first ++ [step]⟩ = (d', some e) ∧
          d' = { d₁ with aliases := (d₁.aliases.reserve target.table).2 } ∧
          (d₁.aliases.reserve target.table).1 ∉ d₁.aliases.taken ∧
          d'.aliases.taken = d₁.aliases.taken ++ [(d₁.aliases.reserve target.table).1] ∧
          ((∀ label ∈ d₁.aliases.visible, label ∈ d₁.aliases.taken) →
            d'.aliases.visible = d₁.aliases.visible ++ [(d₁.aliases.reserve target.table).1])) := by
  unfold load at h
  by_cases hdepth : env.settings.navigationDepth < chain.length
  · -- A chain that is too long is refused before its first step.
    rw [if_pos hdepth] at h
    cases h
    cases hsteps : chain.steps with
    | nil =>
      rw [NavigationChain.length, hsteps] at hdepth
      exact absurd hdepth (Nat.not_lt_zero _)
    | cons step rest => exact ⟨[], step, rest, d, rfl, rfl, .inl rfl⟩
  · rw [if_neg hdepth] at h
    rcases hw : walk env chain.steps false d.result d with ⟨result, d₂, failure⟩
    rw [hw] at h
    cases h
    obtain ⟨first, step, rest, d₁, hsteps, hfirst, hstop, hlast⟩ := walk_eq_some hw
    have hlength : first.length + 1 ≤ env.settings.navigationDepth := by
      rw [NavigationChain.length, hsteps, List.length_append, List.length_cons] at hdepth
      omega
    refine ⟨first, step, rest, { d₁ with result }, hsteps, ?_, ?_⟩
    · refine load_eq_none.mpr ⟨?_, result, d₁, hfirst, rfl⟩
      exact Nat.le_of_succ_le hlength
    rcases hlast with rfl | ⟨owner, flag, hnode, htake⟩
    · exact .inl rfl
    rcases takeStep_eq_error htake with rfl | ⟨many, link, hi, rfl⟩
    · exact .inl rfl
    obtain ⟨p, hp, -⟩ := navigation?_of_inspect hi
    refine .inr ⟨owner, p, link.target, hnode, hp, ?_, rfl, d₁.aliases.reserve_fresh link.target.table⟩
    have hshort : ¬ env.settings.navigationDepth < (⟨first ++ [step]⟩ : NavigationChain).length := by
      rw [NavigationChain.length, List.length_append, List.length_singleton]
      omega
    rw [load, if_neg hshort, hstop []]

/-- Orders are loaded when their users are found to have no nickname, and the alias that was to be that
of their users is gone. -/
theorem load_failure_leaves_orders : ∃ q d' e, Query.build Sample.env "User" [] = .ok q ∧
    q.draft.load Sample.env Sample.nicknamed = (d', some e) ∧
    d'.sources.aliases = ["users", "orders"] ∧ d'.aliases.taken = ["users", "orders", "users1"] ∧
    ∃ first step rest d₁, Sample.nicknamed.steps = first ++ step :: rest ∧
      q.draft.load Sample.env ⟨first⟩ = (d₁, none) ∧
      (d' = d₁ ∨
        ∃ owner p target, d₁.result.nodeAt? (first.map (·.property)) = some owner ∧
          Sample.env.navigation? owner step.property = some (p, target) ∧
          q.draft.load Sample.env ⟨first ++ [step]⟩ = (d', some e) ∧
          d' = { d₁ with aliases := (d₁.aliases.reserve target.table).2 } ∧
          (d₁.aliases.reserve target.table).1 ∉ d₁.aliases.taken ∧
          d'.aliases.taken = d₁.aliases.taken ++ [(d₁.aliases.reserve target.table).1] ∧
          ((∀ label ∈ d₁.aliases.visible, label ∈ d₁.aliases.taken) →
            d'.aliases.visible = d₁.aliases.visible ++ [(d₁.aliases.reserve target.table).1])) := by
  have h : (do
      let q ← Query.build Sample.env "User" []
      let left := q.draft.load Sample.env Sample.nicknamed
      pure (left.2.isSome, left.1.sources.aliases, left.1.aliases.taken) :
        Except CompileError (Bool × List String × List String)) =
      .ok (true, ["users", "orders"], ["users", "orders", "users1"]) :=
    ok_of_toOption (by decide +kernel)
  simp only [bind_eq_ok, pure_eq_ok, Prod.mk.injEq] at h
  obtain ⟨q, hq, hsome, hnames, htaken⟩ := h
  obtain ⟨e, he⟩ := Option.isSome_iff_exists.mp hsome
  have hload : q.draft.load Sample.env Sample.nicknamed =
      ((q.draft.load Sample.env Sample.nicknamed).1, some e) := Prod.ext rfl he
  exact ⟨q, _, e, hq, hload, hnames, htaken, load_failure_leaves hload⟩

end Draft

end EntityQuery
