import EntityQuery.Proofs.Filters
import EntityQuery.Proofs.Invariants
import EntityQuery.Proofs.Transparency

/-! # What the stage of a query says about it

A query at the general stage has not been grouped, and one that was collapsed to an aggregate is
neither grouped nor sorted. Collections are there at the general stage only, and none is below
another one. Eager loading sees to the latter by what the catalog declares, so the proof keeps beside
it that every collection under an entity is declared as one. -/

namespace EntityQuery
set_option autoImplicit false

/-! ## Collections below collections -/

/-- If the entity is known, the catalog declares the navigation as a collection. -/
def Catalog.DeclaresMany (catalog : Catalog) (entity : Option String) (navigation : String) : Prop :=
  ∀ name, entity = some name → ∃ e p, catalog.entity? name = some e ∧
    e.property? navigation = some p ∧ p.kind = .collection

namespace Shape

mutual

/-- The elements of all collections in the shape, also of those below other collections. -/
def elements : Shape → List Shape
  | .scalar _ => []
  | .object ⟨_, _, members, _, _⟩ => memberElements members
  | .collection element _ _ => element :: elements element

def memberElements : List (String × Shape) → List Shape
  | [] => []
  | (_, s) :: ms => elements s ++ memberElements ms

end

mutual

/-- No collection is below another one, none is there at all where the shape is itself `below` one,
and collections under entities are declared. -/
def Nests (catalog : Catalog) (below : Bool) : Shape → Prop
  | .scalar _ => True
  | .object ⟨entity, _, members, _, _⟩ => NestsMembers catalog below entity members
  | .collection element _ _ => below = false ∧ Nests catalog true element

def NestsMembers (catalog : Catalog) (below : Bool) (entity : Option String) :
    List (String × Shape) → Prop
  | [] => True
  | (n, s) :: ms => (s.isCollection = true → catalog.DeclaresMany entity n) ∧
    Nests catalog below s ∧ NestsMembers catalog below entity ms

end

variable {catalog : Catalog} {below : Bool}

mutual

theorem nests_of_flat (below : Bool) : ∀ s : Shape, s.hasCollection = false → s.Nests catalog below
  | .scalar _, _ => trivial
  | .object ⟨entity, _, ms, _, _⟩, h => nestsMembers_of_flat below entity ms h
  | .collection .., h => by cases h

theorem nestsMembers_of_flat (below : Bool) (entity : Option String) :
    ∀ ms : List (String × Shape), anyCollection ms = false → NestsMembers catalog below entity ms
  | [], _ => trivial
  | (n, s) :: ms, h => by
    rw [anyCollection, Bool.or_eq_false_iff] at h
    refine ⟨?_, nests_of_flat below s h.1, nestsMembers_of_flat below entity ms h.2⟩
    intro hs
    cases s with
    | scalar _ => cases hs
    | object _ => cases hs
    | collection _ _ _ => cases h.1

end

mutual

theorem Nests.flat : ∀ s : Shape, s.Nests catalog true → s.hasCollection = false
  | .scalar _, _ => rfl
  | .object ⟨_, _, ms, _, _⟩, h => NestsMembers.flat ms h
  | .collection .., h => by cases h.1

theorem NestsMembers.flat {entity : Option String} : ∀ ms : List (String × Shape),
    NestsMembers catalog true entity ms → anyCollection ms = false
  | [], _ => rfl
  | (_, s) :: ms, h => by
    rw [anyCollection, Nests.flat s h.2.1, NestsMembers.flat ms h.2.2]
    rfl

end

mutual

theorem Nests.elements_flat : ∀ (below : Bool) (s : Shape), s.Nests catalog below →
    ∀ e ∈ s.elements, e.hasCollection = false
  | _, .scalar _, _, _, he => by cases he
  | below, .object ⟨_, _, ms, _, _⟩, h, e, he => NestsMembers.elements_flat below ms h e he
  | _, .collection s _ _, h, e, he => by
    rcases List.mem_cons.mp he with rfl | he
    · exact Nests.flat e h.2
    · exact Nests.elements_flat true s h.2 e he

theorem NestsMembers.elements_flat {entity : Option String} : ∀ (below : Bool)
    (ms : List (String × Shape)), NestsMembers catalog below entity ms →
      ∀ e ∈ memberElements ms, e.hasCollection = false
  | _, [], _, _, he => by cases he
  | below, (_, s) :: ms, h, e, he => by
    rw [memberElements, List.mem_append] at he
    rcases he with he | he
    · exact Nests.elements_flat below s h.2.1 e he
    · exact NestsMembers.elements_flat below ms h.2.2 e he

end

theorem NestsMembers.lookup {entity : Option String} {ms : List (String × Shape)} {n : String}
    {m : Shape} (h : NestsMembers catalog below entity ms) (hm : ms.lookup n = some m) :
    (m.isCollection = true → catalog.DeclaresMany entity n) ∧ m.Nests catalog below := by
  induction ms with
  | nil => cases hm
  | cons x ms ih =>
    obtain ⟨n', s⟩ := x
    rw [List.lookup_cons] at hm
    by_cases hn : n = n'
    · rw [hn, beq_self_eq_true] at hm
      cases hm
      rw [hn]
      exact ⟨h.1, h.2.1⟩
    · rw [beq_false_of_ne hn] at hm
      exact ih h.2.2 hm

theorem NestsMembers.put {entity : Option String} {ms : List (String × Shape)} {n : String}
    {m : Shape} (h : NestsMembers catalog below entity ms)
    (hd : m.isCollection = true → catalog.DeclaresMany entity n) (hm : m.Nests catalog below) :
    NestsMembers catalog below entity (Entries.put n m ms) := by
  induction ms with
  | nil => exact ⟨hd, hm, trivial⟩
  | cons x ms ih =>
    obtain ⟨n', s⟩ := x
    by_cases hn : n = n'
    · rw [hn] at hd
      rw [Entries.put, if_pos (by rw [hn]; exact beq_self_eq_true n')]
      exact ⟨hd, hm, h.2.2⟩
    · rw [Entries.put, if_neg (by rw [beq_false_of_ne hn]; exact Bool.false_ne_true)]
      exact ⟨h.1, h.2.1, ih h.2.2⟩

theorem Nests.owner {s : Shape} {o : ObjectOf Shape} (h : s.Nests catalog below)
    (ho : s.owner? = some o) :
    NestsMembers catalog (below || s.isCollection) o.entity o.members := by
  unfold owner? at ho
  split at ho
  · cases ho
    change NestsMembers catalog (below || false) o.entity o.members
    rw [Bool.or_false]
    exact h
  · cases ho
    change NestsMembers catalog (below || true) o.entity o.members
    rw [Bool.or_true]
    exact h.2
  · cases ho

theorem Nests.withOwner {s : Shape} {o : ObjectOf Shape} (h : s.Nests catalog below)
    (ho : NestsMembers catalog (below || s.isCollection) o.entity o.members) :
    (s.withOwner o).Nests catalog below := by
  cases s with
  | scalar _ =>
    change NestsMembers catalog (below || false) o.entity o.members at ho
    rwa [Bool.or_false] at ho
  | object _ =>
    change NestsMembers catalog (below || false) o.entity o.members at ho
    rwa [Bool.or_false] at ho
  | collection _ _ _ =>
    change NestsMembers catalog (below || true) o.entity o.members at ho
    rw [Bool.or_true] at ho
    exact ⟨h.1, ho⟩

end Shape

/-! ## Loading -/

namespace Draft

variable {env : Env} {d d' : Draft} {below flag : Bool}

theorem isCollection_relatedShape (many : Bool) (o : ObjectOf Shape) (c f : Option Sql.Expr) :
    (relatedShape many o c f).isCollection = many := by
  cases many <;> rfl

theorem many_of_inspect {owner : ObjectOf Shape} {step : NavigationStep} {many : Bool} {m : Shape}
    (hi : inspect env owner step flag = .ok (many, none))
    (hm : owner.members.lookup step.property = some m)
    (hd : m.isCollection = true → env.catalog.DeclaresMany owner.entity step.property)
    (hc : m.isCollection = true) : many = true := by
  rcases inspect_eq_none hi with ⟨-, s, hs, rfl⟩ | ⟨name, entity, p, hname, he, hp, -, rfl, -⟩
  · rw [hm] at hs
    cases hs
    exact hc
  · obtain ⟨e', p', he', hp', hkind⟩ := hd hc name hname
    rw [he] at he'
    cases he'
    rw [hp] at hp'
    cases hp'
    rw [hkind]
    rfl

/-- A step below a collection, which `flag` knows of, adds no collection. -/
theorem nests_takeStep {owner owner' : ObjectOf Shape} {step : NavigationStep} {many : Bool}
    {m : Shape} (ho : Shape.NestsMembers env.catalog below owner.entity owner.members)
    (hflag : below = true → flag = true)
    (ht : d.takeStep env owner step flag = (d', .ok (owner', m, many))) :
    owner'.entity = owner.entity ∧
      Shape.NestsMembers env.catalog below owner'.entity owner'.members ∧
      m.Nests env.catalog below ∧ (m.isCollection = true → many = true) ∧
      (m.isCollection = true → env.catalog.DeclaresMany owner.entity step.property) := by
  rcases takeStep_eq_ok ht with ⟨hi, rfl, rfl, hm⟩ |
    ⟨link, k, k', c, f, hi, -, -, -, -, rfl, rfl, rfl⟩
  · obtain ⟨hd, hn⟩ := ho.lookup hm
    exact ⟨rfl, ho, hn, many_of_inspect hi hm hd, hd⟩
  · obtain ⟨name, entity, p, -, hname, he, hp, -, hmany, -, hguard, -, -, -, hlink⟩ :=
      inspect_eq_link hi
    have helement := Shape.flat_ofEntity link.target (d.aliases.fresh link.target.table)
    have hnests : (relatedShape link.many
        (.ofEntity link.target (d.aliases.fresh link.target.table)) c f).Nests env.catalog below := by
      rw [hlink]
      cases many with
      | false => exact Shape.nestsMembers_of_flat below _ _ helement
      | true =>
        refine ⟨?_, Shape.nestsMembers_of_flat true _ _ helement⟩
        rw [Bool.true_and] at hguard
        cases below with
        | false => rfl
        | true => rw [hflag rfl] at hguard; cases hguard
    have hdeclared : (relatedShape link.many
        (.ofEntity link.target (d.aliases.fresh link.target.table)) c f).isCollection = true →
        env.catalog.DeclaresMany owner.entity step.property := by
      rw [isCollection_relatedShape, hlink, hmany, beq_iff_eq]
      intro hkind name' hname'
      rw [hname] at hname'
      cases hname'
      exact ⟨entity, p, he, hp, hkind⟩
    refine ⟨rfl, ho.put hdeclared hnests, hnests, ?_, hdeclared⟩
    rw [isCollection_relatedShape, hlink]
    exact id

theorem nests_walk {steps : List NavigationStep} {s s' : Shape} (hs : s.Nests env.catalog below)
    (hflag : (below || s.isCollection) = true → flag = true)
    (hw : walk env steps flag s d = (s', d', none)) :
    s'.Nests env.catalog below ∧ s'.isCollection = s.isCollection := by
  induction steps generalizing below flag s s' d with
  | nil =>
    cases hw
    exact ⟨hs, rfl⟩
  | cons step steps ih =>
    obtain ⟨owner, d₁, owner', m, many, m', ho, ht, hrest, rfl⟩ := walk_cons_eq_none hw
    obtain ⟨hentity, howner, hm, hmany, hdeclared⟩ := nests_takeStep (hs.owner ho) hflag ht
    -- What comes next is as far below collections as the owner is; the member itself may be one.
    have hnext : ((below || s.isCollection) || m.isCollection) = true → (flag || many) = true := by
      rw [Bool.or_eq_true _ m.isCollection, Bool.or_eq_true flag]
      exact Or.imp hflag hmany
    obtain ⟨hm', hsame⟩ := ih hm hnext hrest
    refine ⟨hs.withOwner (howner.put ?_ hm'), Shape.isCollection_withOwner ho _⟩
    rw [hsame, hentity]
    exact hdeclared

end Draft

/-! ## Queries -/

theorem Stage.unpaged_of_merges {s : Stage} (h : s.merges = true) :
    s.skips = false ∧ s.takes = false := by
  cases s with
  | distinct => exact ⟨rfl, rfl⟩
  | _ => cases h

namespace Query

variable {env : Env} {q q' : Query} {op : Operator}

/-- Only grouping fills the clauses of groups, and it leaves the general stage. -/
structure Ungrouped (q : Query) : Prop where
  ungrouped : q.stage = .general ∨ q.stage = .aggregate → q.draft.groupBy = [] ∧ q.draft.having = none
  unsorted : q.stage = .aggregate → q.draft.orderings = []

theorem Extends.ungrouped {d : Draft} (hd : d.groupBy = [] ∧ d.having = none)
    (h : Extends env d op q') : q'.Ungrouped := by
  cases h with
  | filter hf =>
    obtain ⟨p, e, -, -, rfl⟩ := Draft.filter_eq_ok.mp hf
    exact ⟨fun _ => hd, fun hs => by cases hs⟩
  | orderBy hf =>
    obtain ⟨p, e, -, -, rfl⟩ := Draft.orderBy_eq_ok.mp hf
    refine ⟨fun _ => ?_, fun hs => by cases hs⟩
    split <;> exact hd
  | select hf =>
    obtain ⟨-, p, result, -, -, rfl⟩ := Draft.select_eq_ok.mp hf
    exact ⟨fun _ => hd, fun hs => by cases hs⟩
  | skip _ => exact ⟨by simp, by simp⟩
  | take _ => exact ⟨by simp, by simp⟩
  | distinct _ => exact ⟨by simp, by simp⟩
  | aggregate hf =>
    obtain ⟨-, -, es, -, rfl⟩ := Draft.aggregate_eq_ok.mp hf
    exact ⟨fun _ => ⟨rfl, rfl⟩, fun _ => rfl⟩
  | groupBy _ => exact ⟨by simp, by simp⟩
  | load hl =>
    rw [(Draft.load_joins hl).1]
    exact ⟨fun _ => hd, fun hs => by cases hs⟩

theorem Adds.ungrouped (hq : q.Ungrouped) (h : Adds env q op q') : q'.Ungrouped := by
  cases h with
  | extend hs he => exact he.ungrouped (hq.ungrouped (.inl hs))
  | move hm =>
    obtain ⟨hgeneral, haggregate⟩ := hm.leaves
    exact ⟨fun hs => (hs.elim hgeneral haggregate).elim, fun hs => (haggregate hs).elim⟩
  | select hs hf =>
    obtain ⟨-, p, result, -, -, rfl⟩ := Draft.select_eq_ok.mp hf
    exact ⟨hq.ungrouped, hq.unsorted⟩
  | join hs _ _ _ _ _ => exact ⟨fun _ => hq.ungrouped (.inl hs), fun hs => by cases hs⟩

theorem Adds.result (hb : q.draft.bindings = {})
    (hflat : op.isJoin = true → q.draft.result.hasCollection = false)
    (h : Adds env q op q') (hop : ∀ chain, op ≠ .load chain) :
    q'.draft.result = q.draft.result ∨ q'.draft.result.hasCollection = false := by
  cases h with
  | extend _ he =>
    cases he with
    | filter hf =>
      obtain ⟨p, e, -, -, rfl⟩ := Draft.filter_eq_ok.mp hf
      exact .inl rfl
    | orderBy hf =>
      obtain ⟨p, e, -, -, rfl⟩ := Draft.orderBy_eq_ok.mp hf
      left
      split <;> rfl
    | select hf => exact .inr (Draft.flat_select hb hf)
    | skip _ => exact .inl rfl
    | take _ => exact .inl rfl
    | distinct _ => exact .inl rfl
    | aggregate hf =>
      obtain ⟨-, -, es, -, rfl⟩ := Draft.aggregate_eq_ok.mp hf
      exact .inr rfl
    | groupBy hg => exact .inr (Draft.flat_group hb hg)
    | load _ => exact absurd rfl (hop _)
  | move _ => exact .inl rfl
  | select _ hf => exact .inr (Draft.flat_select hb hf)
  | @join _ inner _ selector _ _ r r' _ result _ hi _ _ _ hr =>
    have hinner := (inner.hasCollection_wrap env (joinedLabel q.draft env)).trans hi
    rw [hb] at hr
    exact .inr (Scope.shape_flat (((Scope.flat_empty _ _).bind (hflat rfl) r).bind hinner r')
      selector.body 0 result hr)

/-- The result is no collection, and has none below another. -/
structure Shallow (env : Env) (q : Query) : Prop where
  nests : q.draft.result.Nests env.catalog false
  single : q.draft.result.isCollection = false

theorem shallow_of_flat (h : q.draft.result.hasCollection = false) : q.Shallow env where
  nests := Shape.nests_of_flat false _ h
  single := by
    cases hr : q.draft.result with
    | scalar _ => rfl
    | object _ => rfl
    | collection _ _ _ =>
      rw [hr] at h
      cases h

theorem Shallow.adds (hb : q.draft.bindings = {})
    (hflat : op.isJoin = true → q.draft.result.hasCollection = false) (hq : q.Shallow env)
    (h : Adds env q op q') : q'.Shallow env := by
  by_cases hop : ∃ chain, op = .load chain
  · obtain ⟨chain, rfl⟩ := hop
    cases h with
    | extend _ he =>
      cases he with
      | load hl =>
        obtain ⟨-, result, d₁, hw, rfl⟩ := load_eq_ok.mp hl
        have hflag : (false || q.draft.result.isCollection) = true → false = true := by
          rw [hq.single]
          exact id
        obtain ⟨hn, hsame⟩ := Draft.nests_walk hq.nests hflag hw
        exact ⟨hn, hsame.trans hq.single⟩
    | move hm => rcases hm.operator with ⟨_, hload⟩ | ⟨_, hload⟩ | hload <;> cases hload
  · rcases h.result hb hflat fun chain hc => hop ⟨chain, hc⟩ with hsame | hflat'
    · refine ⟨?_, ?_⟩ <;> rw [hsame]
      · exact hq.nests
      · exact hq.single
    · exact shallow_of_flat hflat'

theorem Reachable.ungrouped_shallow (h : Reachable env q) : q.Ungrouped ∧ q.Shallow env := by
  induction h with
  | root hr =>
    obtain ⟨e, -, rfl⟩ := root_eq_ok.mp hr
    exact ⟨⟨fun _ => ⟨rfl, rfl⟩, fun _ => rfl⟩, shallow_of_flat (Shape.flat_ofEntity _ _)⟩
  | @accept q q' op hq _ ha ih _ =>
    obtain ⟨hflat, hadds, -⟩ := adds_of_accept ha
    by_cases hp : q.stage.promotes op = true
    · rw [host_of_promotes hp] at hadds
      have hresult : (q.promoted env).result.hasCollection = false :=
        (q.hasCollection_wrap env _).trans (hflat hp)
      have hungrouped : Ungrouped { draft := q.promoted env } :=
        ⟨fun _ => ⟨rfl, rfl⟩, fun hs => by cases hs⟩
      exact ⟨hadds.ungrouped hungrouped, (shallow_of_flat hresult).adds
        (hq.tidy.promoted env).bindings (fun _ => hresult) hadds⟩
    · rw [host_of_stays hp] at hadds
      refine ⟨hadds.ungrouped ih.1, ih.2.adds hq.tidy.bindings ?_ hadds⟩
      intro hjoin
      -- A join never adds to the statement at hand.
      cases op with
      | join => exact absurd rfl hp
      | _ => cases hjoin

/-- What the stage of a query says about its draft, and what holds at every stage. -/
structure Regular (q : Query) : Prop extends q.Ungrouped where
  general : q.draft.result.hasCollection = true → q.stage = .general
  shallow : ∀ e ∈ q.draft.result.elements, e.hasCollection = false
  visible : q.draft.aliases.visible = q.draft.sources.aliases

theorem Reachable.regular (h : Reachable env q) : q.Regular where
  toUngrouped := h.ungrouped_shallow.1
  general hc := by
    by_contra hs
    rw [h.tidy.flat hs] at hc
    cases hc
  shallow := h.ungrouped_shallow.2.nests.elements_flat
  visible := h.tidy.named.visible

theorem Gives.unpaged {st : Sql.Statement} (h : q.Gives st) (hd : st.distinct = true) :
    st.skip = none ∧ st.take = none := by
  rw [h.clauses] at hd ⊢
  obtain ⟨hskips, htakes⟩ := Stage.unpaged_of_merges (q.statement_distinct ▸ hd)
  rw [← q.statement_skip] at hskips
  rw [← q.statement_take] at htakes
  exact ⟨by simpa using hskips, by simpa using htakes⟩

/-- **Every query is as its stage says.** Grouping clauses and orderings are there only at the stages
that have them, collections at the general stage only and never below each other, and the visible
aliases are those of the sources. So a query that has left the general stage can always be wrapped,
and no statement of the compiled tree both merges equal rows and leaves rows out. -/
theorem build_regular {entity : String} {ops : List Operator} (hops : ∀ op ∈ ops, op.Built env)
    (h : build env entity ops = .ok q) :
    q.Regular ∧ (q.stage ≠ .general → ∃ q', q.asSubquery env = .ok q') ∧
      ∃ m, compile env entity ops = .ok m ∧
        ∀ st ∈ m.statement.nested, st.distinct = true → st.skip = none ∧ st.take = none := by
  have hq := reachable_of_build hops h
  refine ⟨hq.regular, ?_, Mapping.ofQuery env q, ?_, ?_⟩
  · intro hs
    exact ⟨_, asSubquery_of_flat (hq.tidy.flat hs)⟩
  · exact compile_eq_ok.mpr ⟨q, h, rfl⟩
  · intro st hst
    obtain ⟨q', -, hgives⟩ := compile_nested_reachable hops (compile_eq_ok.mpr ⟨q, h, rfl⟩) st hst
    exact hgives.unpaged

theorem build_regular_users : ∃ users inner adults,
    build Sample.env "User"
      [.load ⟨[{ property := "orders" }, { property := "user" }]⟩, .load ⟨[{ property := "city" }]⟩] =
        .ok users ∧
    users.draft.result.elements.length = 1 ∧ users.Regular ∧
    build Sample.env "Order" Sample.paidOrders = .ok inner ∧
    build Sample.env "User" (Sample.adultsWith inner ++ [.take 5]) = .ok adults ∧
    adults.stage = .take 5 ∧ (∃ q', adults.asSubquery Sample.env = .ok q') ∧
    ∃ m, compile Sample.env "User" (Sample.adultsWith inner ++ [.take 5]) = .ok m ∧
      m.statement.nested.map (fun st => (st.distinct, st.skip, st.take)) =
        [(false, none, some 5), (true, none, none), (false, some 2, none), (false, none, some 3)] ∧
      ∀ st ∈ m.statement.nested, st.distinct = true → st.skip = none ∧ st.take = none := by
  have husers : (do
      let users ← build Sample.env "User"
        [.load ⟨[{ property := "orders" }, { property := "user" }]⟩, .load ⟨[{ property := "city" }]⟩]
      pure users.draft.result.elements.length : Except CompileError Nat) = .ok 1 :=
    ok_of_toOption (by decide +kernel)
  have hadults : (do
      let inner ← build Sample.env "Order" Sample.paidOrders
      let adults ← build Sample.env "User" (Sample.adultsWith inner ++ [.take 5])
      pure (adults.stage, (Mapping.ofQuery Sample.env adults).statement.nested.map
        (fun st => (st.distinct, st.skip, st.take))) :
        Except CompileError (Stage × List (Bool × Option Nat × Option Nat))) =
      .ok (.take 5,
        [(false, none, some 5), (true, none, none), (false, some 2, none), (false, none, some 3)]) :=
    ok_of_toOption (by decide +kernel)
  simp only [bind_eq_ok, pure_eq_ok, Prod.mk.injEq] at husers hadults
  obtain ⟨users, husers, helements⟩ := husers
  obtain ⟨inner, hinner, adults, hadults, hstage, hpages⟩ := hadults
  have hbuilt : ∀ op ∈ Sample.adultsWith inner ++ [.take 5], op.Built Sample.env := by
    have hi : Reachable Sample.env inner :=
      reachable_of_build (by simp [Sample.paidOrders, Operator.Built]) hinner
    intro op hop
    rcases List.mem_append.mp hop with hop | hop
    · exact Sample.adultsWith_built hi op hop
    · rw [List.mem_singleton.mp hop]
      simp [Operator.Built]
  obtain ⟨-, hsubquery, m, hm, hmerged⟩ := build_regular hbuilt hadults
  have hsame : m = Mapping.ofQuery Sample.env adults := by
    have hcompile := compile_eq_ok.mpr ⟨adults, hadults, rfl⟩
    rw [hm] at hcompile
    cases hcompile
    rfl
  refine ⟨users, inner, adults, husers, helements, ?_, hinner, hadults, hstage, ?_, m, hm, ?_, hmerged⟩
  · exact (build_regular (by simp [Operator.Built]) husers).1
  · exact hsubquery (by rw [hstage]; simp)
  · rw [hsame]
    exact hpages

end Query

end EntityQuery
