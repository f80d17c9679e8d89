import EntityQuery.Proofs.LeftJoins
import EntityQuery.Proofs.Resolution

/-! # Loading chains

A chain is walked from the root of the result. A step that is loaded already is walked through; a
new one joins a table whose rows, by the join condition, are the related ones, and hangs the
target's columns into the result. So loading chains keeps the rows in blocks, and the result is the
tree of what is loaded. -/

namespace EntityQuery
set_option autoImplicit false

variable {I : Interpretation} {db : Database} {env : Env}

/-! ## Entities -/

namespace Entity

variable {e : Entity}

theorem nodup_primitives (h : e.WellFormed) : (e.primitives.map (·.name)).Nodup := by
  have hnames : e.properties.map (·.1) = (e.properties.map (·.2)).map (·.name) := by
    rw [List.map_map]
    exact List.map_congr_left h.named
  have hall : ((e.properties.map (·.2)).map (·.name)).Nodup := hnames ▸ h.distinct
  exact hall.sublist (List.filter_sublist.map _)

theorem property?_of_key (h : e.badKey? = none) {k : String} (hk : k ∈ e.key) :
    ∃ p, e.property? k = some p ∧ p.kind = .primitive := by
  have hgood := List.find?_eq_none.mp h k hk
  rw [Bool.not_eq_true, Bool.not_eq_false', Option.any_eq_true] at hgood
  obtain ⟨p, hp, hkind⟩ := hgood
  exact ⟨p, hp, of_decide_eq_true hkind⟩

theorem property?_of_mem (h : e.WellFormed) {q : String × Property} (hq : q ∈ e.properties) :
    e.property? q.2.name = some q.2 := by
  rw [← h.named q hq]
  exact Entries.lookup_of_mem h.distinct hq

end Entity

theorem Entries.ofList_of_nodup {κ β : Type} [BEq κ] [LawfulBEq κ] {es : List (κ × β)}
    (h : (es.map (·.1)).Nodup) : Entries.ofList es = es := by
  suffices hs : ∀ done : List (κ × β), ((done ++ es).map (·.1)).Nodup →
      es.foldl (fun t e => Entries.put e.1 e.2 t) done = done ++ es from hs [] h
  clear h
  induction es with
  | nil => intro done _; exact (List.append_nil done).symm
  | cons e es ih =>
    intro done hd
    have hnew : Entries.has e.1 done = false := by
      rw [Entries.has, Option.isSome_eq_false_iff, Option.isNone_iff_eq_none,
        List.lookup_eq_none_iff]
      intro q hq
      rw [bne_iff_ne]
      intro heq
      rw [List.map_append, List.map_cons] at hd
      exact (List.disjoint_of_nodup_append hd) (List.mem_map_of_mem hq) (heq ▸ List.mem_cons_self ..)
    rw [List.foldl_cons, Entries.put_of_not_has hnew, ih _ (by rwa [List.append_assoc]),
      List.append_assoc]
    rfl

theorem Entries.put_append_of_not_has {κ β : Type} [BEq κ] {k : κ} {es : List (κ × β)}
    (h : es.lookup k = none) (v : β) (es' : List (κ × β)) :
    Entries.put k v (es ++ es') = es ++ Entries.put k v es' := by
  induction es with
  | nil => rfl
  | cons e es ih =>
    rw [List.lookup_cons] at h
    split at h
    · cases h
    · rename_i hk
      rw [List.cons_append, Entries.put, hk, if_neg Bool.false_ne_true, ih h]
      rfl

namespace ObjectOf

variable {e : Entity} {label : String}

theorem members_of_wellFormed (h : e.WellFormed) (label : String) :
    (ObjectOf.ofEntity e label).members =
      e.primitives.map fun p => (p.name, .scalar (.column ⟨label, p.columnName⟩)) := by
  rw [(members_ofEntity e label).1, Entries.ofList_of_nodup]
  rw [List.map_map]
  exact e.nodup_primitives h

theorem entity_ofEntity (e : Entity) (label : String) :
    (ObjectOf.ofEntity e label).entity = some e.name := by
  unfold ObjectOf.ofEntity
  suffices h : ∀ (ps : List Property) (o : ObjectOf Shape),
      (ps.foldl (fun o p => o.withMember p.name (.scalar (.column ⟨label, p.columnName⟩))) o).entity =
        o.entity from h e.primitives _
  intro ps
  induction ps with
  | nil => intro o; rfl
  | cons p ps ih => intro o; exact ih _

theorem lookup_navigation (h : e.WellFormed) {name : String} {p : Property}
    (hp : e.property? name = some p) (hnav : p.kind.isNavigation = true) :
    (ObjectOf.ofEntity e label).members.lookup name = none := by
  rw [members_of_wellFormed h, List.lookup_eq_none_iff]
  intro m hm
  obtain ⟨p', hp', rfl⟩ := List.mem_map.mp hm
  obtain ⟨hmem, hkind⟩ := List.mem_filter.mp hp'
  obtain ⟨q, hq, rfl⟩ := List.mem_map.mp hmem
  rw [bne_iff_ne]
  rintro rfl
  rw [Entity.property?_of_mem h hq, Option.some.injEq] at hp
  rw [← hp, of_decide_eq_true hkind] at hnav
  cases hnav

end ObjectOf

theorem Entity.link?_eq_some {catalog : Catalog} {e : Entity} {name : String} {link : Draft.Link} :
    e.link? catalog name = some link ↔ ∃ p target, e.property? name = some p ∧
      p.kind.isNavigation = true ∧ link.many = (p.kind == .collection) ∧
      p.association = some link.association ∧ p.target = some target ∧
      catalog.entity? target = some link.target := by
  obtain ⟨many, target, association⟩ := link
  simp only [link?, Option.bind_eq_bind, Option.bind_eq_some_iff, Option.ite_none_right_eq_some,
    Option.some.injEq, Draft.Link.mk.injEq]
  constructor
  · rintro ⟨p, hp, a, ha, t, ⟨n, hn, ht⟩, hnav, hmany, rfl, rfl⟩
    exact ⟨p, n, hp, hnav, hmany.symm, ha, hn, ht⟩
  · rintro ⟨p, n, hp, hnav, hmany, ha, hn, ht⟩
    exact ⟨p, hp, association, ha, target, ⟨n, hn, ht⟩, hnav, hmany.symm, rfl, rfl⟩

/-! ## Join conditions -/

theorem Sql.Valuation.bind_row (v : Sql.Valuation) (label : String) : v.bind label (v.row label) = v := by
  funext c
  simp only [Sql.Valuation.bind, Sql.Valuation.row]
  split
  · rename_i h
    rw [← h]
  · rfl

theorem Shape.eval_key {e : Entity} {label key : String} {x : Sql.Expr}
    (h : (ObjectOf.ofEntity e label).members.lookup key = some (.scalar x)) (v : Sql.Valuation) :
    x.eval I [v] = ((Datum.ofEntity e (v.row label)).member key).value := by
  have hdatum := Shape.datum_ofEntity (I := I) e label v (v.row label)
  have hmember : (Shape.object (.ofEntity e label)).member? key = some (.scalar x) := h
  rw [v.bind_row] at hdatum
  rw [← hdatum, Shape.datum_member hmember]
  rfl

theorem Datum.value_nullRow (e : Entity) (key : String) :
    ((Datum.ofEntity e nullRow).member key).value = .null := by
  have hmembers : Entries.ofList (e.primitives.map fun p => (p.name, Datum.scalar (nullRow p.columnName))) =
      (Entries.ofList (e.primitives.map fun p => (p.name, p))).map
        fun m => (m.1, Datum.scalar .null) := by
    rw [Entries.map_ofList (fun _ => Datum.scalar .null), List.map_map]
    rfl
  rw [Datum.ofEntity, hmembers, Datum.member, Entries.lookup_map (fun _ => Datum.scalar .null)]
  cases (Entries.ofList (e.primitives.map fun p => (p.name, p))).lookup key <;> rfl

theorem related_nullRow (hnull : ∀ v, I.compare .eq .null v ≠ some true) (step : NavigationStep)
    (e : Entity) (link : Draft.Link) {row : String → Json} (hrow : row = nullRow) :
    step.related I db e link row = [] := by
  refine List.filter_eq_nil_iff.mpr fun r _ => ?_
  rw [NavigationStep.relates, hrow, Datum.value_nullRow]
  simp [hnull]

namespace Draft

variable {d : Draft} {label : String} {target : Entity}

theorem truth_stepPredicate (hI : I.Lawful) (hb : d.bindings = {}) {f : Option Lambda}
    {r : Option Sql.Expr} (hf : ∀ g ∈ f, g.body.hasAggregate = false)
    (h : d.stepPredicate env (.object (.ofEntity target label)) f = .ok r) (v : Sql.Valuation)
    (row : String → Json) :
    (∀ e ∈ r, e.truth I [v.bind label row] = some true) ↔
      NavigationStep.admits I f (Datum.ofEntity target row) = true := by
  rcases stepPredicate_eq_ok.mp h with ⟨rfl, rfl⟩ | ⟨g, p, e, rfl, hp, he, rfl⟩
  · simp [NavigationStep.admits]
  · have hnull : ∀ x ∈ (Shape.object (.ofEntity target label)).scalars, Scope.NotNull x := by
      intro x hx
      obtain ⟨p, -, rfl⟩ := Shape.scalars_ofEntity hx
      rfl
    rw [hb] at he
    have heval := Scope.expression_eval hI ((Bindings.All.empty _).bind hnull p) (hf g rfl) he
      [v.bind label row]
    have hdatum := Shape.datum_ofEntity (I := I) target label v row
    have hlambda : g.eval I [Datum.ofEntity target row] = .scalar (e.eval I [v.bind label row]) := by
      rw [Lambda.eval_one hp, ← hdatum]
      exact heval
    simp [NavigationStep.admits, hlambda, Sql.Expr.truth_asPredicate hI, Datum.value]

/-- A join condition is true if the keys are equal and all that is asked for besides is true. -/
theorem truth_linkCondition {ownerKey relatedKey : Sql.Expr} {condition filter : Option Sql.Expr}
    {g : List Sql.Valuation} :
    (linkCondition ownerKey relatedKey condition filter).truth I g = some true ↔
      I.compare .eq (ownerKey.eval I g) (relatedKey.eval I g) = some true ∧
        (∀ e ∈ condition, e.truth I g = some true) ∧ ∀ e ∈ filter, e.truth I g = some true := by
  have hcompare : (Sql.Expr.compare .eq ownerKey relatedKey).truth I g =
      I.compare .eq (ownerKey.eval I g) (relatedKey.eval I g) := by
    rw [Sql.Expr.truth, Sql.Expr.eval, Truth.truth_value]
  have hfold : ∀ (es : List Sql.Expr) (e : Sql.Expr),
      (es.foldl (fun e more => Sql.Expr.andAlso (some e) more) e).truth I g = some true ↔
        e.truth I g = some true ∧ ∀ x ∈ es, x.truth I g = some true := by
    intro es
    induction es with
    | nil => intro e; simp
    | cons x es ih =>
      intro e
      rw [List.foldl_cons, ih, Sql.Expr.truth_andAlso]
      simp [Truth.and_eq_true, and_assoc]
  rw [linkCondition, hfold, hcompare]
  simp [List.mem_append, or_imp, forall_and]

end Draft

/-! ## Invariant -/

open Placed (Node)

/-- Where a step can start: at the root, or at what a navigation has led to. -/
def Located (root : Entity) (label : String) (ns : List Node) (e : Entity) (l : String)
    (outer : Bool) : Prop :=
  (e = root ∧ l = label ∧ outer = true) ∨
    ∃ n ∈ ns, n.link.target = e ∧ n.label = l ∧ outer = (n.outer && !n.link.many)

/-- The tables of some navigations have been joined to that of the root, and nothing else has been
done. -/
structure Loaded (I : Interpretation) (db : Database) (root : Entity) (label : String) (d : Draft)
    (ns : List Node) : Prop where
  bindings : d.bindings = {}
  condition : d.condition = none
  groupBy : d.groupBy = []
  having : d.having = none
  orderings : d.orderings = []
  labelTaken : label ∈ d.aliases.taken
  taken : ∀ n ∈ ns, n.label ∈ d.aliases.taken ∧ n.ownerLabel ∈ d.aliases.taken
  nested : ∀ n ∈ ns, n.outer = false → n.link.many = false
  blocks : Blocks I db root label ns (d.sources.valuations I db)

namespace Located

variable {root e : Entity} {label l : String} {ns : List Node} {outer : Bool} {x : String → Json}
  {vs : List Sql.Valuation}

theorem row_mem (h : Located root label ns e l outer) (hx : x ∈ db root.table)
    (hb : Block I db label ns x vs) {v : Sql.Valuation} (hv : v ∈ vs) :
    v.row l ∈ db e.table ∨ v.row l = nullRow := by
  rcases h with ⟨rfl, rfl, -⟩ | ⟨n, hn, rfl, rfl, -⟩
  · exact .inl (hb.root v hv ▸ hx)
  · rcases hb.bound n hn v hv with hr | ⟨-, hr⟩
    · exact .inl (Node.mem_table_of_related hr)
    · exact .inr hr

theorem mono {ns' : List Node} (h : Located root label ns e l outer) (hsub : ns ⊆ ns') :
    Located root label ns' e l outer := by
  rcases h with h | ⟨n, hn, h⟩
  · exact .inl h
  · exact .inr ⟨n, hsub hn, h⟩

theorem row_eq (h : Located root label ns e l true) (hb : Block I db label ns x vs)
    {v w : Sql.Valuation} (hv : v ∈ vs) (hw : w ∈ vs) : v.row l = w.row l := by
  rcases h with ⟨-, rfl, -⟩ | ⟨n, hn, -, rfl, ho⟩
  · rw [hb.root v hv, hb.root w hw]
  · rw [eq_comm, Bool.and_eq_true, Bool.not_eq_true'] at ho
    exact hb.fixed n hn ho.1 ho.2 v hv w hw

end Located

namespace Loaded

variable {root e : Entity} {label l : String} {d d' : Draft} {ns : List Node} {outer : Bool}

theorem taken_of_located (h : Loaded I db root label d ns) (hl : Located root label ns e l outer) :
    l ∈ d.aliases.taken := by
  rcases hl with ⟨-, rfl, -⟩ | ⟨n, hn, -, rfl, -⟩
  · exact h.labelTaken
  · exact (h.taken n hn).1

theorem linked (h : Loaded I db root label d ns)
    (hnull : ∀ v, I.compare .eq .null v ≠ some true) (hl : Located root label ns e l outer)
    {step : NavigationStep} {link : Draft.Link} {on : Sql.Expr} (hkeyed : db.Keyed link.target)
    (hnested : outer = false → link.many = false)
    (hsingle : link.many = false → ∀ row ∈ db e.table, (step.related I db e link row).length ≤ 1)
    (hon : ∀ (v : Sql.Valuation) (r : String → Json),
      on.truth I [v.bind (d.aliases.fresh link.target.table) r] = some true ↔
        step.relates I e link (v.row l) r = true) :
    Loaded I db root label (d.linked link on)
      (⟨e, l, outer, step, link, d.aliases.fresh link.target.table⟩ :: ns) := by
  have hfresh := d.aliases.fresh_notMem link.target.table
  have hne : ∀ {a : String}, a ∈ d.aliases.taken → a ≠ d.aliases.fresh link.target.table := by
    rintro a ha rfl
    exact hfresh ha
  have htaken := h.taken_of_located hl
  constructor
  case bindings => exact h.bindings
  case condition => exact h.condition
  case groupBy => exact h.groupBy
  case having => exact h.having
  case orderings => exact h.orderings
  case labelTaken => exact Aliases.mem_insert.mpr (.inl h.labelTaken)
  case taken =>
    intro n hn
    rcases List.mem_cons.mp hn with rfl | hn
    · exact ⟨Aliases.mem_insert.mpr (.inr rfl), Aliases.mem_insert.mpr (.inl htaken)⟩
    · exact ⟨Aliases.mem_insert.mpr (.inl (h.taken n hn).1),
        Aliases.mem_insert.mpr (.inl (h.taken n hn).2)⟩
  case nested =>
    intro n hn
    rcases List.mem_cons.mp hn with rfl | hn
    · exact hnested
    · exact h.nested n hn
  case blocks =>
    refine h.blocks.linked (fun v _ r hr => ?_) fun x hx vs hb => ?_
    · rw [hon, Node.related, NavigationStep.related, List.mem_filter]
      exact (and_iff_right hr).symm
    · refine hb.extend (hne h.labelTaken) (hne htaken)
        (fun m hm => ⟨hne (h.taken m hm).1, hne (h.taken m hm).2⟩) hkeyed ?_ ?_
      · rintro rfl v hv w hw
        exact hl.row_eq hb hv hw
      · intro hmany v hv
        rcases hl.row_mem hx hb hv with hrow | hrow
        · exact hsingle hmany _ hrow
        · -- Nothing is related to an object that is not there.
          have hnone : step.related I db e link (v.row l) = [] := related_nullRow hnull step e link hrow
          exact (congrArg List.length hnone).trans_le (Nat.zero_le 1)

end Loaded

/-! ## Steps -/

/-- A place in the result: an entity under a label, with a tree of navigations that starts there and
the shape that they form. -/
structure Place (I : Interpretation) (db : Database) (env : Env) (root : Entity) (label : String)
    (d : Draft) (ns : List Node) (t : Placed) (e : Entity) (l : String) (outer : Bool) (s : Shape) :
    Prop where
  loaded : Loaded I db root label d ns
  located : Located root label ns e l outer
  entity : env.catalog.entity? e.name = some e
  linked : t.Linked env.catalog e
  stands : t.Stands e l s
  nodes : t.nodes e l outer ⊆ ns

/-- The tree of a place and the list of all navigations have grown together. -/
structure Placed.Grown (e : Entity) (l : String) (outer : Bool) (t t' : Placed) (ns ns' : List Node) :
    Prop where
  list : ns ⊆ ns'
  tree : t.nodes e l outer ⊆ t'.nodes e l outer
  new : ∀ n ∈ ns', n ∈ ns ∨ n ∈ t'.nodes e l outer

theorem Placed.Grown.refl (e : Entity) (l : String) (outer : Bool) (t : Placed) (ns : List Node) :
    Placed.Grown e l outer t t ns ns :=
  ⟨List.Subset.refl _, List.Subset.refl _, fun _ hn => .inl hn⟩

theorem Placed.Grown.replace {e : Entity} {l name : String} {outer : Bool} {t t₁ t₂ : Placed}
    {ns ns₁ ns₂ : List Node} {b : Placed.Branch} (h : Placed.Grown e l outer t t₁ ns ns₁)
    (hb : t₁.find? name = some b)
    (h' : Placed.Grown b.link.target b.label (outer && !b.link.many) b.below t₂ ns₁ ns₂) :
    Placed.Grown e l outer t (t₁.replace name t₂) ns ns₂ := by
  have hmem : ∀ n, n ∈ t₁.nodes e l outer ∨
      n ∈ t₂.nodes b.link.target b.label (outer && !b.link.many) →
        n ∈ (t₁.replace name t₂).nodes e l outer := fun n hn => Placed.mem_nodes_replace hb h'.tree hn
  refine ⟨List.Subset.trans h.list h'.list, fun n hn => hmem n (.inl (h.tree hn)), fun n hn => ?_⟩
  rcases h'.new n hn with hn | hn
  · exact (h.new n hn).imp_right fun hn => hmem n (.inl hn)
  · exact .inr (hmem n (.inr hn))

section Steps

variable {root e : Entity} {label l : String} {d d' : Draft} {ns : List Node} {outer : Bool}
  {t : Placed} {owner owner' : ObjectOf Shape} {step : NavigationStep} {ss : List NavigationStep}

theorem Placed.lookup_scalar {ms : List (String × Shape)} (h : t.Forms ms) {key : String} {x : Sql.Expr} :
    ms.lookup key ≠ some (.scalar x) := by
  intro hs
  obtain ⟨_, -, -, o, _, ho, -⟩ := Placed.find_of_lookup h hs
  cases ho

theorem Draft.truth_relates (hI : I.Lawful) {link : Draft.Link} {fresh : String}
    {ownerKey relatedKey : Sql.Expr} {condition filter : Option Sql.Expr} (hb : d.bindings = {})
    (ho : t.Stands e l (.object owner)) (hne : l ≠ fresh) (hfree : step.AggregateFree)
    (hok : owner.members.lookup link.association.thisKey = some (.scalar ownerKey))
    (hrk : (ObjectOf.ofEntity link.target fresh).members.lookup link.association.otherKey =
      some (.scalar relatedKey))
    (hc : d.stepPredicate env (.object (.ofEntity link.target fresh)) step.condition = .ok condition)
    (hf : d.stepPredicate env (.object (.ofEntity link.target fresh)) step.filter = .ok filter)
    (v : Sql.Valuation) (r : String → Json) :
    (Draft.linkCondition ownerKey relatedKey condition filter).truth I [v.bind fresh r] = some true ↔
      step.relates I e link (v.row l) r = true := by
  obtain ⟨o, inner, ho, -, -, hm, hforms⟩ := ho
  cases ho
  have hok' : (ObjectOf.ofEntity e l).members.lookup link.association.thisKey =
      some (.scalar ownerKey) := by
    rw [hm, List.lookup_append] at hok
    cases hfirst : (ObjectOf.ofEntity e l).members.lookup link.association.thisKey with
    | some s => rw [hfirst] at hok; exact hok
    | none => rw [hfirst] at hok; exact absurd hok (Placed.lookup_scalar hforms)
  have hownerKey := Shape.eval_key (I := I) hok' (v.bind fresh r)
  have hrelatedKey := Shape.eval_key (I := I) hrk (v.bind fresh r)
  rw [v.row_bind_of_ne hne] at hownerKey
  rw [Sql.Valuation.row_bind_self] at hrelatedKey
  rw [truth_linkCondition, hownerKey, hrelatedKey, truth_stepPredicate hI hb hfree.1 hc,
    truth_stepPredicate hI hb hfree.2 hf, NavigationStep.relates]
  simp [and_assoc]

theorem Placed.Stands.of_owner {s : Shape} (h : t.Stands e l s) (ho : s.owner? = some owner) :
    t.Stands e l (.object owner) := by
  have hsame : (Shape.object owner).owner? = s.owner? := ho.symm
  rw [Placed.Stands, hsame]
  exact h

theorem Placed.stands_related (link : Draft.Link) (fresh : String) (condition filter : Option Sql.Expr) :
    (Draft.relatedShape link.many (.ofEntity link.target fresh) condition filter).isCollection =
        link.many ∧
      Placed.nil.Stands link.target fresh
        (Draft.relatedShape link.many (.ofEntity link.target fresh) condition filter) := by
  have hkey := (ObjectOf.members_ofEntity link.target fresh).2
  have hentity := ObjectOf.entity_ofEntity link.target fresh
  unfold Draft.relatedShape
  cases link.many with
  | true => exact ⟨rfl, _, [], rfl, hentity, hkey, (List.append_nil _).symm, rfl⟩
  | false => exact ⟨rfl, _, [], rfl, hentity, hkey, (List.append_nil _).symm, rfl⟩

theorem Place.below {s s' : Shape} {b : Placed.Branch} (h : Place I db env root label d ns t e l outer s)
    (hcat : env.catalog.WellFormed) {name : String} (hb : t.find? name = some b)
    (hs : b.below.Stands b.link.target b.label s') :
    Place I db env root label d ns b.below b.link.target b.label (outer && !b.link.many) s' := by
  obtain ⟨hlink, hlinked⟩ := Placed.linked_find h.linked hb
  obtain ⟨-, target, -, -, -, -, -, htarget⟩ := Entity.link?_eq_some.mp hlink
  obtain ⟨hmem, hsub⟩ := Placed.nodes_find (e := e) (l := l) hb
  constructor
  case loaded => exact h.loaded
  case located => exact .inr ⟨_, h.nodes hmem, rfl, rfl, rfl⟩
  case entity => rwa [hcat.named _ _ htarget]
  case linked => exact hlinked
  case stands => exact hs
  case nodes => exact fun n hn => h.nodes (hsub hn)

theorem Place.takeStep (hI : I.Lawful) (hnull : ∀ v, I.compare .eq .null v ≠ some true)
    (hcat : env.catalog.WellFormed) (hdb : ∀ n e, env.catalog.entity? n = some e → db.Keyed e)
    (h : Place I db env root label d ns t e l outer (.object owner)) (hfree : step.AggregateFree)
    (hsingle : (t.loads.add (step :: ss)).Single I db env.catalog e) {member : Shape} {many : Bool}
    (htake : d.takeStep env owner step (!outer) = (d', .ok (owner', member, many))) :
    ∃ (t' : Placed) (ns' : List Node) (b : Placed.Branch),
      Placed.Grown e l outer t t' ns ns' ∧ Place I db env root label d' ns' t' e l outer (.object owner') ∧
      t'.loads = t.loads.add [step] ∧ t'.find? step.property = some b ∧ many = b.link.many ∧
      member.isCollection = b.link.many ∧ b.below.Stands b.link.target b.label member := by
  have hw := hcat.entities _ _ h.entity
  obtain ⟨o, inner, hown, hentity, hkey, hm, hforms⟩ := h.stands
  cases hown
  rcases Draft.takeStep_eq_ok htake with ⟨hi, rfl, rfl, hmember⟩ |
    ⟨link, ownerKey, relatedKey, c, f, hi, hok, hrk, hc, hf, rfl, rfl, rfl⟩
  -- The navigation is loaded already.
  · rcases Draft.inspect_eq_none hi with ⟨hnone, -⟩ | ⟨name, e', p, hname, he', hp, hnav, hmany, -⟩
    · rw [hentity] at hnone
      cases hnone
    · rw [hentity, Option.some.injEq] at hname
      subst hname
      rw [h.entity, Option.some.injEq] at he'
      subst he'
      rw [hm, List.lookup_append, ObjectOf.lookup_navigation hw hp hnav, Option.none_or] at hmember
      obtain ⟨b, hb, hcoll, hstands⟩ := Placed.find_of_lookup hforms hmember
      obtain ⟨p', -, hp', -, hmany', -⟩ :=
        Entity.link?_eq_some.mp (Placed.linked_find h.linked hb).1
      rw [hp, Option.some.injEq] at hp'
      exact ⟨t, ns, b, .refl .., h, (Placed.loads_find hb).symm, hb,
        by rw [hmany, hmany', hp'], hcoll, hstands⟩
  -- Its table is joined.
  · obtain ⟨name, e', p, target, hname, he', hp, hnav, hmany, hhas, hbelow, ha, htarget, htarget',
      hlink⟩ := Draft.inspect_eq_link hi
    rw [hentity, Option.some.injEq] at hname
    subst hname
    rw [h.entity, Option.some.injEq] at he'
    subst he'
    have hlink? : e.link? env.catalog step.property = some link :=
      Entity.link?_eq_some.mpr ⟨p, target, hp, hnav, hlink.trans hmany, ha, htarget, htarget'⟩
    have hnew : inner.lookup step.property = none := by
      rw [Entries.has, hm, List.lookup_append, ObjectOf.lookup_navigation hw hp hnav,
        Option.none_or] at hhas
      simpa using hhas
    have hb := Placed.find_of_lookup_none hforms hnew
    have hne : l ≠ d.aliases.fresh link.target.table := by
      rintro rfl
      exact d.aliases.fresh_notMem _ (h.loaded.taken_of_located h.located)
    obtain ⟨hcoll, hstands⟩ := Placed.stands_related link (d.aliases.fresh link.target.table) c f
    have hon := Draft.truth_relates (d := { d with
      aliases := d.aliases.register (d.aliases.fresh link.target.table) }) hI h.loaded.bindings
      h.stands hne hfree hok hrk hc hf
    have hnested : outer = false → link.many = false := by
      rintro rfl
      rw [hlink]
      simpa using hbelow
    refine ⟨t.snoc step link (d.aliases.fresh link.target.table),
      ⟨e, l, outer, step, link, d.aliases.fresh link.target.table⟩ :: ns, _,
      ⟨List.subset_cons_self .., fun n hn => Placed.mem_nodes_snoc.mpr (.inl hn), fun n hn => ?_⟩, ?_,
      Placed.loads_snoc hb, Placed.find_snoc hb, hlink.symm, hcoll, hstands⟩
    · rcases List.mem_cons.mp hn with rfl | hn
      · exact .inr (Placed.mem_nodes_snoc.mpr (.inr rfl))
      · exact .inl hn
    constructor
    case loaded =>
      exact h.loaded.linked hnull h.located (hdb _ _ htarget') hnested
        (Placed.single_new hb hlink? hsingle) hon
    case located => exact h.located.mono (List.subset_cons_self ..)
    case entity => exact h.entity
    case linked => exact Placed.linked_snoc h.linked hb hlink?
    case stands =>
      refine ⟨_, _, rfl, hentity, hkey, ?_, Placed.forms_snoc hforms hcoll hstands⟩
      rw [ObjectOf.withMember, Entries.put_of_not_has hhas, hm, List.append_assoc]
    case nodes =>
      intro n hmem
      rcases Placed.mem_nodes_snoc.mp hmem with hmem | rfl
      · exact List.mem_cons_of_mem _ (h.nodes hmem)
      · exact List.mem_cons_self ..

theorem Place.replace (hcat : env.catalog.WellFormed) {b : Placed.Branch} {t' : Placed}
    {ns' : List Node} {s s' : Shape} (h : Place I db env root label d ns t e l outer (.object owner))
    (hb : t.find? step.property = some b) (hsub : ns ⊆ ns')
    (h' : Place I db env root label d' ns' t' b.link.target b.label (outer && !b.link.many) s')
    (hcoll : s'.isCollection = b.link.many) (ho : s.owner? = some (owner.withMember step.property s')) :
    Place I db env root label d' ns' (t.replace step.property t') e l outer s := by
  obtain ⟨o, inner, hown, hentity, hkey, hm, hforms⟩ := h.stands
  cases hown
  obtain ⟨p, -, hp, hnav, -⟩ := Entity.link?_eq_some.mp (Placed.linked_find h.linked hb).1
  constructor
  case loaded => exact h'.loaded
  case located => exact h.located.mono hsub
  case entity => exact h.entity
  case linked => exact Placed.linked_replace h.linked hb h'.linked
  case stands =>
    refine ⟨_, _, ho, hentity, hkey, ?_, Placed.forms_replace hforms hb hcoll h'.stands⟩
    rw [ObjectOf.withMember, hm]
    exact Entries.put_append_of_not_has
      (ObjectOf.lookup_navigation (hcat.entities _ _ h.entity) hp hnav) ..
  case nodes =>
    intro n hn
    rcases Placed.nodes_replace hb hn with hn | hn
    · exact hsub (h.nodes hn)
    · exact h'.nodes hn

/-- A chain of steps: afterwards they are among what is loaded. -/
theorem Place.walk (hI : I.Lawful) (hnull : ∀ v, I.compare .eq .null v ≠ some true)
    (hcat : env.catalog.WellFormed) (hdb : ∀ n e, env.catalog.entity? n = some e → db.Keyed e)
    {s s' : Shape} (h : Place I db env root label d ns t e l outer s)
    (hfree : ∀ step ∈ ss, step.AggregateFree)
    (hsingle : (t.loads.add ss).Single I db env.catalog e)
    (hwalk : Draft.walk env ss (!outer) s d = (s', d', none)) :
    ∃ (t' : Placed) (ns' : List Node), Placed.Grown e l outer t t' ns ns' ∧
      t'.loads = t.loads.add ss ∧
      s'.isCollection = s.isCollection ∧ Place I db env root label d' ns' t' e l outer s' := by
  induction ss generalizing s s' d ns t e l outer with
  | nil =>
    cases hwalk
    exact ⟨t, ns, .refl .., (Loads.add_nil _).symm, rfl, h⟩
  | cons step ss ih =>
    obtain ⟨owner, d₁, owner', member, many, member', ho, htake, hrest, rfl⟩ :=
      Draft.walk_cons_eq_none hwalk
    have howner : Place I db env root label d ns t e l outer (.object owner) :=
      { h with stands := h.stands.of_owner ho }
    obtain ⟨t₁, ns₁, b, hgrown₁, h₁, hloads₁, hb, rfl, hcoll, hstands⟩ :=
      howner.takeStep hI hnull hcat hdb (hfree step (List.mem_cons_self ..)) hsingle htake
    have hadd : t₁.loads.add (step :: ss) = t.loads.add (step :: ss) := by
      rw [hloads₁, Loads.add_singleton_add]
    have hbelow : (!outer || b.link.many) = !(outer && !b.link.many) := by
      rw [Bool.not_and, Bool.not_not]
    rw [← hadd] at hsingle
    rw [hbelow] at hrest
    obtain ⟨t₂, ns₂, hgrown₂, hloads₂, hcoll₂, h₂⟩ := ih (h₁.below hcat hb hstands)
      (fun step hs => hfree step (List.mem_cons_of_mem _ hs))
      (Placed.single_find h₁.linked hb hsingle) hrest
    refine ⟨t₁.replace step.property t₂, ns₂, hgrown₁.replace hb hgrown₂, ?_, ?_, ?_⟩
    · rw [Placed.loads_replace hb hloads₂, hadd]
    · exact Shape.isCollection_withOwner ho _
    · exact h₁.replace hcat hb hgrown₂.list h₂ (hcoll₂.trans hcoll) (Shape.owner_withOwner s _)

end Steps

/-! ## Chains -/

theorem Loads.single_of_foldl {catalog : Catalog} {e : Entity} {chains : List NavigationChain}
    {ls : Loads} (h : (chains.foldl (fun ls c => ls.add c.steps) ls).Single I db catalog e) :
    ls.Single I db catalog e := by
  induction chains generalizing ls with
  | nil => exact h
  | cons c chains ih => exact Loads.single_of_add (ih h)

/-- The result of a query is the object of the root with a tree of navigations, which are all that
is joined. -/
structure Query.Loading (I : Interpretation) (db : Database) (env : Env) (root : Entity) (label : String)
    (t : Placed) (q : Query) (ns : List Node) : Prop where
  stage : q.stage = .general
  object : q.draft.result.isCollection = false
  place : Place I db env root label q.draft ns t root label true q.draft.result
  all : ns ⊆ t.nodes root label true

namespace Query.Loading

variable {root : Entity} {label : String} {t : Placed} {q q' : Query} {ns : List Node}

theorem of_root {entity : String} (hcat : env.catalog.WellFormed)
    (h : Query.root env entity = .ok q) :
    ∃ e label, env.catalog.entity? entity = some e ∧ Query.Loading I db env e label .nil q [] := by
  simp only [Query.root, Draft.root, bind_eq_ok, pure_eq_ok, Env.entity_eq_ok] at h
  obtain ⟨d, ⟨e, he, rfl⟩, rfl⟩ := h
  have hentity : env.catalog.entity? e.name = some e := by rwa [hcat.named _ _ he]
  have hstands : Placed.nil.Stands e (({} : Aliases).reserve e.table).1
      (.object (.ofEntity e (({} : Aliases).reserve e.table).1)) :=
    ⟨_, [], rfl, ObjectOf.entity_ofEntity .., (ObjectOf.members_ofEntity ..).2,
      (List.append_nil _).symm, rfl⟩
  refine ⟨e, _, he, rfl, rfl, ⟨?_, .inl ⟨rfl, rfl, rfl⟩, hentity, trivial, hstands,
    List.nil_subset _⟩, List.nil_subset _⟩
  constructor
  case bindings => rfl
  case condition => rfl
  case groupBy => rfl
  case having => rfl
  case orderings => rfl
  case labelTaken =>
    simp only [Aliases.reserve, Aliases.register]
    exact Aliases.mem_insert.mpr (.inr rfl)
  case taken => exact fun _ hn => absurd hn List.not_mem_nil
  case nested => exact fun _ hn => absurd hn List.not_mem_nil
  case blocks =>
    refine ⟨fun x => [Sql.Valuation.null.bind _ x], ?_, fun x _ => Block.base _ x⟩
    rw [← List.map_eq_flatMap]
    rfl

theorem load (hI : I.Lawful) (hnull : ∀ v, I.compare .eq .null v ≠ some true)
    (hcat : env.catalog.WellFormed) (hdb : ∀ n e, env.catalog.entity? n = some e → db.Keyed e)
    (h : Query.Loading I db env root label t q ns) {chain : NavigationChain}
    (hfree : ∀ step ∈ chain.steps, step.AggregateFree)
    (hsingle : (t.loads.add chain.steps).Single I db env.catalog root)
    (hload : q.accept env (.load chain) = .ok q') :
    ∃ t' ns', t'.loads = t.loads.add chain.steps ∧ Query.Loading I db env root label t' q' ns' := by
  simp only [Query.accept, h.stage, Query.acceptGeneral, bind_eq_ok, pure_eq_ok] at hload
  obtain ⟨d, hd, rfl⟩ := hload
  obtain ⟨-, result, d₁, hwalk, rfl⟩ := Query.load_eq_ok.mp hd
  obtain ⟨t', ns', hgrown, hloads, hcoll, hplace⟩ :=
    h.place.walk hI hnull hcat hdb hfree hsingle hwalk
  refine ⟨t', ns', hloads, rfl, hcoll.trans h.object, ?_, fun n hn => ?_⟩
  · exact { hplace with loaded := { hplace.loaded with } }
  · rcases hgrown.new n hn with hn | hn
    · exact hgrown.tree (h.all hn)
    · exact hn

/-- **Chains build the tree of what they load**, one after the other. -/
theorem acceptAll (hI : I.Lawful) (hnull : ∀ v, I.compare .eq .null v ≠ some true)
    (hcat : env.catalog.WellFormed) (hdb : ∀ n e, env.catalog.entity? n = some e → db.Keyed e)
    {chains : List NavigationChain} (h : Query.Loading I db env root label t q ns)
    (hfree : ∀ c ∈ chains, ∀ step ∈ c.steps, step.AggregateFree)
    (hsingle : (chains.foldl (fun ls c => ls.add c.steps) t.loads).Single I db env.catalog root)
    (hq : q.acceptAll env (chains.map .load) = .ok q') :
    ∃ t' ns', t'.loads = chains.foldl (fun ls c => ls.add c.steps) t.loads ∧
      Query.Loading I db env root label t' q' ns' := by
  induction chains generalizing t q ns with
  | nil =>
    rw [List.map_nil, Query.acceptAll, List.foldlM_nil, pure_eq_ok] at hq
    subst hq
    exact ⟨t, ns, rfl, h⟩
  | cons c chains ih =>
    obtain ⟨q₁, hq₁, hq⟩ := Query.acceptAll_cons.mp hq
    obtain ⟨t₁, ns₁, hloads, h₁⟩ := h.load hI hnull hcat hdb (hfree c (List.mem_cons_self ..))
      (Loads.single_of_foldl hsingle) hq₁
    rw [List.foldl_cons, ← hloads] at hsingle ⊢
    exact ih h₁ (fun c hc => hfree c (List.mem_cons_of_mem _ hc)) hsingle hq

end Query.Loading

end EntityQuery
