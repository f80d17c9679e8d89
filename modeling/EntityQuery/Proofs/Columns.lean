import EntityQuery.Proofs.Promotion
import EntityQuery.Proofs.Reachable
import EntityQuery.Proofs.Translation

/-! # Columns of drafts

The operators build the clauses and the result of a draft from the columns that are there already.
Only eager loading brings in new ones, those of the table it joins. -/

namespace EntityQuery
set_option autoImplicit false

namespace Sql.Expr

variable {P P' : Column → Prop} {e : Expr}

theorem Over.mono (hP : ∀ c, P c → P' c) (h : e.Over P) : e.Over P' := fun c hc => hP c (h c hc)

theorem Over.asPredicate (h : e.Over P) : e.asPredicate.Over P := by
  unfold Over
  rwa [columns_asPredicate]

theorem Over.andAlso {o : Option Expr} (ho : ∀ x ∈ o, x.Over P) (h : e.Over P) :
    (Expr.andAlso o e).Over P := by
  cases o with
  | none => exact h
  | some x =>
    intro c hc
    rw [Expr.andAlso, columns_and, List.flatMap_append, flatMap_columns_conjuncts,
      flatMap_columns_conjuncts, List.mem_append] at hc
    exact hc.elim (ho x rfl c) (h c)

theorem Over.column {c : Column} (h : P c) : (Expr.column c).Over P := by
  intro c' hc'
  rw [columns_column, List.mem_singleton] at hc'
  rwa [hc']

end Sql.Expr

/-! ## Shapes -/

theorem Entries.lookup_put_cases {κ β : Type} [BEq κ] {j k : κ} {v w : β} {es : List (κ × β)}
    (h : (Entries.put k v es).lookup j = some w) : w = v ∨ es.lookup j = some w := by
  induction es with
  | nil =>
    rw [Entries.put, List.lookup_cons, List.lookup_nil] at h
    cases hj : j == k with
    | true => rw [hj] at h; cases h; exact .inl rfl
    | false => rw [hj] at h; cases h
  | cons x es ih =>
    obtain ⟨k', v'⟩ := x
    rw [Entries.put] at h
    rw [List.lookup_cons]
    split at h
    · rw [List.lookup_cons] at h
      cases hj : j == k' with
      | true => rw [hj] at h; cases h; exact .inl rfl
      | false => rw [hj] at h; exact .inr h
    · rw [List.lookup_cons] at h
      cases hj : j == k' with
      | true => rw [hj] at h; exact .inr h
      | false => rw [hj] at h; exact ih h

theorem Bindings.All.bind {Q : Sql.Expr → Prop} {b : Bindings} {s : Shape} (hb : b.All Q)
    (hs : ∀ e ∈ s.scalars, Q e) (p : Param) : (b.bind p s).All Q := by
  intro p' shape h
  rcases Entries.lookup_put_cases h with rfl | h
  · exact hs
  · exact hb p' shape h

theorem Bindings.All.empty (Q : Sql.Expr → Prop) : ({} : Bindings).All Q := by
  intro p shape h
  cases h

namespace Shape

theorem memberScalars_put {n : String} {m : Shape} {ms : List (String × Shape)} {e : Sql.Expr}
    (h : e ∈ memberScalars (Entries.put n m ms)) : e ∈ m.scalars ∨ e ∈ memberScalars ms := by
  induction ms with
  | nil =>
    rw [Entries.put, memberScalars, memberScalars, List.append_nil] at h
    exact .inl h
  | cons x ms ih =>
    obtain ⟨n', m'⟩ := x
    rw [Entries.put] at h
    split at h
    · rw [memberScalars, List.mem_append] at h
      rw [memberScalars, List.mem_append]
      exact h.imp_right .inr
    · rw [memberScalars, List.mem_append] at h
      rw [memberScalars, List.mem_append]
      rcases h with h | h
      · exact .inr (.inl h)
      · exact (ih h).imp_right .inr

theorem scalars_ofEntity {entity : Entity} {label : String} {e : Sql.Expr}
    (h : e ∈ memberScalars (ObjectOf.ofEntity entity label).members) :
    ∃ p ∈ entity.primitives, e = .column ⟨label, p.columnName⟩ := by
  unfold ObjectOf.ofEntity at h
  generalize hps : entity.primitives = ps at h ⊢
  -- Members put later replace earlier ones, so the invariant is about all scalars seen so far.
  suffices hfold : ∀ (ps : List Property) (o : ObjectOf Shape),
      e ∈ memberScalars (ps.foldl
        (fun o p => o.withMember p.name (.scalar (.column ⟨label, p.columnName⟩))) o).members →
      e ∈ memberScalars o.members ∨ ∃ p ∈ ps, e = .column ⟨label, p.columnName⟩ by
    exact (hfold ps _ h).resolve_left (by simp [memberScalars])
  intro ps
  induction ps with
  | nil => intro o ho; exact .inl ho
  | cons p ps ih =>
    intro o ho
    rcases ih _ ho with ho | ⟨p', hp', he⟩
    · rcases memberScalars_put ho with ho | ho
      · exact .inr ⟨p, List.mem_cons_self .., List.mem_singleton.mp ho⟩
      · exact .inl ho
    · exact .inr ⟨p', List.mem_cons_of_mem p hp', he⟩

theorem scalars_owner {s : Shape} {o : ObjectOf Shape} (h : s.owner? = some o) :
    s.scalars = memberScalars o.members := by
  unfold owner? at h
  split at h
  · cases h; rfl
  · cases h; rfl
  · cases h

theorem scalars_withOwner (s : Shape) (o : ObjectOf Shape) :
    (s.withOwner o).scalars = memberScalars o.members := by
  unfold withOwner
  split <;> rfl

theorem owner_withOwner (s : Shape) (o : ObjectOf Shape) : (s.withOwner o).owner? = some o := by
  unfold withOwner
  split <;> rfl

theorem isCollection_withOwner {s : Shape} {o : ObjectOf Shape} (h : s.owner? = some o)
    (o' : ObjectOf Shape) : (s.withOwner o').isCollection = s.isCollection := by
  cases s with
  | scalar _ => cases h
  | object _ => rfl
  | collection _ _ _ => rfl

mutual

theorem Rel.scalars_left {R : Sql.Expr → Sql.Expr → Prop} : ∀ (s s' : Shape), s.Rel R s' →
    ∀ e ∈ s.scalars, ∃ e' ∈ s'.scalars, R e e'
  | .scalar e, .scalar e', h, x, hx => by
    rw [List.mem_singleton.mp hx]
    exact ⟨e', List.mem_singleton_self _, h⟩
  | .object ⟨_, _, ms, _, _⟩, .object ⟨_, _, ms', _, _⟩, h, x, hx =>
    RelMembers.scalars_left ms ms' h.2.2 x hx
  | .collection s _ _, .collection s' _ _, h, x, hx => Rel.scalars_left s s' h x hx

theorem RelMembers.scalars_left {R : Sql.Expr → Sql.Expr → Prop} :
    ∀ (ms ms' : List (String × Shape)), RelMembers R ms ms' →
      ∀ e ∈ memberScalars ms, ∃ e' ∈ memberScalars ms', R e e'
  | [], [], _, _, hx => by cases hx
  | (_, s) :: ms, (_, s') :: ms', h, x, hx => by
    simp only [memberScalars, List.mem_append] at hx ⊢
    rcases hx with hx | hx
    · obtain ⟨e', he', hR⟩ := Rel.scalars_left s s' h.2.1 x hx
      exact ⟨e', .inl he', hR⟩
    · obtain ⟨e', he', hR⟩ := RelMembers.scalars_left ms ms' h.2.2 x hx
      exact ⟨e', .inr he', hR⟩

end

end Shape

/-! ## Clauses -/

/-- Two properties of expressions: `Q` is one that lambdas keep in what they build, `C` is one of
conditions that are made of expressions with `Q`. -/
structure Sql.Carried (aggregates : Prop) (Q C : Sql.Expr → Prop) : Prop where
  closed : Sql.Closed aggregates Q
  predicate : ∀ e, Q e → C e.asPredicate
  andAlso : ∀ l r, C l → C r → C (Sql.Expr.andAlso (some l) r)

theorem Sql.Carried.addTo {A : Prop} {Q C : Sql.Expr → Prop} (hc : Sql.Carried A Q C)
    {o : Option Sql.Expr} {e : Sql.Expr} (ho : ∀ x ∈ o, C x) (he : C e) : C (Sql.Expr.andAlso o e) := by
  cases o with
  | none => exact he
  | some x => exact hc.andAlso x e (ho x rfl) he

theorem Sql.Carried.columns (P : Sql.Column → Prop) :
    Sql.Carried True (Sql.Expr.Over P) (Sql.Expr.Over P) where
  closed := .columns P
  predicate _ he := he.asPredicate
  andAlso l _ hl hr := by
    refine .andAlso ?_ hr
    intro x hx
    cases hx
    exact hl

namespace Draft

/-- The conditions of the draft have `C` and its other expressions have `Q`, the sources left aside. -/
structure Clauses (Q C : Sql.Expr → Prop) (d : Draft) : Prop where
  result : ∀ e ∈ d.result.scalars, Q e
  condition : ∀ e ∈ d.condition, C e
  groupBy : ∀ e ∈ d.groupBy, Q e
  having : ∀ e ∈ d.having, C e
  orderings : ∀ o ∈ d.orderings, Q o.expr

variable {A : Prop} {Q C : Sql.Expr → Prop} {d d' : Draft} {env : Env} {f : Lambda}

theorem bound_all (hb : d.bindings = {}) {shape : Shape} (hs : ∀ e ∈ shape.scalars, Q e) (p : Param) :
    (d.bindings.bind p shape).All Q := by
  rw [hb]
  exact (Bindings.All.empty _).bind hs p

theorem expression_closed (hc : Sql.Closed A Q) (hb : d.bindings = {}) {shape : Shape}
    (hs : ∀ e ∈ shape.scalars, Q e) (hf : f.body.hasAggregate = true → A) {p : Param} {e : Sql.Expr}
    (he : (d.scope env (d.bindings.bind p shape)).expression f = .ok e) : Q e :=
  Scope.expression_closed hc (bound_all hb hs p) hf he

theorem selection_closed (hc : Sql.Closed A Q) (hb : d.bindings = {}) {shape result : Shape}
    (hs : ∀ e ∈ shape.scalars, Q e) (hf : f.body.hasAggregate = true → A) {p : Param}
    (hr : (d.scope env (d.bindings.bind p shape)).selection f = .ok result) :
    ∀ e ∈ result.scalars, Q e :=
  Scope.selection_closed hc (bound_all hb hs p) hf hr

namespace Clauses

theorem addHavings (hc : Sql.Carried A Q C) (h : d.Clauses Q C) {es : List Sql.Expr}
    (hes : ∀ e ∈ es, C e) : (es.foldl Draft.addHaving d).Clauses Q C := by
  induction es generalizing d with
  | nil => exact h
  | cons e es ih =>
    have hstep : (d.addHaving e).Clauses Q C := by
      refine { h with having := ?_ }
      intro x hx
      cases hx
      exact hc.addTo h.having (hes e (List.mem_cons_self ..))
    exact ih hstep fun x hx => hes x (List.mem_cons_of_mem e hx)

theorem setOrderings (h : d.Clauses Q C) {os : List Sql.Ordering} (hos : ∀ o ∈ os, Q o.expr) :
    (d.setOrderings os).Clauses Q C := by
  unfold Draft.setOrderings
  split
  · exact h
  · exact { h with orderings := hos }

theorem filter (hc : Sql.Carried A Q C) (hb : d.bindings = {}) (h : d.Clauses Q C)
    (ha : f.body.hasAggregate = true → A) (hf : d.filter env f = .ok d') : d'.Clauses Q C := by
  obtain ⟨p, e, -, he, rfl⟩ := filter_eq_ok.mp hf
  have hnew : C e.asPredicate := hc.predicate e (expression_closed hc.closed hb h.result ha he)
  refine { h with condition := ?_ }
  intro x hx
  cases hx
  exact hc.addTo h.condition hnew

theorem orderBy (hc : Sql.Closed A Q) (hb : d.bindings = {}) (h : d.Clauses Q C)
    {dir : Sql.Direction} {pl : Placement} (ha : f.body.hasAggregate = true → A)
    (hf : d.orderBy env f dir pl = .ok d') : d'.Clauses Q C := by
  obtain ⟨p, e, -, he, rfl⟩ := orderBy_eq_ok.mp hf
  have hnew : ∀ o ∈ [(⟨e, dir⟩ : Sql.Ordering)], Q o.expr := by
    intro o ho
    rw [List.mem_singleton.mp ho]
    exact expression_closed hc hb h.result ha he
  split
  · exact { h with orderings := hnew }
  · exact { h with orderings := List.forall_mem_append.mpr ⟨h.orderings, hnew⟩ }

theorem select (hc : Sql.Closed A Q) (hb : d.bindings = {}) (h : d.Clauses Q C)
    (ha : f.body.hasAggregate = true → A) (hf : d.select env f = .ok d') : d'.Clauses Q C := by
  obtain ⟨-, p, result, -, hr, rfl⟩ := select_eq_ok.mp hf
  exact { h with result := selection_closed hc hb h.result ha hr }

theorem aggregate (hc : Sql.Closed True Q) (hb : d.bindings = {}) (h : d.Clauses Q C)
    {function : Sql.AggregateFunction} {args : List Lambda} {distinct : Bool}
    (hf : d.aggregate env function args distinct = .ok d') : d'.Clauses Q C := by
  obtain ⟨-, -, es, hes, rfl⟩ := aggregate_eq_ok.mp hf
  have hargs : ∀ e ∈ es, Q e := by
    refine forall_of_mapM hes ?_
    intro f e he
    obtain ⟨p, -, he⟩ := argument_eq_ok.mp he
    exact expression_closed hc hb h.result (fun _ => trivial) he
  refine ⟨?_, h.condition, by simp, by simp, by simp⟩
  intro e he
  rw [List.mem_singleton.mp he]
  exact hc.aggregate trivial function es distinct hargs

end Clauses

theorem scalars_itemMembers (k : Nat) (shapes : List Shape) :
    Shape.memberScalars (itemMembers k shapes) = shapes.flatMap Shape.scalars := by
  induction shapes generalizing k with
  | nil => rfl
  | cons s shapes ih => rw [itemMembers, Shape.memberScalars, ih, List.flatMap_cons]

theorem scalars_keyShape (shapes : List Shape) :
    (keyShape shapes).scalars = shapes.flatMap Shape.scalars := by
  unfold keyShape
  split
  · simp
  · exact scalars_itemMembers 1 _

theorem scalars_groupShape (key elements : Shape) :
    (groupShape key elements).scalars = key.scalars ++ elements.scalars := by
  simp [groupShape, Shape.scalars, Shape.memberScalars]

theorem Clauses.group (hc : Sql.Carried True Q C) (hb : d.bindings = {}) (h : d.Clauses Q C)
    {g : Grouping} (hf : d.group env g = .ok d') : d'.Clauses Q C := by
  obtain ⟨-, -, keys, having, orderings, p, result, hk, hh, ho, -, hr, rfl⟩ := group_eq_ok.mp hf
  have hkeys : ∀ k ∈ keys, (∀ e ∈ k.1, Q e) ∧ ∀ e ∈ k.2.scalars, Q e := by
    refine forall_of_mapM hk ?_
    intro f k hfk
    obtain ⟨p', -, hks, hsel⟩ := groupKey_eq_ok.mp hfk
    exact ⟨Scope.groupKeys_closed hc.closed (bound_all hb h.result p') (fun _ => trivial) hks,
      selection_closed hc.closed hb h.result (fun _ => trivial) hsel⟩
  have hshape : ∀ e ∈ (groupShape (keyShape (keys.map (·.2))) d.result).scalars, Q e := by
    intro e he
    rw [scalars_groupShape, scalars_keyShape, List.mem_append, List.flatMap_map,
      List.mem_flatMap] at he
    rcases he with ⟨k, hmem, he⟩ | he
    · exact (hkeys k hmem).2 e he
    · exact h.result e he
  have hgrouped : Draft.Clauses Q C { d with groupBy := d.groupBy ++ keys.flatMap (·.1) } := by
    refine { h with groupBy := List.forall_mem_append.mpr ⟨h.groupBy, ?_⟩ }
    intro e he
    obtain ⟨k, hmem, he⟩ := List.mem_flatMap.mp he
    exact (hkeys k hmem).1 e he
  have hhaving : ∀ e ∈ having, C e := by
    refine forall_of_mapM hh ?_
    intro f e hfe
    obtain ⟨p', e', -, he, rfl⟩ := groupCondition_eq_ok.mp hfe
    exact hc.predicate e' (expression_closed hc.closed hb hshape (fun _ => trivial) he)
  have horderings : ∀ o ∈ orderings, Q o.expr := by
    refine forall_of_mapM ho ?_
    intro f o hfo
    obtain ⟨p', e, -, he, rfl⟩ := groupOrdering_eq_ok.mp hfo
    exact expression_closed hc.closed hb hshape (fun _ => trivial) he
  exact { (hgrouped.addHavings hc hhaving).setOrderings horderings with
    result := selection_closed hc.closed hb hshape (fun _ => trivial) hr }

/-- All columns that the draft mentions outside its sources satisfy `P`. -/
structure Over (P : Sql.Column → Prop) (d : Draft) : Prop where
  bindings : d.bindings = {}
  result : ∀ e ∈ d.result.scalars, e.Over P
  condition : ∀ e ∈ d.condition, e.Over P
  groupBy : ∀ e ∈ d.groupBy, e.Over P
  having : ∀ e ∈ d.having, e.Over P
  orderings : ∀ o ∈ d.orderings, o.expr.Over P

variable {P P' : Sql.Column → Prop}

theorem over_iff : d.Over P ↔ d.bindings = {} ∧ d.Clauses (Sql.Expr.Over P) (Sql.Expr.Over P) :=
  ⟨fun h => ⟨h.bindings, { h with }⟩, fun h => { h.2 with bindings := h.1 }⟩

theorem Over.mono (hP : ∀ c, P c → P' c) (h : d.Over P) : d.Over P' where
  bindings := h.bindings
  result e he := (h.result e he).mono hP
  condition e he := (h.condition e he).mono hP
  groupBy e he := (h.groupBy e he).mono hP
  having e he := (h.having e he).mono hP
  orderings o ho := (h.orderings o ho).mono hP

end Draft

/-! ## Operators -/

namespace Query

variable {env : Env} {d : Draft} {op : Operator} {q : Query}

/-- An operator loads a chain, or it leaves the sources, the aliases and the bindings as they are. -/
theorem Extends.frame (h : Extends env d op q) :
    (∃ chain, op = .load chain ∧ Query.load d env chain = .ok q.draft) ∨
      (∀ chain, op ≠ .load chain) ∧ q.draft.sources = d.sources ∧ q.draft.aliases = d.aliases ∧
        q.draft.bindings = d.bindings := by
  cases h with
  | filter hf =>
    obtain ⟨p, e, -, -, rfl⟩ := Draft.filter_eq_ok.mp hf
    exact .inr ⟨nofun, rfl, rfl, rfl⟩
  | orderBy hf =>
    obtain ⟨p, e, -, -, rfl⟩ := Draft.orderBy_eq_ok.mp hf
    refine .inr ⟨nofun, ?_⟩
    split <;> exact ⟨rfl, rfl, rfl⟩
  | select hf =>
    obtain ⟨-, p, result, -, -, rfl⟩ := Draft.select_eq_ok.mp hf
    exact .inr ⟨nofun, rfl, rfl, rfl⟩
  | skip _ => exact .inr ⟨nofun, rfl, rfl, rfl⟩
  | take _ => exact .inr ⟨nofun, rfl, rfl, rfl⟩
  | distinct _ => exact .inr ⟨nofun, rfl, rfl, rfl⟩
  | aggregate hf =>
    obtain ⟨-, -, es, -, rfl⟩ := Draft.aggregate_eq_ok.mp hf
    exact .inr ⟨nofun, rfl, rfl, rfl⟩
  | groupBy hf =>
    refine .inr ⟨nofun, ?_⟩
    rw [Draft.group_rest hf]
    exact ⟨rfl, rfl, rfl⟩
  | load hl => exact .inl ⟨_, rfl, hl⟩

theorem Extends.clauses {Q C : Sql.Expr → Prop} (hc : Sql.Carried True Q C) (hb : d.bindings = {})
    (hd : d.Clauses Q C) (h : Extends env d op q) (hop : ∀ chain, op ≠ .load chain) :
    q.draft.Clauses Q C := by
  cases h with
  | filter hf => exact hd.filter hc hb (fun _ => trivial) hf
  | orderBy hf => exact hd.orderBy hc.closed hb (fun _ => trivial) hf
  | select hf => exact hd.select hc.closed hb (fun _ => trivial) hf
  | skip _ => exact hd
  | take _ => exact hd
  | distinct _ => exact hd
  | aggregate hf => exact hd.aggregate hc.closed hb hf
  | groupBy hf => exact hd.group hc hb hf
  | load _ => exact absurd rfl (hop _)

/-! ## Statements -/

theorem expressions_statement (q : Query) (columns : List Sql.Projected) :
    Sql.Statement.expressions { q.statement with columns } =
      columns.map (·.expr) ++ q.draft.condition.toList ++ q.draft.groupBy ++ q.draft.having.toList ++
        q.draft.orderings.map (·.expr) := by
  unfold statement
  split <;> rfl

theorem clauses_expressions {Q C : Sql.Expr → Prop} (hq : q.draft.Clauses Q C) (hC : ∀ e, C e → Q e)
    {columns : List Sql.Projected} (hc : ∀ e ∈ columns.map (·.expr), Q e) :
    ∀ e ∈ Sql.Statement.expressions { q.statement with columns }, Q e := by
  intro e he
  rw [expressions_statement] at he
  simp only [List.mem_append, Option.mem_toList] at he
  rcases he with (((he | he) | he) | he) | he
  · exact hc e he
  · exact hC e (hq.condition e he)
  · exact hq.groupBy e he
  · exact hC e (hq.having e he)
  · obtain ⟨o, ho, rfl⟩ := List.mem_map.mp he
    exact hq.orderings o ho

end Query

end EntityQuery
