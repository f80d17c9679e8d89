import EntityQuery.Proofs.Expression
import EntityQuery.Proofs.Projection
import EntityQuery.Proofs.Steps

/-! # What lambdas can denote

A lambda is read against shapes. The expressions it denotes are built from literals and from the
scalars of those shapes, so a property that literals and the scalars have, and that every way of
building expressions keeps, holds of the outcome. `Sql.Closed` lists the ways of building. -/

namespace EntityQuery
set_option autoImplicit false

/-! ## Lists that may fail -/

theorem mapM_eq_ok {ε α β : Type} {f : α → Except ε β} {as : List α} {bs : List β} :
    as.mapM f = .ok bs ↔ List.Forall₂ (fun a b => f a = .ok b) as bs := by
  induction as generalizing bs with
  | nil =>
    rw [List.mapM_nil, pure_eq_ok]
    constructor
    · rintro rfl; exact .nil
    · intro h; cases h; rfl
  | cons a as ih =>
    simp only [List.mapM_cons, bind_eq_ok, pure_eq_ok, ih]
    constructor
    · rintro ⟨b, hb, bs, hbs, rfl⟩
      exact .cons hb hbs
    · intro h
      cases h with
      | cons hb hbs => exact ⟨_, hb, _, hbs, rfl⟩

theorem exists_of_mem_right {α β : Type} {R : α → β → Prop} {as : List α} {bs : List β}
    (h : List.Forall₂ R as bs) : ∀ b ∈ bs, ∃ a ∈ as, R a b := by
  induction h with
  | nil => simp
  | cons hab _ ih =>
    intro b hb
    rcases List.mem_cons.mp hb with rfl | hb
    · exact ⟨_, List.mem_cons_self .., hab⟩
    · obtain ⟨a, ha, hR⟩ := ih b hb
      exact ⟨a, List.mem_cons_of_mem _ ha, hR⟩

theorem forall_of_mapM {ε α β : Type} {f : α → Except ε β} {as : List α} {bs : List β} {Q : β → Prop}
    (h : as.mapM f = .ok bs) (hQ : ∀ a b, f a = .ok b → Q b) : ∀ b ∈ bs, Q b := by
  intro b hb
  obtain ⟨a, -, hab⟩ := exists_of_mem_right (mapM_eq_ok.mp h) b hb
  exact hQ a b hab

/-! ## Aggregates in terms -/

mutual

/-- Whether an aggregate is somewhere in the term. -/
def Term.hasAggregate : Term → Bool
  | .param _ => false
  | .member t _ => t.hasAggregate
  | .const _ => false
  | .binary _ l r => l.hasAggregate || r.hasAggregate
  | .not t => t.hasAggregate
  | .negate t => t.hasAggregate
  | .call _ as => Term.anyAggregate as
  | .isIn t is => t.hasAggregate || Term.anyAggregate is
  | .aggregate .. => true
  | .record ms => Term.memberAggregate ms

def Term.anyAggregate : List Term → Bool
  | [] => false
  | t :: ts => t.hasAggregate || Term.anyAggregate ts

def Term.memberAggregate : List (String × Term) → Bool
  | [] => false
  | (_, t) :: ms => t.hasAggregate || Term.memberAggregate ms

end

/-! ## Closed properties -/

/-- The property is kept by all the ways in which lambdas build expressions; by aggregate calls only
if there are `aggregates`. -/
structure Sql.Closed (aggregates : Prop) (Q : Sql.Expr → Prop) : Prop where
  literal : ∀ v, Q (.literal v)
  compare : ∀ op l r, Q l → Q r → Q (.compare op l r)
  arithmetic : ∀ op l r, Q l → Q r → Q (.arithmetic op l r)
  conjunction : ∀ l r, Q l → Q r → Q (.and (l.asPredicate.conjuncts ++ r.asPredicate.conjuncts))
  disjunction : ∀ l r, Q l → Q r → Q (.or (l.asPredicate.disjuncts ++ r.asPredicate.disjuncts))
  negation : ∀ e, Q e → Q (.not e.asPredicate)
  negate : ∀ e, Q e → Q (.negate e)
  isNull : ∀ e n, Q e → Q (.isNull e n)
  inList : ∀ e is, Q e → (∀ i ∈ is, Q i) → Q (.inList e is false)
  call : ∀ f as, (∀ a ∈ as, Q a) → Q (.call f as)
  aggregate : aggregates → ∀ f as d, (∀ a ∈ as, Q a) → Q (.aggregate f as d)

/-- All scalars of the bound shapes have the property. -/
def Bindings.All (Q : Sql.Expr → Prop) (b : Bindings) : Prop :=
  ∀ p shape, b.get? p = some shape → ∀ e ∈ shape.scalars, Q e

theorem Shape.scalars_of_lookup {ms : List (String × Shape)} {n : String} {m : Shape}
    (h : ms.lookup n = some m) : ∀ e ∈ m.scalars, e ∈ Shape.memberScalars ms := by
  induction ms with
  | nil => cases h
  | cons x ms ih =>
    obtain ⟨n', s⟩ := x
    intro e he
    rw [Shape.memberScalars, List.mem_append]
    rw [List.lookup_cons] at h
    cases hn : n == n' with
    | true => rw [hn] at h; cases h; exact Or.inl he
    | false => rw [hn] at h; exact Or.inr (ih h e he)

theorem Shape.scalars_of_member? {s m : Shape} {n : String} (h : s.member? n = some m) :
    ∀ e ∈ m.scalars, e ∈ s.scalars := by
  cases s with
  | scalar _ => cases h
  | collection _ _ _ => cases h
  | object o => exact Shape.scalars_of_lookup h

namespace Scope

variable {A : Prop} {Q : Sql.Expr → Prop} {s : Scope}

theorem enter_eq_ok {depth depth' : Nat} : s.enter depth = .ok depth' ↔
    depth < s.depthLimit ∧ depth' = depth + 1 := by
  unfold enter
  by_cases h : s.depthLimit ≤ depth
  · rw [if_pos h]
    simp only [reduceCtorEq, false_iff, not_and]
    omega
  · rw [if_neg h, Except.ok.injEq]
    omega

theorem lookup_eq_ok {p : Param} {shape : Shape} :
    s.lookup p = .ok shape ↔ s.bindings.get? p = some shape := by
  unfold lookup
  cases s.bindings.get? p <;> simp

theorem memberOf_eq_ok {shape m : Shape} {name : String} :
    memberOf shape name = .ok m ↔ shape.member? name = some m := by
  unfold memberOf
  cases shape.member? name <;> simp

/-- What a chain of members denotes has every property that the bound shapes have and that members
take over. -/
theorem resolve_induction {P : Term → Shape → Prop}
    (hparam : ∀ p shape, s.bindings.get? p = some shape → P (.param p) shape)
    (hmember : ∀ t name owner m, P t owner → owner.member? name = some m → P (.member t name) m) :
    ∀ (t : Term) (depth : Nat) (shape : Shape), s.resolve t depth = .ok (some shape) → P t shape
  | .param p, depth, shape, h => by
    simp only [resolve, bind_eq_ok, pure_eq_ok, lookup_eq_ok, Option.some.injEq] at h
    obtain ⟨_, _, shape, hp, rfl⟩ := h
    exact hparam p shape hp
  | .member t name, depth, shape, h => by
    simp only [resolve, bind_eq_ok] at h
    obtain ⟨d, _, o, ho, h⟩ := h
    cases o with
    | none => cases h
    | some owner =>
      simp only [bind_eq_ok, pure_eq_ok, memberOf_eq_ok, Option.some.injEq] at h
      obtain ⟨m, hm, rfl⟩ := h
      exact hmember t name owner m (resolve_induction hparam hmember t d owner ho) hm
  | .const _, depth, shape, h | .binary .., depth, shape, h | .not _, depth, shape, h
  | .negate _, depth, shape, h | .call .., depth, shape, h | .isIn .., depth, shape, h
  | .aggregate .., depth, shape, h | .record _, depth, shape, h => by
    simp only [resolve, bind_eq_ok, pure_eq_ok, reduceCtorEq, and_false, exists_false] at h

theorem resolve_closed (hb : s.bindings.All Q) (t : Term) (depth : Nat) (shape : Shape)
    (h : s.resolve t depth = .ok (some shape)) : ∀ e ∈ shape.scalars, Q e := by
  refine resolve_induction (P := fun _ shape => ∀ e ∈ shape.scalars, Q e) hb ?_ t depth shape h
  intro t name owner m howner hm e he
  exact howner e (Shape.scalars_of_member? hm e he)

theorem resolve_of_scalarMember {t : Term} {depth : Nat} {e : Sql.Expr}
    (h : s.scalarMember t depth = .ok e) : s.resolve t depth = .ok (some (.scalar e)) := by
  simp only [scalarMember, bind_eq_ok] at h
  obtain ⟨o, ho, h⟩ := h
  split at h
  · simp only [bind_eq_ok, pure_eq_ok] at h
    obtain ⟨_, _, rfl⟩ := h
    exact ho
  · cases h
  · cases h

theorem scalarMember_closed (hb : s.bindings.All Q) {t : Term} {depth : Nat} {e : Sql.Expr}
    (h : s.scalarMember t depth = .ok e) : Q e :=
  resolve_closed hb t depth _ (resolve_of_scalarMember h) e (List.mem_singleton_self e)

theorem nullTest_closed (hQ : Sql.Closed A Q) {op : Sql.Comparator} {e r : Sql.Expr} (he : Q e)
    (h : Sql.Expr.nullTest op e = .ok r) : Q r := by
  unfold Sql.Expr.nullTest at h
  split at h
  · cases h; exact hQ.isNull e false he
  · cases h; exact hQ.isNull e true he
  · cases h

theorem operation_closed (hQ : Sql.Closed A Q) {op : BinaryOp} {l r e : Sql.Expr} (hl : Q l)
    (hr : Q r) (h : Sql.Expr.operation op l r = .ok e) : Q e := by
  cases op with
  | compare op =>
    simp only [Sql.Expr.operation, Sql.Expr.comparison] at h
    split at h
    · cases h
    · exact nullTest_closed hQ hl h
    · exact nullTest_closed hQ hr h
    · cases h; exact hQ.compare op l r hl hr
  | and => cases h; exact hQ.conjunction l r hl hr
  | or => cases h; exact hQ.disjunction l r hl hr
  | arithmetic op => cases h; exact hQ.arithmetic op l r hl hr

mutual

/-- What a term denotes has every property that literals and the bound scalars have and that
building keeps. -/
theorem scalar_closed (hQ : Sql.Closed A Q) (hb : s.bindings.All Q) :
    ∀ (t : Term) (depth : Nat) (e : Sql.Expr), (t.hasAggregate = true → A) →
      s.scalar t depth = .ok e → Q e
  | .param p, depth, e, _, h => by
    simp only [scalar, bind_eq_ok] at h
    obtain ⟨_, _, h⟩ := h
    exact scalarMember_closed hb h
  | .member t name, depth, e, _, h => by
    simp only [scalar, bind_eq_ok] at h
    obtain ⟨_, _, h⟩ := h
    exact scalarMember_closed hb h
  | .const v, depth, e, _, h => by
    simp only [scalar, bind_eq_ok, pure_eq_ok] at h
    obtain ⟨_, _, rfl⟩ := h
    exact hQ.literal v
  | .binary op l r, depth, e, ha, h => by
    simp only [scalar, bind_eq_ok] at h
    simp only [Term.hasAggregate, Bool.or_eq_true] at ha
    obtain ⟨d, _, l', hl, r', hr, h⟩ := h
    exact operation_closed hQ (scalar_closed hQ hb l d l' (fun h => ha (.inl h)) hl)
      (scalar_closed hQ hb r d r' (fun h => ha (.inr h)) hr) h
  | .not t, depth, e, ha, h => by
    simp only [scalar, bind_eq_ok, pure_eq_ok] at h
    obtain ⟨d, _, e', he, rfl⟩ := h
    exact hQ.negation e' (scalar_closed hQ hb t d e' ha he)
  | .negate t, depth, e, ha, h => by
    simp only [scalar, bind_eq_ok, pure_eq_ok] at h
    obtain ⟨d, _, e', he, rfl⟩ := h
    exact hQ.negate e' (scalar_closed hQ hb t d e' ha he)
  | .call f as, depth, e, ha, h => by
    simp only [scalar, bind_eq_ok, pure_eq_ok] at h
    obtain ⟨d, _, es, hes, rfl⟩ := h
    exact hQ.call _ es (scalars_closed hQ hb as d es ha hes)
  | .isIn t is, depth, e, ha, h => by
    simp only [scalar, bind_eq_ok, pure_eq_ok] at h
    simp only [Term.hasAggregate, Bool.or_eq_true] at ha
    obtain ⟨d, _, e', he, es, hes, rfl⟩ := h
    exact hQ.inList e' es (scalar_closed hQ hb t d e' (fun h => ha (.inl h)) he)
      (scalars_closed hQ hb is d es (fun h => ha (.inr h)) hes)
  | .aggregate f none distinct, depth, e, ha, h => by
    simp only [scalar, bind_eq_ok] at h
    obtain ⟨d, _, h⟩ := h
    split at h
    · cases h; exact hQ.aggregate (ha rfl) f [] distinct (by simp)
    · cases h
  | .aggregate f (some t) distinct, depth, e, ha, h => by
    simp only [scalar, bind_eq_ok, pure_eq_ok] at h
    obtain ⟨d, _, e', he, rfl⟩ := h
    refine hQ.aggregate (ha rfl) f [e'] distinct ?_
    intro a hmem
    rw [List.mem_singleton.mp hmem]
    exact scalar_closed hQ hb t d e' (fun _ => ha rfl) he
  | .record _, depth, e, _, h => by
    simp only [scalar, bind_eq_ok, reduceCtorEq, and_false, exists_false] at h

theorem scalars_closed (hQ : Sql.Closed A Q) (hb : s.bindings.All Q) :
    ∀ (ts : List Term) (depth : Nat) (es : List Sql.Expr), (Term.anyAggregate ts = true → A) →
      s.scalars ts depth = .ok es → ∀ e ∈ es, Q e
  | [], depth, es, _, h => by
    cases h
    simp
  | t :: ts, depth, es, ha, h => by
    simp only [scalars, bind_eq_ok, pure_eq_ok] at h
    simp only [Term.anyAggregate, Bool.or_eq_true] at ha
    obtain ⟨e, he, es, hes, rfl⟩ := h
    intro x hx
    rcases List.mem_cons.mp hx with rfl | hx
    · exact scalar_closed hQ hb t depth x (fun h => ha (.inl h)) he
    · exact scalars_closed hQ hb ts depth es (fun h => ha (.inr h)) hes x hx

end

theorem expression_closed (hQ : Sql.Closed A Q) (hb : s.bindings.All Q) {f : Lambda} {e : Sql.Expr}
    (ha : f.body.hasAggregate = true → A) (h : s.expression f = .ok e) : Q e :=
  scalar_closed hQ hb f.body 0 e ha h

/-! ## Selections -/

/-- A shape is that of a chain of members, or else the term is a scalar. -/
theorem shapeOf_cases {t : Term} {depth : Nat} {shape : Shape} (h : s.shapeOf t depth = .ok shape) :
    s.resolve t depth = .ok (some shape) ∨
      s.resolve t depth = .ok none ∧ ∃ e, s.scalar t depth = .ok e ∧ shape = .scalar e := by
  simp only [shapeOf, bind_eq_ok] at h
  obtain ⟨o, ho, h⟩ := h
  cases o with
  | some shape' =>
    simp only [bind_eq_ok, pure_eq_ok] at h
    obtain ⟨_, _, rfl⟩ := h
    exact .inl ho
  | none =>
    simp only [bind_eq_ok, pure_eq_ok] at h
    obtain ⟨e, he, rfl⟩ := h
    exact .inr ⟨ho, e, he, rfl⟩

theorem shapeOf_closed (hQ : Sql.Closed A Q) (hb : s.bindings.All Q) {t : Term} {depth : Nat}
    {shape : Shape} (ha : t.hasAggregate = true → A) (h : s.shapeOf t depth = .ok shape) :
    ∀ e ∈ shape.scalars, Q e := by
  rcases shapeOf_cases h with hchain | ⟨-, e, he, rfl⟩
  · exact resolve_closed hb t depth shape hchain
  · intro x hx
    rw [List.mem_singleton.mp hx]
    exact scalar_closed hQ hb t depth e ha he

theorem memberScalars_append (ms ms' : List (String × Shape)) :
    Shape.memberScalars (ms ++ ms') = Shape.memberScalars ms ++ Shape.memberScalars ms' := by
  induction ms with
  | nil => rfl
  | cons x ms ih =>
    rw [List.cons_append, Shape.memberScalars, Shape.memberScalars, ih, List.append_assoc]

mutual

theorem shape_closed (hQ : Sql.Closed A Q) (hb : s.bindings.All Q) :
    ∀ (t : Term) (depth : Nat) (shape : Shape), (t.hasAggregate = true → A) →
      s.shape t depth = .ok shape → ∀ e ∈ shape.scalars, Q e
  | .record ms, depth, shape, ha, h => by
    simp only [Scope.shape, bind_eq_ok, pure_eq_ok] at h
    obtain ⟨d, _, members, hm, rfl⟩ := h
    exact shapes_closed hQ hb ms d [] members ha (by simp [Shape.memberScalars]) hm
  | .param p, depth, shape, ha, h => by
    simp only [Scope.shape, bind_eq_ok] at h
    obtain ⟨d, _, h⟩ := h
    exact shapeOf_closed hQ hb ha h
  | .member t name, depth, shape, ha, h => by
    simp only [Scope.shape, bind_eq_ok] at h
    obtain ⟨d, _, h⟩ := h
    exact shapeOf_closed hQ hb ha h
  | .const v, depth, shape, ha, h | .binary o l r, depth, shape, ha, h
  | .not t, depth, shape, ha, h | .negate t, depth, shape, ha, h | .call f as, depth, shape, ha, h
  | .isIn t is, depth, shape, ha, h | .aggregate f a distinct, depth, shape, ha, h => by
    simp only [Scope.shape, bind_eq_ok, pure_eq_ok] at h
    obtain ⟨d, _, e, he, rfl⟩ := h
    intro x hx
    rw [List.mem_singleton.mp hx]
    exact scalar_closed hQ hb _ d e ha he

theorem shapes_closed (hQ : Sql.Closed A Q) (hb : s.bindings.All Q) :
    ∀ (ms : List (String × Term)) (depth : Nat) (done members : List (String × Shape)),
      (Term.memberAggregate ms = true → A) → (∀ e ∈ Shape.memberScalars done, Q e) →
      s.shapes ms depth done = .ok members → ∀ e ∈ Shape.memberScalars members, Q e
  | [], depth, done, members, _, hd, h => by
    cases h
    exact hd
  | (name, t) :: ms, depth, done, members, ha, hd, h => by
    simp only [shapes] at h
    simp only [Term.memberAggregate, Bool.or_eq_true] at ha
    split at h
    · cases h
    · simp only [bind_eq_ok] at h
      obtain ⟨shape, hs, h⟩ := h
      refine shapes_closed hQ hb ms depth _ members (fun h => ha (.inr h)) ?_ h
      intro e he
      rw [memberScalars_append, List.mem_append] at he
      rcases he with he | he
      · exact hd e he
      · rw [Shape.memberScalars, Shape.memberScalars, List.append_nil] at he
        exact shape_closed hQ hb t depth shape (fun h => ha (.inl h)) hs e he

end

theorem selection_closed (hQ : Sql.Closed A Q) (hb : s.bindings.All Q) {f : Lambda} {shape : Shape}
    (ha : f.body.hasAggregate = true → A) (h : s.selection f = .ok shape) :
    ∀ e ∈ shape.scalars, Q e :=
  shape_closed hQ hb f.body 0 shape ha h

/-! ## Group keys -/

mutual

theorem leaves_subset : ∀ (s : Shape), ∀ e ∈ s.leaves, e ∈ s.scalars
  | .scalar _, _, h => h
  | .object ⟨_, _, ms, _, _⟩, e, h => memberLeaves_subset ms e h
  | .collection .., _, h => by cases h

theorem memberLeaves_subset : ∀ (ms : List (String × Shape)),
    ∀ e ∈ Shape.memberLeaves ms, e ∈ Shape.memberScalars ms
  | [], _, h => h
  | (_, s) :: ms, e, h => by
    rw [Shape.memberLeaves, List.mem_append] at h
    rw [Shape.memberScalars, List.mem_append]
    exact h.imp (leaves_subset s e) (memberLeaves_subset ms e)

end

theorem keysOf_cases {t : Term} {depth : Nat} {keys : List Sql.Expr} (h : s.keysOf t depth = .ok keys) :
    (∃ shape, s.resolve t depth = .ok (some shape) ∧ keys = shape.leaves) ∨
      s.resolve t depth = .ok none ∧ ∃ e, s.scalar t depth = .ok e ∧ keys = [e] := by
  simp only [keysOf, bind_eq_ok] at h
  obtain ⟨o, ho, h⟩ := h
  split at h
  · cases h
  · simp only [bind_eq_ok, pure_eq_ok] at h
    obtain ⟨_, _, rfl⟩ := h
    exact .inl ⟨_, ho, rfl⟩
  · simp only [bind_eq_ok, pure_eq_ok] at h
    obtain ⟨e, he, rfl⟩ := h
    exact .inr ⟨ho, e, he, rfl⟩

theorem keysOf_closed (hQ : Sql.Closed A Q) (hb : s.bindings.All Q) {t : Term} {depth : Nat}
    {keys : List Sql.Expr} (ha : t.hasAggregate = true → A) (h : s.keysOf t depth = .ok keys) :
    ∀ e ∈ keys, Q e := by
  intro x hx
  rcases keysOf_cases h with ⟨shape, hchain, rfl⟩ | ⟨-, e, he, rfl⟩
  · exact resolve_closed hb t depth shape hchain x (leaves_subset shape x hx)
  · rw [List.mem_singleton.mp hx]
    exact scalar_closed hQ hb t depth e ha he

theorem keysOfAll_closed (hQ : Sql.Closed A Q) (hb : s.bindings.All Q) {ms : List (String × Term)}
    {depth : Nat} {keys : List Sql.Expr} (ha : Term.memberAggregate ms = true → A)
    (h : s.keysOfAll ms depth = .ok keys) : ∀ e ∈ keys, Q e := by
  induction ms generalizing keys with
  | nil => cases h; simp
  | cons x ms ih =>
    obtain ⟨n, t⟩ := x
    simp only [keysOfAll, bind_eq_ok, pure_eq_ok] at h
    simp only [Term.memberAggregate, Bool.or_eq_true] at ha
    obtain ⟨ks, hk, more, hm, rfl⟩ := h
    intro e he
    rcases List.mem_append.mp he with he | he
    · exact keysOf_closed hQ hb (fun h => ha (.inl h)) hk e he
    · exact ih (fun h => ha (.inr h)) hm e he

theorem groupKeys_closed (hQ : Sql.Closed A Q) (hb : s.bindings.All Q) {f : Lambda}
    {keys : List Sql.Expr} (ha : f.body.hasAggregate = true → A) (h : s.groupKeys f = .ok keys) :
    ∀ e ∈ keys, Q e := by
  unfold groupKeys at h
  split at h
  · rename_i ms hbody
    simp only [bind_eq_ok] at h
    obtain ⟨d, _, h⟩ := h
    rw [hbody] at ha
    exact keysOfAll_closed hQ hb ha h
  · exact keysOf_closed hQ hb ha h

end Scope

/-! ## Columns of what a lambda denotes -/

namespace Sql.Expr

@[simp] theorem columns_asPredicate (e : Expr) : e.asPredicate.columns = e.columns := by
  unfold asPredicate
  split <;> simp

@[simp] theorem flatMap_columns_conjuncts (e : Expr) : e.conjuncts.flatMap columns = e.columns := by
  unfold conjuncts
  split <;> simp

@[simp] theorem flatMap_columns_disjuncts (e : Expr) : e.disjuncts.flatMap columns = e.columns := by
  unfold disjuncts
  split <;> simp

end Sql.Expr

/-- All columns that the expression mentions satisfy `P`. -/
def Sql.Expr.Over (P : Sql.Column → Prop) (e : Sql.Expr) : Prop := ∀ c ∈ e.columns, P c

/-- Where the columns of an expression come from is a closed property. -/
theorem Sql.Closed.columns (P : Sql.Column → Prop) : Sql.Closed True (Sql.Expr.Over P) := by
  have two (l r : Sql.Expr) (hl : ∀ c ∈ l.columns, P c) (hr : ∀ c ∈ r.columns, P c) :
      ∀ c ∈ l.columns ++ r.columns, P c := by
    intro c hc
    exact (List.mem_append.mp hc).elim (hl c) (hr c)
  have many (es : List Sql.Expr) (h : ∀ e ∈ es, ∀ c ∈ e.columns, P c) :
      ∀ c ∈ es.flatMap Sql.Expr.columns, P c := by
    intro c hc
    obtain ⟨e, he, hce⟩ := List.mem_flatMap.mp hc
    exact h e he c hce
  unfold Sql.Expr.Over
  constructor
  case literal => intro v c hc; cases hc
  case compare => intro op l r hl hr; simpa using two l r hl hr
  case arithmetic => intro op l r hl hr; simpa using two l r hl hr
  case conjunction => intro l r hl hr; simpa using two l r hl hr
  case disjunction => intro l r hl hr; simpa using two l r hl hr
  case negation => intro e he; simpa using he
  case negate => intro e he; simpa using he
  case isNull => intro e n he; simpa using he
  case inList =>
    intro e is he his c hc
    rw [Sql.Expr.columns_inList] at hc
    exact (List.mem_append.mp hc).elim (he c) (many is his c)
  case call => intro f as has; rw [Sql.Expr.columns_call]; exact many as has
  case aggregate => intro _ f as d has; rw [Sql.Expr.columns_aggregate]; exact many as has

end EntityQuery
