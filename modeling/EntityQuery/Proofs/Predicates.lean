import EntityQuery.Proofs.Acceptance
import EntityQuery.Proofs.Correctness
import EntityQuery.Proofs.Invariants
import EntityQuery.Proofs.Promotion

/-! # Predicates on a wrapped query

A lambda on a wrapped query reads columns of the derived table where it read expressions before.
Column by column that is the same, so predicates keep their meaning, with one exception: a member
that was the null constant is an ordinary column afterwards. Comparisons with it were tests for null
or made no sense; on the wrapped query they are comparisons like any other. -/

namespace EntityQuery
set_option autoImplicit false

/-! ## Replaced columns -/

namespace Sql.Expr

variable {I : Interpretation} {f : Column → Expr}

theorem isPredicate_replace {e : Expr} (h : e.isPredicate = true) :
    (e.replace f .literal).isPredicate = true := by
  unfold isPredicate at h
  split at h
  · rfl
  · rfl
  · rfl
  · rfl
  · rfl
  · rfl
  · rfl
  · cases h

theorem truth_replace_asPredicate (hI : I.Lawful) (e : Expr) (g : List Valuation) :
    (e.asPredicate.replace f .literal).truth I g = I.holds ((e.replace f .literal).eval I g) := by
  by_cases h : e.isPredicate = true
  · have heq : e.asPredicate = e := by rw [asPredicate, if_pos h]
    rw [heq, ← truth_asPredicate hI, asPredicate, if_pos (isPredicate_replace h)]
  · rw [asPredicate, if_neg h, replace, truth, eval, Truth.truth_value]
    rfl

theorem all_replace_conjuncts (e : Expr) (g : List Valuation) :
    Truth.all ((e.conjuncts.map (replace f .literal)).map fun p => p.truth I g) =
      (e.replace f .literal).truth I g := by
  unfold conjuncts
  split
  · rw [replace, replaceAll_eq, truth_and]
  · exact Truth.and_true _

theorem any_replace_disjuncts (e : Expr) (g : List Valuation) :
    Truth.any ((e.disjuncts.map (replace f .literal)).map fun p => p.truth I g) =
      (e.replace f .literal).truth I g := by
  unfold disjuncts
  split
  · rw [replace, replaceAll_eq, truth_or]
  · exact Truth.or_false _

/-- With columns replaced, the first expression denotes what the second does. -/
def Agrees (I : Interpretation) (f : Column → Expr) (e' e : Expr) : Prop :=
  ∀ g, (e'.replace f .literal).eval I g = e.eval I g

theorem Agrees.evalAll {es' es : List Expr} (h : List.Forall₂ (Agrees I f) es' es) (g : List Valuation) :
    Expr.evalAll I (replaceAll f .literal es') g = Expr.evalAll I es g := by
  induction h with
  | nil => rfl
  | cons he _ ih => rw [replaceAll, Expr.evalAll, Expr.evalAll, he g, ih]

theorem eval_and (ps : List Expr) (g : List Valuation) :
    eval I (.and ps) g = (Truth.all (ps.map fun p => p.truth I g)).value := by
  rw [eval, evalAll_eq, List.map_map]
  rfl

theorem eval_or (ps : List Expr) (g : List Valuation) :
    eval I (.or ps) g = (Truth.any (ps.map fun p => p.truth I g)).value := by
  rw [eval, evalAll_eq, List.map_map]
  rfl

variable {l' l r' r : Expr}

theorem Agrees.conjunction (hI : I.Lawful) (hl : Agrees I f l' l) (hr : Agrees I f r' r) :
    Agrees I f (.and (l'.asPredicate.conjuncts ++ r'.asPredicate.conjuncts))
      (.and (l.asPredicate.conjuncts ++ r.asPredicate.conjuncts)) := by
  intro g
  rw [replace, replaceAll_eq, eval_and, eval_and, List.map_append, List.map_append, List.map_append,
    Truth.all_append, Truth.all_append, all_replace_conjuncts, all_replace_conjuncts, all_conjuncts,
    all_conjuncts, truth_replace_asPredicate hI, truth_replace_asPredicate hI, truth_asPredicate hI,
    truth_asPredicate hI, hl g, hr g]

theorem Agrees.disjunction (hI : I.Lawful) (hl : Agrees I f l' l) (hr : Agrees I f r' r) :
    Agrees I f (.or (l'.asPredicate.disjuncts ++ r'.asPredicate.disjuncts))
      (.or (l.asPredicate.disjuncts ++ r.asPredicate.disjuncts)) := by
  intro g
  rw [replace, replaceAll_eq, eval_or, eval_or, List.map_append, List.map_append, List.map_append,
    Truth.any_append, Truth.any_append, any_replace_disjuncts, any_replace_disjuncts, any_disjuncts,
    any_disjuncts, truth_replace_asPredicate hI, truth_replace_asPredicate hI, truth_asPredicate hI,
    truth_asPredicate hI, hl g, hr g]

theorem Agrees.negation (hI : I.Lawful) (h : Agrees I f l' l) :
    Agrees I f (.not l'.asPredicate) (.not l.asPredicate) := by
  intro g
  have ht : (l'.asPredicate.replace f .literal).truth I g = l.asPredicate.truth I g := by
    rw [truth_replace_asPredicate hI, truth_asPredicate hI, h g]
  rw [replace, eval, eval]
  exact congrArg (fun t => (Truth.not t).value) ht

theorem Agrees.comparison {op : Comparator} {e' e : Expr} (hl : Agrees I f l' l) (hr : Agrees I f r' r)
    (hnl : l'.isNullConstant = l.isNullConstant) (hnr : r'.isNullConstant = r.isNullConstant)
    (h' : comparison op l' r' = .ok e') (h : comparison op l r = .ok e) : Agrees I f e' e := by
  have htest : ∀ {x' x : Expr}, Agrees I f x' x → nullTest op x' = .ok e' → nullTest op x = .ok e →
      Agrees I f e' e := by
    intro x' x hx h' h g
    cases op with
    | eq | ne =>
      cases h'
      cases h
      rw [replace, eval, eval, hx g]
    | _ => cases h
  unfold Expr.comparison at h h'
  rw [hnl, hnr] at h'
  cases hl' : l.isNullConstant <;> cases hr' : r.isNullConstant <;> rw [hl', hr'] at h h'
  · cases h'
    cases h
    intro g
    rw [replace, eval, eval, hl g, hr g]
  · exact htest hl h' h
  · exact htest hr h' h
  · cases h

theorem Agrees.operation (hI : I.Lawful) {op : BinaryOp} {e' e : Expr} (hl : Agrees I f l' l)
    (hr : Agrees I f r' r)
    (hnull : ∀ o, op = .compare o →
      l'.isNullConstant = l.isNullConstant ∧ r'.isNullConstant = r.isNullConstant)
    (h' : operation op l' r' = .ok e') (h : operation op l r = .ok e) : Agrees I f e' e := by
  cases op with
  | compare op => exact hl.comparison hr (hnull op rfl).1 (hnull op rfl).2 h' h
  | and => cases h'; cases h; exact hl.conjunction hI hr
  | or => cases h'; cases h; exact hl.disjunction hI hr
  | arithmetic op =>
    cases h'
    cases h
    intro g
    rw [replace, eval, eval, hl g, hr g]

end Sql.Expr

/-! ## Related bindings -/

/-- The same names stand for the same trees with related scalars. -/
def Bindings.Rel (R : Sql.Expr → Sql.Expr → Prop) (b' b : Bindings) : Prop :=
  ∀ p, Option.Rel (Shape.Rel R) (b'.get? p) (b.get? p)

namespace Bindings

variable {R : Sql.Expr → Sql.Expr → Prop} {b' b : Bindings}

theorem rel_lookup {name : String} {ms' ms : List (String × Shape)} (h : Shape.RelMembers R ms' ms) :
    Option.Rel (Shape.Rel R) (ms'.lookup name) (ms.lookup name) := by
  induction ms' generalizing ms with
  | nil =>
    cases ms with
    | nil => exact .none
    | cons m ms => cases h
  | cons m' ms' ih =>
    obtain ⟨n', s'⟩ := m'
    cases ms with
    | nil => cases h
    | cons m ms =>
      obtain ⟨rfl, hs, hms⟩ := h
      rw [List.lookup_cons, List.lookup_cons]
      cases name == m.1 with
      | true => exact .some hs
      | false => exact ih hms

theorem rel_member? {name : String} {s' s : Shape} (h : s'.Rel R s) :
    Option.Rel (Shape.Rel R) (s'.member? name) (s.member? name) := by
  cases s' with
  | scalar e' => cases s <;> first | exact .none | cases h
  | collection x' c' f' => cases s <;> first | exact .none | cases h
  | object o' =>
    cases s with
    | object o => exact rel_lookup h.2.2
    | _ => cases h

theorem Rel.shape? (h : Rel R b' b) : ∀ t : Term,
    Option.Rel (Shape.Rel R) (b'.shape? t) (b.shape? t)
  | .param p => h p
  | .member t name => by
    have ht := h.shape? t
    rw [Bindings.shape?, Bindings.shape?]
    cases hs' : b'.shape? t <;> cases hs : b.shape? t <;> rw [hs', hs] at ht <;> cases ht
    · exact .none
    · rename_i hr
      exact rel_member? hr
  | .const _ | .binary .. | .not _ | .negate _ | .call .. | .isIn .. | .aggregate .. | .record _ => .none

theorem Rel.scalar (h : Rel R b' b) (t : Term) :
    (∃ e' e, b'.shape? t = some (.scalar e') ∧ b.shape? t = some (.scalar e) ∧ R e' e) ∨
      (∀ e', b'.shape? t ≠ some (.scalar e')) ∧ ∀ e, b.shape? t ≠ some (.scalar e) := by
  have ht := h.shape? t
  cases hs' : b'.shape? t <;> cases hs : b.shape? t <;> rw [hs', hs] at ht <;> cases ht
  · exact .inr ⟨by simp, by simp⟩
  · rename_i s' s hr
    cases s' with
    | scalar e' =>
      cases s with
      | scalar e => exact .inl ⟨e', e, rfl, rfl, hr⟩
      | _ => cases hr
    | _ =>
      cases s with
      | scalar e => cases hr
      | _ => exact .inr ⟨by simp, by simp⟩

theorem All.shape? {Q : Sql.Expr → Prop} (h : b.All Q) : ∀ (t : Term) (shape : Shape),
    b.shape? t = some shape → ∀ e ∈ shape.scalars, Q e
  | .param p, shape, hs => h p shape hs
  | .member t name, shape, hs => by
    rw [Bindings.shape?, Option.bind_eq_some_iff] at hs
    obtain ⟨owner, ho, hm⟩ := hs
    intro e he
    exact h.shape? t owner ho e (Shape.scalars_of_member? hm e he)

theorem rel_bind {p : Param} {s' s : Shape} (h : s'.Rel R s) :
    Rel R (Bindings.bind {} p s') (Bindings.bind {} p s) := by
  intro p'
  change Option.Rel _ (List.lookup p' [(p, s')]) (List.lookup p' [(p, s)])
  rw [List.lookup_cons, List.lookup_cons]
  cases p' == p with
  | true => exact .some h
  | false => exact .none

theorem isNullMember_eq_false {t : Term}
    (h : ∀ e, b.shape? t = some (.scalar e) → e.isNullConstant = false) : b.isNullMember t = false := by
  unfold isNullMember
  split
  · rename_i e he
    exact h e he
  · rfl

/-- Whether the term is a comparison with a member that stands for the null constant. -/
def comparesNullMember (b : Bindings) : Term → Bool
  | .binary (.compare _) l r => b.isNullMember l || b.isNullMember r
  | _ => false

end Bindings

/-! ## Scopes of wrapped queries -/

theorem Sql.Comparator.admits_mono {op : Sql.Comparator} {l r x y : Bool}
    (h : op.admits (l || x) (r || y) = true) : op.admits l r = true := by
  cases op <;> cases l <;> cases r <;> cases x <;> cases y <;> first | rfl | cases h

namespace Scope

/-- The first scope has columns where the second has expressions, and both see the columns that
their members mention. -/
structure Mirrors (R : Sql.Expr → Sql.Expr → Prop) (s' s : Scope) : Prop where
  bindings : s'.bindings.Rel R s.bindings
  depthLimit : s'.depthLimit = s.depthLimit
  notNull : ∀ t, s'.bindings.isNullMember t = false
  outside : s'.bindings.All (Sql.Expr.Over fun c => s'.aliases.isVisible c.table = true)
  inside : s.bindings.All (Sql.Expr.Over fun c => s.aliases.isVisible c.table = true)

variable {R : Sql.Expr → Sql.Expr → Prop} {s' s : Scope}

theorem Mirrors.isNull (h : Mirrors R s' s) (t : Term) : s'.bindings.isNull t = t.isNull := by
  rw [Bindings.isNull, h.notNull t, Bool.or_false]

theorem Mirrors.admitsMember (h : Mirrors R s' s) (t : Term) : s.AdmitsMember t ↔ s'.AdmitsMember t := by
  rcases h.bindings.scalar t with ⟨e', e, he', he, -⟩ | ⟨hs', hs⟩
  · have hover' := h.outside.shape? t _ he' e' (List.mem_singleton_self _)
    have hover := h.inside.shape? t _ he e (List.mem_singleton_self _)
    exact ⟨fun _ => ⟨e', he', hover'⟩, fun _ => ⟨e, he, hover⟩⟩
  · constructor
    · rintro ⟨e, he, -⟩
      exact absurd he (hs e)
    · rintro ⟨e', he', -⟩
      exact absurd he' (hs' e')

/-- The scopes differ only in the comparisons that they admit, and what is comparable inside is
comparable outside. -/
theorem Mirrors.admits (h : Mirrors R s' s) (u : Term) :
    s.Admits u ↔ s'.Admits u ∧ s.bindings.comparable u = true := by
  cases u with
  | param p => simpa [Admits, Bindings.comparable] using h.admitsMember (.param p)
  | member t name => simpa [Admits, Bindings.comparable] using h.admitsMember (.member t name)
  | binary op l r =>
    cases op with
    | compare op =>
      simp only [Admits, Bindings.comparable, h.isNull, iff_and_self]
      exact Sql.Comparator.admits_mono
    | _ => simp [Admits, Bindings.comparable]
  | aggregate f a d => cases a <;> simp [Admits, Bindings.comparable]
  | _ => simp [Admits, Bindings.comparable]

theorem Mirrors.exists_scalar (h : Mirrors R s' s) (t : Term) (depth : Nat) :
    (∃ e, s.scalar t depth = .ok e) ↔
      (∃ e', s'.scalar t depth = .ok e') ∧ ∀ u ∈ t.parts, s.bindings.comparable u = true := by
  rw [scalar_eq_ok, scalar_eq_ok, h.depthLimit]
  simp only [h.admits, forall_and, and_assoc]

theorem Mirrors.exists_scalar_iff (h : Mirrors R s' s) {t : Term} (depth : Nat)
    (hn : ∀ u ∈ t.parts, s.bindings.comparesNullMember u = false) :
    (∃ e, s.scalar t depth = .ok e) ↔ ∃ e', s'.scalar t depth = .ok e' := by
  rw [h.exists_scalar, and_iff_left_iff_imp]
  -- What is comparable outside is comparable by the constants of the term alone.
  intro h' u hu
  have hadmits := ((scalar_eq_ok t depth).mp h').2 u hu
  have hcompares := hn u hu
  unfold Bindings.comparable
  split
  · simp only [Bindings.comparesNullMember, Bool.or_eq_false_iff] at hcompares
    rw [Bindings.isNull, Bindings.isNull, hcompares.1, hcompares.2, Bool.or_false, Bool.or_false,
      ← h.isNull, ← h.isNull]
    exact hadmits
  · rfl

section Meaning

variable {I : Interpretation} {f : Sql.Column → Sql.Expr}

theorem Mirrors.agrees_member (h : Mirrors R s' s) (hR : ∀ e' e, R e' e → Sql.Expr.Agrees I f e' e)
    {t : Term} {depth : Nat} {e' e : Sql.Expr} (h' : s'.scalarMember t depth = .ok e')
    (hs : s.scalarMember t depth = .ok e) : Sql.Expr.Agrees I f e' e := by
  obtain ⟨-, he', -⟩ := scalarMember_eq_ok.mp h'
  obtain ⟨-, he, -⟩ := scalarMember_eq_ok.mp hs
  rcases h.bindings.scalar t with ⟨x', x, hx', hx, hr⟩ | ⟨hn, -⟩
  · rw [hx'] at he'
    rw [hx] at he
    cases he'
    cases he
    exact hR _ _ hr
  · exact absurd he' (hn e')

mutual

/-- A term in which no member that stands for the null constant is compared denotes in the first
scope what it denotes in the second. -/
theorem Mirrors.agrees (h : Mirrors R s' s) (hI : I.Lawful)
    (hR : ∀ e' e, R e' e → Sql.Expr.Agrees I f e' e) : ∀ (t : Term) (depth : Nat) (e' e : Sql.Expr),
      (∀ u ∈ t.parts, s.bindings.comparesNullMember u = false) →
      s'.scalar t depth = .ok e' → s.scalar t depth = .ok e → Sql.Expr.Agrees I f e' e
  | .param p, depth, e', e, _, h', hs => by
    simp only [scalar, bind_eq_ok, enter_eq_ok] at h' hs
    obtain ⟨_, ⟨-, rfl⟩, h'⟩ := h'
    obtain ⟨_, ⟨-, rfl⟩, hs⟩ := hs
    exact h.agrees_member hR h' hs
  | .member t name, depth, e', e, _, h', hs => by
    simp only [scalar, bind_eq_ok, enter_eq_ok] at h' hs
    obtain ⟨_, ⟨-, rfl⟩, h'⟩ := h'
    obtain ⟨_, ⟨-, rfl⟩, hs⟩ := hs
    exact h.agrees_member hR h' hs
  | .const v, depth, e', e, _, h', hs => by
    simp only [scalar, bind_eq_ok, pure_eq_ok] at h' hs
    obtain ⟨_, -, rfl⟩ := h'
    obtain ⟨_, -, rfl⟩ := hs
    exact fun g => rfl
  | .binary op l r, depth, e', e, hn, h', hs => by
    simp only [scalar, bind_eq_ok, enter_eq_ok] at h' hs
    obtain ⟨_, ⟨-, rfl⟩, l', hl', r', hr', h'⟩ := h'
    obtain ⟨_, ⟨-, rfl⟩, l₁, hl, r₁, hr, hs⟩ := hs
    simp only [Term.parts, List.forall_mem_cons, List.forall_mem_append] at hn
    obtain ⟨hcompares, hnl, hnr⟩ := hn
    refine Sql.Expr.Agrees.operation hI (h.agrees hI hR l _ _ _ hnl hl' hl)
      (h.agrees hI hR r _ _ _ hnr hr' hr) ?_ h' hs
    -- Outside no member is the null constant and inside none that is compared, so the same sides are.
    rintro op rfl
    simp only [Bindings.comparesNullMember, Bool.or_eq_false_iff] at hcompares
    rw [isNullConstant_of_scalar hl', isNullConstant_of_scalar hl, isNullConstant_of_scalar hr',
      isNullConstant_of_scalar hr, h.isNull, h.isNull, Bindings.isNull, Bindings.isNull,
      hcompares.1, hcompares.2, Bool.or_false, Bool.or_false]
    exact ⟨rfl, rfl⟩
  | .not t, depth, e', e, hn, h', hs => by
    simp only [scalar, bind_eq_ok, enter_eq_ok, pure_eq_ok] at h' hs
    obtain ⟨_, ⟨-, rfl⟩, t', ht', rfl⟩ := h'
    obtain ⟨_, ⟨-, rfl⟩, t₁, ht, rfl⟩ := hs
    rw [Term.parts, List.forall_mem_cons] at hn
    exact (h.agrees hI hR t _ _ _ hn.2 ht' ht).negation hI
  | .negate t, depth, e', e, hn, h', hs => by
    simp only [scalar, bind_eq_ok, enter_eq_ok, pure_eq_ok] at h' hs
    obtain ⟨_, ⟨-, rfl⟩, t', ht', rfl⟩ := h'
    obtain ⟨_, ⟨-, rfl⟩, t₁, ht, rfl⟩ := hs
    rw [Term.parts, List.forall_mem_cons] at hn
    have hagrees := h.agrees hI hR t _ _ _ hn.2 ht' ht
    intro g
    rw [Sql.Expr.replace, Sql.Expr.eval, Sql.Expr.eval, hagrees g]
  | .call name as, depth, e', e, hn, h', hs => by
    simp only [scalar, bind_eq_ok, enter_eq_ok, pure_eq_ok] at h' hs
    obtain ⟨_, ⟨-, rfl⟩, as', has', rfl⟩ := h'
    obtain ⟨_, ⟨-, rfl⟩, as₁, has, rfl⟩ := hs
    rw [Term.parts, List.forall_mem_cons] at hn
    have hagrees := h.agreesAll hI hR as _ _ _ hn.2 has' has
    intro g
    rw [Sql.Expr.replace, Sql.Expr.eval, Sql.Expr.eval, Sql.Expr.Agrees.evalAll hagrees]
  | .isIn t is, depth, e', e, hn, h', hs => by
    simp only [scalar, bind_eq_ok, enter_eq_ok, pure_eq_ok] at h' hs
    obtain ⟨_, ⟨-, rfl⟩, t', ht', is', his', rfl⟩ := h'
    obtain ⟨_, ⟨-, rfl⟩, t₁, ht, is₁, his, rfl⟩ := hs
    simp only [Term.parts, List.forall_mem_cons, List.forall_mem_append] at hn
    have hagrees := h.agrees hI hR t _ _ _ hn.2.1 ht' ht
    have hitems := h.agreesAll hI hR is _ _ _ hn.2.2 his' his
    intro g
    rw [Sql.Expr.replace, Sql.Expr.eval, Sql.Expr.eval, hagrees g, Sql.Expr.Agrees.evalAll hitems]
  | .aggregate function none distinct, depth, e', e, _, h', hs => by
    simp only [scalar, bind_eq_ok] at h' hs
    obtain ⟨_, -, h'⟩ := h'
    obtain ⟨_, -, hs⟩ := hs
    cases hf : function.allowsNoArgument <;> rw [hf] at h' hs
    · cases hs
    · cases h'
      cases hs
      exact fun g => rfl
  | .aggregate function (some t) distinct, depth, e', e, hn, h', hs => by
    simp only [scalar, bind_eq_ok, enter_eq_ok, pure_eq_ok] at h' hs
    obtain ⟨_, ⟨-, rfl⟩, t', ht', rfl⟩ := h'
    obtain ⟨_, ⟨-, rfl⟩, t₁, ht, rfl⟩ := hs
    rw [Term.parts, List.forall_mem_cons] at hn
    have hagrees := h.agrees hI hR t _ _ _ hn.2 ht' ht
    intro g
    simp only [Sql.Expr.replace, Sql.Expr.replaceAll, Sql.Expr.eval, Sql.Expr.evalAll]
    refine congrArg (I.aggregate function distinct) (List.map_congr_left fun v _ => ?_)
    rw [hagrees [v]]
  | .record ms, depth, e', e, _, h', _ => by
    simp only [scalar, bind_eq_ok, reduceCtorEq, and_false, exists_false] at h'

theorem Mirrors.agreesAll (h : Mirrors R s' s) (hI : I.Lawful)
    (hR : ∀ e' e, R e' e → Sql.Expr.Agrees I f e' e) :
    ∀ (ts : List Term) (depth : Nat) (es' es : List Sql.Expr),
      (∀ u ∈ Term.partsAll ts, s.bindings.comparesNullMember u = false) →
      s'.scalars ts depth = .ok es' → s.scalars ts depth = .ok es →
      List.Forall₂ (Sql.Expr.Agrees I f) es' es
  | [], depth, es', es, _, h', hs => by
    cases h'
    cases hs
    exact .nil
  | t :: ts, depth, es', es, hn, h', hs => by
    simp only [scalars, bind_eq_ok, pure_eq_ok] at h' hs
    obtain ⟨t', ht', ts', hts', rfl⟩ := h'
    obtain ⟨t₁, ht, ts₁, hts, rfl⟩ := hs
    simp only [Term.partsAll, List.forall_mem_append] at hn
    exact .cons (h.agrees hI hR t _ _ _ hn.1 ht' ht) (h.agreesAll hI hR ts _ _ _ hn.2 hts' hts)

end

end Meaning

end Scope

/-! ## Promotion -/

namespace Query

variable {env : Env} {q : Query}

/-- The scope of a lambda on the result of a query. -/
def scopeAt (q : Query) (env : Env) (p : Param) : Scope :=
  q.draft.scope env (Bindings.bind {} p q.draft.result)

theorem filter_eq_ok (hb : q.draft.bindings = {}) (hs : q.stage = .general) {p : Param} {t : Term}
    {q' : Query} : q.accept env (.filter ⟨[p], t⟩) = .ok q' ↔
      ∃ e, (q.scopeAt env p).scalar t 0 = .ok e ∧
        q' = { draft := q.draft.addCondition e.asPredicate } := by
  obtain ⟨d, stage⟩ := q
  obtain rfl : stage = .general := hs
  change (d.filter env ⟨[p], t⟩ >>= fun d => pure ({ draft := d } : Query)) = .ok q' ↔ _
  simp only [bind_eq_ok, pure_eq_ok, Draft.filter_eq_ok, scopeAt]
  change d.bindings = {} at hb
  rw [hb]
  constructor
  · rintro ⟨_, ⟨p', e, hp, he, rfl⟩, rfl⟩
    cases hp
    exact ⟨e, he, rfl⟩
  · rintro ⟨e, he, rfl⟩
    exact ⟨_, ⟨p, e, rfl, he, rfl⟩, rfl⟩

theorem exists_filter (hb : q.draft.bindings = {}) (hs : q.stage = .general) {p : Param} {t : Term} :
    (∃ q', q.accept env (.filter ⟨[p], t⟩) = .ok q') ↔ ∃ e, (q.scopeAt env p).scalar t 0 = .ok e := by
  constructor
  · rintro ⟨q', h⟩
    obtain ⟨e, he, -⟩ := (filter_eq_ok hb hs).mp h
    exact ⟨e, he⟩
  · rintro ⟨e, he⟩
    exact ⟨_, (filter_eq_ok hb hs).mpr ⟨e, he, rfl⟩⟩

theorem Tidy.visible (hq : q.Tidy) (hd : q.draft.Sound env) (p : Param) :
    (q.scopeAt env p).bindings.All
      (Sql.Expr.Over fun c => (q.scopeAt env p).aliases.isVisible c.table = true) := by
  refine (Bindings.All.empty _).bind (fun e he c hc => ?_) p
  have hmem := (hd.supplied.result e he c hc).mem_aliases
  rw [← hq.named.visible] at hmem
  exact List.elem_eq_true_of_mem hmem

theorem exposes_agrees (q : Query) (env : Env) (table : String) {I : Interpretation} (hI : I.Lawful) :
    ∀ e' e, Sql.Statement.Exposes table (q.wrap env table).statement.columns e' e →
      Sql.Expr.Agrees I (Sql.Column.selected table (q.wrap env table).statement.columns) e' e := by
  intro e' e h g
  exact Sql.Expr.eval_congr hI (h.unfold (q.wrap_distinguished env table)) g

/-- A lambda on the wrapped query reads columns of the derived table, each of which selects what it
read before. -/
theorem Reachable.mirrors (h : Reachable env q) (p : Param) :
    Scope.Mirrors
      (Sql.Statement.Exposes (q.promotedLabel env) (q.wrap env (q.promotedLabel env)).statement.columns)
      (scopeAt { draft := q.promoted env } env p) (q.scopeAt env p) where
  bindings := Bindings.rel_bind (q.wrap_exposes env (q.promotedLabel env))
  depthLimit := rfl
  notNull := by
    -- What is exposed is a column, whatever it selects.
    intro t
    refine Bindings.isNullMember_eq_false fun e' he' => ?_
    rcases (Bindings.rel_bind (q.wrap_exposes env (q.promotedLabel env))).scalar t with
      ⟨x', x, hx', -, hexposes⟩ | ⟨hn, -⟩
    · obtain ⟨col, -, rfl, -⟩ := hexposes
      cases hx'.symm.trans he'
      rfl
    · exact absurd he' (hn e')
  outside := (h.tidy.promoted env).visible (promoted_sound h.sound) p
  inside := h.tidy.visible h.sound p

end Query

/-- **Promotion keeps predicates.** A query at the general stage whose result has no collection can
be wrapped. A predicate is accepted before exactly if it is accepted afterwards and its comparisons
make sense for the members that stand for the null constant. If no such member is compared, it is
accepted on both or on neither, and with the columns of the derived table unfolded the condition on
the wrapped query has, in every group of rows and under every lawful interpretation, the truth value
of the condition that is added to the query itself. -/
theorem Query.promote_filter {env : Env} {q : Query} (hq : Reachable env q) (hs : q.stage = .general)
    (hc : q.draft.result.hasCollection = false) (p : Param) (t : Term) :
    ∃ sub table st, q.asSubquery env = .ok sub ∧ sub.draft.sources = ⟨.derived st table, []⟩ ∧
      ((∃ q', q.accept env (.filter ⟨[p], t⟩) = .ok q') ↔
        (∃ q', sub.accept env (.filter ⟨[p], t⟩) = .ok q') ∧
          ∀ u ∈ t.parts, (Bindings.bind {} p q.draft.result).comparable u = true) ∧
      ((∀ u ∈ t.parts, (Bindings.bind {} p q.draft.result).comparesNullMember u = false) →
        ((∃ q', q.accept env (.filter ⟨[p], t⟩) = .ok q') ↔
          ∃ q', sub.accept env (.filter ⟨[p], t⟩) = .ok q') ∧
        ∀ q₁ q₂, q.accept env (.filter ⟨[p], t⟩) = .ok q₁ →
          sub.accept env (.filter ⟨[p], t⟩) = .ok q₂ →
          ∃ e e', q₁ = { draft := q.draft.addCondition e } ∧ q₂.draft.condition = some e' ∧
            ∀ I : Interpretation, I.Lawful → ∀ g, (e'.unfold table st.columns).truth I g = e.truth I g) := by
  have hm := hq.mirrors p
  have hb : q.draft.bindings = {} := hq.tidy.bindings
  have hb' : Draft.bindings (Query.draft { draft := q.promoted env }) = {} := hb
  refine ⟨{ draft := q.promoted env }, q.promotedLabel env, _, ?_, rfl, ?_, fun hn => ⟨?_, ?_⟩⟩
  · exact bind_eq_ok.mpr ⟨_, promote_eq_ok.mpr ⟨hc, rfl⟩, rfl⟩
  · rw [exists_filter hb hs, exists_filter hb' rfl]
    exact hm.exists_scalar t 0
  · rw [exists_filter hb hs, exists_filter hb' rfl]
    exact hm.exists_scalar_iff 0 hn
  · intro q₁ q₂ h₁ h₂
    obtain ⟨e, he, rfl⟩ := (filter_eq_ok hb hs).mp h₁
    obtain ⟨e', he', rfl⟩ := (filter_eq_ok hb' rfl).mp h₂
    refine ⟨e.asPredicate, e'.asPredicate, rfl, rfl, fun I hI g => ?_⟩
    have hagrees := hm.agrees hI (exposes_agrees q env _ hI) t 0 e' e hn he' he
    rw [Sql.Expr.unfold, Sql.Expr.truth_replace_asPredicate hI, Sql.Expr.truth_asPredicate hI,
      hagrees g]

namespace Sample

/-- Users by their ids, with whether they are adult and a note that is null. -/
def notedUsers : List Operator :=
  [.select ⟨[x], .record
    [("id", .member (.param x) "id"),
      ("adult", .binary (.compare .ge) (.member (.param x) "age") (.const (.int 18))),
      ("note", .const .null)]⟩]

/-- Whether someone is adult and has an id other than zero. -/
def knownAdult : Term :=
  .binary .and (.member (.param x) "adult")
    (.binary (.compare .ne) (.member (.param x) "id") (.const (.int 0)))

end Sample

theorem Query.promote_filter_adults : ∃ q sub q₁ q₂ table st e e',
    Query.build Sample.env "User" Sample.notedUsers = .ok q ∧ q.asSubquery Sample.env = .ok sub ∧
    sub.draft.sources = ⟨.derived st table, []⟩ ∧
    q.accept Sample.env (.filter ⟨[Sample.x], Sample.knownAdult⟩) = .ok q₁ ∧
    sub.accept Sample.env (.filter ⟨[Sample.x], Sample.knownAdult⟩) = .ok q₂ ∧
    q₁ = { draft := q.draft.addCondition e } ∧ q₂.draft.condition = some e' ∧
    ∀ I : Interpretation, I.Lawful → ∀ g, (e'.unfold table st.columns).truth I g = e.truth I g := by
  have h : (do
      let q ← Query.build Sample.env "User" Sample.notedUsers
      let _ ← q.accept Sample.env (.filter ⟨[Sample.x], Sample.knownAdult⟩)
      pure (decide (q.stage = .general), q.draft.result.hasCollection, Sample.knownAdult.parts.all
        fun u => !(Bindings.bind {} Sample.x q.draft.result).comparesNullMember u) :
        Except CompileError (Bool × Bool × Bool)) = .ok (true, false, true) :=
    ok_of_toOption (by decide +kernel)
  simp only [bind_eq_ok, pure_eq_ok, Prod.mk.injEq, decide_eq_true_eq, List.all_eq_true,
    Bool.not_eq_true'] at h
  obtain ⟨q, hq, q₁, hq₁, hs, hc, hn⟩ := h
  have hreach : Reachable Sample.env q :=
    reachable_of_build (by simp [Sample.notedUsers, Operator.Built]) hq
  obtain ⟨sub, table, st, hsub, hsources, -, hkeeps⟩ :=
    promote_filter hreach hs hc Sample.x Sample.knownAdult
  obtain ⟨haccepts, htruth⟩ := hkeeps hn
  obtain ⟨q₂, hq₂⟩ := haccepts.mp ⟨q₁, hq₁⟩
  obtain ⟨e, e', he, he', heq⟩ := htruth q₁ q₂ hq₁ hq₂
  exact ⟨q, sub, q₁, q₂, table, st, e, e', hq, hsub, hsources, hq₁, hq₂, he, he', heq⟩

/-! ## Members that are constants -/

/-- In a row the predicate has the truth value `before` on the query and `after` on the query that
reads from it, the columns of the derived table being unfolded. -/
def Query.FilterTruths (q : Query) (env : Env) (f : Lambda) (I : Interpretation) (v : Sql.Valuation)
    (before after : Truth) : Prop :=
  ∃ sub table st q₁ q₂ e e', q.asSubquery env = .ok sub ∧
    sub.draft.sources = ⟨.derived st table, []⟩ ∧ q.accept env (.filter f) = .ok q₁ ∧
    sub.accept env (.filter f) = .ok q₂ ∧ q₁.draft.condition = some e ∧ q₂.draft.condition = some e' ∧
    e.truth I [v] = before ∧ (e'.unfold table st.columns).truth I [v] = after

/-- Both truth values, computed. -/
def Query.filterTruths (q : Query) (env : Env) (f : Lambda) (I : Interpretation) (v : Sql.Valuation) :
    Except CompileError (Option Truth × Option Truth) := do
  let sub ← q.asSubquery env
  let q₁ ← q.accept env (.filter f)
  let q₂ ← sub.accept env (.filter f)
  let columns := (q.wrap env (q.promotedLabel env)).statement.columns
  return (q₁.draft.condition.map fun e => e.truth I [v],
    q₂.draft.condition.map fun e => (e.unfold (q.promotedLabel env) columns).truth I [v])

theorem Query.filterTruths_eq_ok {q : Query} {env : Env} {f : Lambda} {I : Interpretation}
    {v : Sql.Valuation} {before after : Truth}
    (h : q.filterTruths env f I v = .ok (some before, some after)) :
    q.FilterTruths env f I v before after := by
  simp only [filterTruths, bind_eq_ok, pure_eq_ok, Prod.mk.injEq, Option.map_eq_some_iff] at h
  obtain ⟨sub, hsub, q₁, hq₁, q₂, hq₂, ⟨e, he, hbefore⟩, e', he', hafter⟩ := h
  obtain ⟨d, hd, hdraft⟩ := bind_eq_ok.mp hsub
  obtain ⟨-, rfl⟩ := promote_eq_ok.mp hd
  obtain rfl := pure_eq_ok.mp hdraft
  exact ⟨_, _, _, q₁, q₂, e, e', hsub, rfl, hq₁, hq₂, he, he', hbefore, hafter⟩

namespace Sample

/-- Whether the member `a` is null. -/
def aIsNull : Lambda := ⟨[x], .binary (.compare .eq) (.member (.param x) "a") (.const .null)⟩

/-- Whether the members `a` and `b` are equal. -/
def aIsB : Lambda :=
  ⟨[x], .binary (.compare .eq) (.member (.param x) "a") (.member (.param x) "b")⟩

/-- The two zeros under different names. -/
def zeros : List Operator :=
  [.select ⟨[x], .record
    [("a", .const (.float ⟨0, by decide⟩)), ("b", .const (.float ⟨0x8000000000000000, by decide⟩))]⟩]

/-- An interpretation that tells the zeros apart. -/
def signed : Interpretation := { interpretation with constant := fun v => .bool (v.text == "-0") }

end Sample

/-- Promotion does change predicates on members that are constants. Where such a member is null, a
test of it for null is accepted only after promotion, and a test for equality with it is no longer a
test for null. Where two members are zeros of different sign, both are read from one column. -/
theorem Query.promotion_alters_constant_members :
    (∃ q sub q', Query.build Sample.env "User" [.select ⟨[Sample.x], .record [("a", .const .null)]⟩] = .ok q ∧
      q.asSubquery Sample.env = .ok sub ∧
      (∀ q', q.accept Sample.env (.filter Sample.aIsNull) ≠ .ok q') ∧
      sub.accept Sample.env (.filter Sample.aIsNull) = .ok q') ∧
    (∃ q, Query.build Sample.env "User" [.select ⟨[Sample.x], .record
        [("a", .member (.param Sample.x) "age"), ("b", .const .null)]⟩] = .ok q ∧
      Sample.interpretation.Lawful ∧
      q.FilterTruths Sample.env Sample.aIsB Sample.interpretation .null (some true) none) ∧
    ∃ q, Query.build Sample.env "User" Sample.zeros = .ok q ∧
      (∀ t : Truth, Sample.signed.holds t.value = t) ∧
      q.FilterTruths Sample.env ⟨[Sample.x], .member (.param Sample.x) "b"⟩ Sample.signed .null
        (some true) (some false) := by
  refine ⟨?_, ?_, ?_⟩
  · have h : (do
        let q ← Query.build Sample.env "User" [.select ⟨[Sample.x], .record [("a", .const .null)]⟩]
        let sub ← q.asSubquery Sample.env
        let _ ← sub.accept Sample.env (.filter Sample.aIsNull)
        pure (q.accept Sample.env (.filter Sample.aIsNull)).isOk : Except CompileError Bool) =
          .ok false := ok_of_toOption (by decide +kernel)
    simp only [bind_eq_ok, pure_eq_ok] at h
    obtain ⟨q, hq, sub, hsub, q', hq', hno⟩ := h
    refine ⟨q, sub, q', hq, hsub, fun q₁ h₁ => ?_, hq'⟩
    rw [h₁] at hno
    cases hno
  · have h : (do
        let q ← Query.build Sample.env "User" [.select ⟨[Sample.x], .record
          [("a", .member (.param Sample.x) "age"), ("b", .const .null)]⟩]
        q.filterTruths Sample.env Sample.aIsB Sample.interpretation .null) =
          .ok (some (some true), some none) := ok_of_toOption (by decide +kernel)
    obtain ⟨q, hq, htruths⟩ := bind_eq_ok.mp h
    exact ⟨q, hq, Sample.interpretation_lawful, filterTruths_eq_ok htruths⟩
  · have h : (do
        let q ← Query.build Sample.env "User" Sample.zeros
        q.filterTruths Sample.env ⟨[Sample.x], .member (.param Sample.x) "b"⟩ Sample.signed .null) =
          .ok (some (some true), some (some false)) := ok_of_toOption (by decide +kernel)
    obtain ⟨q, hq, htruths⟩ := bind_eq_ok.mp h
    refine ⟨q, hq, ?_, filterTruths_eq_ok htruths⟩
    rintro (_ | (_ | _)) <;> rfl

end EntityQuery
