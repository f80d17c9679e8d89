import EntityQuery.Proofs.Columns
import EntityQuery.Proofs.Semantics.Pipeline

/-! # Lambdas and their translations denote the same

A shape, together with values for its scalars, is a datum. If the parameters of a lambda stand for
such data, then what the lambda denotes on the data is what its translation denotes as an
expression, for lambdas at row level. -/

namespace EntityQuery
set_option autoImplicit false

/-! ## Entries -/

namespace Entries

variable {κ α β : Type} [BEq κ]

theorem lookup_map (f : α → β) (es : List (κ × α)) (k : κ) :
    (es.map fun e => (e.1, f e.2)).lookup k = (es.lookup k).map f := by
  induction es with
  | nil => rfl
  | cons e es ih =>
    rw [List.map_cons, List.lookup_cons, List.lookup_cons, ih]
    cases k == e.1 <;> rfl

theorem map_put (f : α → β) (k : κ) (v : α) (es : List (κ × α)) :
    (put k v es).map (fun e => (e.1, f e.2)) = put k (f v) (es.map fun e => (e.1, f e.2)) := by
  induction es with
  | nil => rfl
  | cons e es ih =>
    simp only [put, List.map_cons]
    split
    · rfl
    · rw [List.map_cons, ih]

theorem map_ofList (f : α → β) (es : List (κ × α)) :
    (ofList es).map (fun e => (e.1, f e.2)) = ofList (es.map fun e => (e.1, f e.2)) := by
  unfold ofList
  suffices h : ∀ start : List (κ × α),
      (es.foldl (fun t e => put e.1 e.2 t) start).map (fun e => (e.1, f e.2)) =
        (es.map fun e => (e.1, f e.2)).foldl (fun t e => put e.1 e.2 t)
          (start.map fun e => (e.1, f e.2)) from h []
  induction es with
  | nil => intro start; rfl
  | cons e es ih =>
    intro start
    rw [List.foldl_cons, ih, map_put, List.map_cons, List.foldl_cons]

end Entries

/-! ## Shapes as data -/

namespace Shape

mutual

/-- The datum that a shape is under values for its scalars. Collections are not data. -/
def datum (v : Sql.Expr → Json) : Shape → Datum
  | .scalar e => .scalar (v e)
  | .object ⟨_, key, members, _, _⟩ => .object key (memberData v members)
  | .collection .. => .scalar .null

/-- The members of an object as data. -/
def memberData (v : Sql.Expr → Json) : List (String × Shape) → List (String × Datum)
  | [] => []
  | (n, s) :: ms => (n, datum v s) :: memberData v ms

end

variable {v w : Sql.Expr → Json}

theorem memberData_eq (ms : List (String × Shape)) :
    memberData v ms = ms.map fun m => (m.1, m.2.datum v) := by
  induction ms with
  | nil => rfl
  | cons m ms ih => rw [memberData, ih, List.map_cons]

theorem datum_member {s m : Shape} {n : String} (h : s.member? n = some m) :
    (s.datum v).member n = m.datum v := by
  cases s with
  | scalar e => cases h
  | collection _ _ _ => cases h
  | object o =>
    have hlook : o.members.lookup n = some m := h
    simp only [datum, Datum.member, memberData_eq]
    rw [Entries.lookup_map, hlook]
    rfl

mutual

theorem datum_congr : ∀ s : Shape, (∀ e ∈ s.scalars, v e = w e) → s.datum v = s.datum w
  | .scalar e, h => by rw [datum, datum, h e (List.mem_singleton_self e)]
  | .object ⟨_, key, ms, _, _⟩, h => by rw [datum, datum, memberData_congr ms h]
  | .collection .., _ => rfl

theorem memberData_congr : ∀ ms : List (String × Shape), (∀ e ∈ memberScalars ms, v e = w e) →
    memberData v ms = memberData w ms
  | [], _ => rfl
  | (n, s) :: ms, h => by
    rw [memberData, memberData, datum_congr s fun e he => h e (List.mem_append_left _ he),
      memberData_congr ms fun e he => h e (List.mem_append_right _ he)]

end

mutual

theorem Rel.datum {R : Sql.Expr → Sql.Expr → Prop} (hR : ∀ e e', R e e' → v e = w e') :
    ∀ s s' : Shape, s.Rel R s' → s.datum v = s'.datum w
  | .scalar e, .scalar e', h => congrArg Datum.scalar (hR e e' h)
  | .object ⟨_, k, ms, _, _⟩, .object ⟨_, k', ms', _, _⟩, h => by
    obtain ⟨-, hk, hm⟩ := h
    subst hk
    exact congrArg (Datum.object k) (RelMembers.memberData hR ms ms' hm)
  | .collection .., .collection .., _ => rfl

theorem RelMembers.memberData {R : Sql.Expr → Sql.Expr → Prop} (hR : ∀ e e', R e e' → v e = w e') :
    ∀ ms ms' : List (String × Shape), RelMembers R ms ms' →
      Shape.memberData v ms = Shape.memberData w ms'
  | [], [], _ => rfl
  | (n, s) :: ms, (n', s') :: ms', h => by
    obtain ⟨rfl, hs, hm⟩ := h
    rw [Shape.memberData, Shape.memberData, Rel.datum hR s s' hs, RelMembers.memberData hR ms ms' hm]

end

/-- The form of a shape. -/
def form (s : Shape) : Datum := s.datum fun _ => .null

mutual

theorem blank_datum : ∀ s : Shape, (s.datum v).blank = s.form
  | .scalar _ => rfl
  | .object ⟨_, key, ms, _, _⟩ => congrArg (Datum.object key) (blank_memberData ms)
  | .collection .. => rfl

theorem blank_memberData : ∀ ms : List (String × Shape),
    Datum.blankMembers (memberData v ms) = memberData (fun _ => .null) ms
  | [] => rfl
  | (n, s) :: ms => by
    rw [memberData, memberData, Datum.blankMembers, blank_datum s, blank_memberData ms]
    rfl

end

end Shape

namespace Bindings

/-- The data that parameters stand for. -/
def data (v : Sql.Expr → Json) (b : Bindings) : List (Param × Datum) :=
  b.entries.map fun x => (x.1, x.2.datum v)

variable {v : Sql.Expr → Json}

theorem lookup_data (b : Bindings) (p : Param) :
    (b.data v).lookup p = (b.get? p).map (Shape.datum v) := Entries.lookup_map ..

theorem data_bind (b : Bindings) (p : Param) (s : Shape) :
    (b.bind p s).data v = Entries.put p (s.datum v) (b.data v) :=
  Entries.map_put ..

end Bindings

/-! ## Scalars -/

namespace Scope

variable {I : Interpretation} {s : Scope} {v : Sql.Expr → Json}

theorem resolve_eval (t : Term) (depth : Nat) (shape : Shape)
    (h : s.resolve t depth = .ok (some shape)) : t.eval I (s.bindings.data v) = shape.datum v := by
  refine resolve_induction (P := fun t shape => t.eval I (s.bindings.data v) = shape.datum v)
    ?_ ?_ t depth shape h
  · intro p shape hp
    rw [Term.eval, Bindings.lookup_data, hp]
    rfl
  · intro t name owner m howner hm
    rw [Term.eval, howner, Shape.datum_member hm]

/-- No scalar is the null constant. -/
def NotNull (e : Sql.Expr) : Prop := e.isNullConstant = false

theorem scalarMember_eval (hb : s.bindings.All NotNull) {t : Term} {depth : Nat} {e : Sql.Expr}
    (h : s.scalarMember t depth = .ok e) :
    t.eval I (s.bindings.data v) = .scalar (v e) ∧ e.isNullConstant = false := by
  refine ⟨?_, scalarMember_closed hb h⟩
  rw [resolve_eval t depth _ (resolve_of_scalarMember h)]
  rfl

theorem comparison_eval {g : List Sql.Valuation} {op : Sql.Comparator} {l r : Term}
    {l' r' e : Sql.Expr} (hl : l'.isNullConstant = l.isNull) (hr : r'.isNullConstant = r.isNull)
    (h : Sql.Expr.comparison op l' r' = .ok e) :
    e.eval I g = (I.comparison op l r (l'.eval I g) (r'.eval I g)).value ∧
      e.isNullConstant = false := by
  unfold Sql.Expr.comparison at h
  rw [hl, hr] at h
  unfold Interpretation.comparison
  cases hln : l.isNull <;> cases hrn : r.isNull <;> rw [hln, hrn] at h
  · cases h; exact ⟨rfl, rfl⟩
  · cases op <;> cases h <;> simp [Sql.Expr.eval, Interpretation.comparison.nullTest, Sql.Expr.isNullConstant]
  · cases op <;> cases h <;> simp [Sql.Expr.eval, Interpretation.comparison.nullTest, Sql.Expr.isNullConstant]
  · cases h

theorem operand_eval (hI : I.Lawful) {l r : Sql.Expr} {g : List Sql.Valuation} :
    Sql.Expr.eval I (.and (l.asPredicate.conjuncts ++ r.asPredicate.conjuncts)) g =
        ((I.holds (l.eval I g)).and (I.holds (r.eval I g))).value ∧
      Sql.Expr.eval I (.or (l.asPredicate.disjuncts ++ r.asPredicate.disjuncts)) g =
        ((I.holds (l.eval I g)).or (I.holds (r.eval I g))).value := by
  have hmap : ∀ ps : List Sql.Expr, (Sql.Expr.evalAll I ps g).map Json.truth =
      ps.map fun p => p.truth I g := by
    intro ps
    rw [Sql.Expr.evalAll_eq, List.map_map]
    rfl
  constructor
  · rw [Sql.Expr.eval, hmap, List.map_append, Truth.all_append, Sql.Expr.all_conjuncts,
      Sql.Expr.all_conjuncts, Sql.Expr.truth_asPredicate hI, Sql.Expr.truth_asPredicate hI]
  · rw [Sql.Expr.eval, hmap, List.map_append, Truth.any_append, Sql.Expr.any_disjuncts,
      Sql.Expr.any_disjuncts, Sql.Expr.truth_asPredicate hI, Sql.Expr.truth_asPredicate hI]

mutual

/-- **A term and its translation denote the same**, and the translation is the null constant only if
the term is. -/
theorem scalar_eval (hI : I.Lawful) (hb : s.bindings.All NotNull) (g : List Sql.Valuation) :
    ∀ (t : Term) (depth : Nat) (e : Sql.Expr), t.hasAggregate = false → s.scalar t depth = .ok e →
      t.eval I (s.bindings.data fun e => e.eval I g) = .scalar (e.eval I g) ∧
        e.isNullConstant = t.isNull
  | .param p, depth, e, _, h => by
    simp only [scalar, bind_eq_ok] at h
    obtain ⟨_, _, h⟩ := h
    exact scalarMember_eval hb h
  | .member t name, depth, e, _, h => by
    simp only [scalar, bind_eq_ok] at h
    obtain ⟨_, _, h⟩ := h
    exact scalarMember_eval hb h
  | .const v, depth, e, _, h => by
    simp only [scalar, bind_eq_ok, pure_eq_ok] at h
    obtain ⟨_, _, rfl⟩ := h
    refine ⟨rfl, ?_⟩
    cases v <;> rfl
  | .binary op l r, depth, e, ha, h => by
    simp only [Term.hasAggregate, Bool.or_eq_false_iff] at ha
    have hsides : ∀ d l' r', s.scalar l d = .ok l' → s.scalar r d = .ok r' →
        (l.eval I (s.bindings.data fun e => e.eval I g) = .scalar (l'.eval I g) ∧
            l'.isNullConstant = l.isNull) ∧
          r.eval I (s.bindings.data fun e => e.eval I g) = .scalar (r'.eval I g) ∧
            r'.isNullConstant = r.isNull :=
      fun d l' r' hl hr => ⟨scalar_eval hI hb g l d l' ha.1 hl, scalar_eval hI hb g r d r' ha.2 hr⟩
    cases op <;> simp only [scalar, bind_eq_ok] at h <;>
      obtain ⟨d, _, l', hl, r', hr, h⟩ := h <;>
      obtain ⟨⟨hel, hnl⟩, her, hnr⟩ := hsides d l' r' hl hr <;>
      rw [Term.eval, hel, her]
    case compare op =>
      obtain ⟨he, hnull⟩ := comparison_eval (g := g) hnl hnr h
      rw [he]
      exact ⟨rfl, hnull⟩
    case and =>
      cases h
      rw [(operand_eval hI).1]
      exact ⟨rfl, rfl⟩
    case or =>
      cases h
      rw [(operand_eval hI).2]
      exact ⟨rfl, rfl⟩
    case arithmetic op =>
      cases h
      exact ⟨rfl, rfl⟩
  | .not t, depth, e, ha, h => by
    simp only [scalar, bind_eq_ok, pure_eq_ok] at h
    obtain ⟨d, _, e', he, rfl⟩ := h
    obtain ⟨heval, -⟩ := scalar_eval hI hb g t d e' ha he
    have htruth := Sql.Expr.truth_asPredicate hI e' g
    rw [Sql.Expr.truth] at htruth
    rw [Term.eval, heval, Sql.Expr.eval, htruth]
    exact ⟨rfl, rfl⟩
  | .negate t, depth, e, ha, h => by
    simp only [scalar, bind_eq_ok, pure_eq_ok] at h
    obtain ⟨d, _, e', he, rfl⟩ := h
    obtain ⟨heval, -⟩ := scalar_eval hI hb g t d e' ha he
    rw [Term.eval, heval]
    exact ⟨rfl, rfl⟩
  | .call f as, depth, e, ha, h => by
    simp only [scalar, bind_eq_ok, pure_eq_ok] at h
    obtain ⟨d, _, es, hes, rfl⟩ := h
    have hvalues := scalars_eval hI hb g as d es ha hes
    rw [Term.eval, hvalues, Sql.Expr.eval]
    exact ⟨rfl, rfl⟩
  | .isIn t is, depth, e, ha, h => by
    simp only [scalar, bind_eq_ok, pure_eq_ok] at h
    obtain ⟨d, _, e', he, es, hes, rfl⟩ := h
    simp only [Term.hasAggregate, Bool.or_eq_false_iff] at ha
    obtain ⟨heval, -⟩ := scalar_eval hI hb g t d e' ha.1 he
    have hvalues := scalars_eval hI hb g is d es ha.2 hes
    rw [Term.eval, heval, hvalues, Sql.Expr.eval]
    exact ⟨rfl, rfl⟩
  | .aggregate .., _, _, ha, _ => by cases ha
  | .record _, depth, e, _, h => by
    simp only [scalar, bind_eq_ok, reduceCtorEq, and_false, exists_false] at h

theorem scalars_eval (hI : I.Lawful) (hb : s.bindings.All NotNull) (g : List Sql.Valuation) :
    ∀ (ts : List Term) (depth : Nat) (es : List Sql.Expr), Term.anyAggregate ts = false →
      s.scalars ts depth = .ok es →
      Term.values I (s.bindings.data fun e => e.eval I g) ts = Sql.Expr.evalAll I es g
  | [], _, es, _, h => by
    cases h
    rfl
  | t :: ts, depth, es, ha, h => by
    simp only [scalars, bind_eq_ok, pure_eq_ok] at h
    obtain ⟨e, he, es, hes, rfl⟩ := h
    simp only [Term.anyAggregate, Bool.or_eq_false_iff] at ha
    obtain ⟨heval, -⟩ := scalar_eval hI hb g t depth e ha.1 he
    rw [Term.values, heval, scalars_eval hI hb g ts depth es ha.2 hes]
    rfl

end

/-! ## Selections -/

theorem isNull_of_comparesNulls {t : Term} (h : t.comparesNulls = true) : t.isNull = false := by
  cases t with
  | const v => simpa [Term.comparesNulls, Term.isNull] using h
  | _ => rfl

theorem scalar_eval_shape (hI : I.Lawful) (hb : s.bindings.All NotNull) (g : List Sql.Valuation)
    {t : Term} {depth : Nat} {e : Sql.Expr} (ha : t.hasAggregate = false)
    (hn : t.comparesNulls = true) (h : s.scalar t depth = .ok e) :
    t.eval I (s.bindings.data fun e => e.eval I g) = (Shape.scalar e).datum (fun e => e.eval I g) ∧
      ∀ x ∈ (Shape.scalar e).scalars, NotNull x := by
  obtain ⟨heval, hnull⟩ := scalar_eval hI hb g t depth e ha h
  refine ⟨heval, ?_⟩
  intro x hx
  rw [List.mem_singleton.mp hx, NotNull, hnull, isNull_of_comparesNulls hn]

theorem shapeOf_eval (hI : I.Lawful) (hb : s.bindings.All NotNull) (g : List Sql.Valuation) {t : Term}
    {depth : Nat} {shape : Shape} (ha : t.hasAggregate = false) (hn : t.comparesNulls = true)
    (h : s.shapeOf t depth = .ok shape) :
    t.eval I (s.bindings.data fun e => e.eval I g) = shape.datum (fun e => e.eval I g) ∧
      ∀ e ∈ shape.scalars, NotNull e := by
  rcases shapeOf_cases h with hchain | ⟨-, e, he, rfl⟩
  · exact ⟨resolve_eval t depth shape hchain, resolve_closed hb t depth shape hchain⟩
  · exact scalar_eval_shape hI hb g ha hn he

theorem memberData_append {v : Sql.Expr → Json} (ms ms' : List (String × Shape)) :
    Shape.memberData v (ms ++ ms') = Shape.memberData v ms ++ Shape.memberData v ms' := by
  rw [Shape.memberData_eq, Shape.memberData_eq, Shape.memberData_eq, List.map_append]

mutual

theorem shape_eval (hI : I.Lawful) (hb : s.bindings.All NotNull) (g : List Sql.Valuation) :
    ∀ (t : Term) (depth : Nat) (shape : Shape), t.hasAggregate = false → t.comparesNulls = true →
      s.shape t depth = .ok shape →
      t.eval I (s.bindings.data fun e => e.eval I g) = shape.datum (fun e => e.eval I g) ∧
        ∀ e ∈ shape.scalars, NotNull e
  | .record ms, depth, shape, ha, hn, h => by
    simp only [Scope.shape, bind_eq_ok, pure_eq_ok] at h
    obtain ⟨d, _, members, hm, rfl⟩ := h
    obtain ⟨heval, hnull⟩ := shapes_eval hI hb g ms d [] members ha hn (by simp [Shape.memberScalars]) hm
    refine ⟨?_, hnull⟩
    rw [Term.eval, Shape.datum, heval]
    rfl
  | .param p, depth, shape, ha, hn, h => by
    simp only [Scope.shape, bind_eq_ok] at h
    obtain ⟨d, _, h⟩ := h
    exact shapeOf_eval hI hb g ha hn h
  | .member t name, depth, shape, ha, hn, h => by
    simp only [Scope.shape, bind_eq_ok] at h
    obtain ⟨d, _, h⟩ := h
    exact shapeOf_eval hI hb g ha hn h
  | .const v, depth, shape, ha, hn, h | .binary o l r, depth, shape, ha, hn, h
  | .not t, depth, shape, ha, hn, h | .negate t, depth, shape, ha, hn, h
  | .call f as, depth, shape, ha, hn, h | .isIn t is, depth, shape, ha, hn, h
  | .aggregate f a distinct, depth, shape, ha, hn, h => by
    simp only [Scope.shape, bind_eq_ok, pure_eq_ok] at h
    obtain ⟨d, _, e, he, rfl⟩ := h
    exact scalar_eval_shape hI hb g ha hn he

theorem shapes_eval (hI : I.Lawful) (hb : s.bindings.All NotNull) (g : List Sql.Valuation) :
    ∀ (ms : List (String × Term)) (depth : Nat) (done members : List (String × Shape)),
      Term.memberAggregate ms = false → Term.membersCompareNulls ms = true →
      (∀ e ∈ Shape.memberScalars done, NotNull e) → s.shapes ms depth done = .ok members →
      Shape.memberData (fun e => e.eval I g) members = Shape.memberData (fun e => e.eval I g) done ++
          Term.evalMembers I (s.bindings.data fun e => e.eval I g) ms ∧
        ∀ e ∈ Shape.memberScalars members, NotNull e
  | [], depth, done, members, _, _, hd, h => by
    cases h
    exact ⟨(List.append_nil _).symm, hd⟩
  | (name, t) :: ms, depth, done, members, ha, hn, hd, h => by
    simp only [shapes] at h
    simp only [Term.memberAggregate, Bool.or_eq_false_iff] at ha
    simp only [Term.membersCompareNulls, Bool.and_eq_true] at hn
    split at h
    · cases h
    · simp only [bind_eq_ok] at h
      obtain ⟨shape, hs, h⟩ := h
      obtain ⟨heval, hnull⟩ := shape_eval hI hb g t depth shape ha.1 hn.1 hs
      have hd' : ∀ e ∈ Shape.memberScalars (done ++ [(name, shape)]), NotNull e := by
        intro e he
        rw [memberScalars_append, List.mem_append, Shape.memberScalars, Shape.memberScalars,
          List.append_nil] at he
        exact he.elim (hd e) (hnull e)
      obtain ⟨hrest, hnull'⟩ := shapes_eval hI hb g ms depth _ members ha.2 hn.2 hd' h
      refine ⟨?_, hnull'⟩
      rw [hrest, memberData_append, Term.evalMembers, heval, List.append_assoc]
      rfl

end

/-! ## Collections -/

/-- No bound shape holds a collection. -/
def Flat (s : Scope) : Prop := ∀ p shape, s.bindings.get? p = some shape → shape.hasCollection = false

theorem flat_empty (aliases : Aliases) (depthLimit : Nat) : Flat ⟨{}, aliases, depthLimit⟩ := by
  intro p shape h
  cases h

theorem Flat.bind (h : s.Flat) {shape : Shape} (hs : shape.hasCollection = false) (p : Param) :
    Flat { s with bindings := s.bindings.bind p shape } := by
  intro p' shape' hshape
  rcases Entries.lookup_put_cases hshape with rfl | hshape
  · exact hs
  · exact h p' shape' hshape

theorem hasCollection_of_lookup {ms : List (String × Shape)} {n : String} {m : Shape}
    (h : ms.lookup n = some m) (hc : Shape.anyCollection ms = false) : m.hasCollection = false := by
  induction ms with
  | nil => cases h
  | cons x ms ih =>
    obtain ⟨n', s⟩ := x
    rw [Shape.anyCollection, Bool.or_eq_false_iff] at hc
    rw [List.lookup_cons] at h
    cases hn : n == n' with
    | true => rw [hn] at h; cases h; exact hc.1
    | false => rw [hn] at h; exact ih h hc.2

theorem resolve_flat (hb : s.Flat) (t : Term) (depth : Nat) (shape : Shape)
    (h : s.resolve t depth = .ok (some shape)) : shape.hasCollection = false := by
  refine resolve_induction (P := fun _ shape => shape.hasCollection = false) hb ?_ t depth shape h
  intro t name owner m howner hm
  cases owner with
  | scalar _ => cases hm
  | collection _ _ _ => cases hm
  | object o => exact hasCollection_of_lookup hm howner

theorem shapeOf_flat (hb : s.Flat) {t : Term} {depth : Nat} {shape : Shape}
    (h : s.shapeOf t depth = .ok shape) : shape.hasCollection = false := by
  rcases shapeOf_cases h with hchain | ⟨-, e, -, rfl⟩
  · exact resolve_flat hb t depth shape hchain
  · rfl

theorem anyCollection_append (ms ms' : List (String × Shape)) :
    Shape.anyCollection (ms ++ ms') = (Shape.anyCollection ms || Shape.anyCollection ms') := by
  induction ms with
  | nil => rfl
  | cons x ms ih =>
    rw [List.cons_append, Shape.anyCollection, Shape.anyCollection, ih, Bool.or_assoc]

mutual

theorem shape_flat (hb : s.Flat) : ∀ (t : Term) (depth : Nat) (shape : Shape),
    s.shape t depth = .ok shape → shape.hasCollection = false
  | .record ms, depth, shape, h => by
    simp only [Scope.shape, bind_eq_ok, pure_eq_ok] at h
    obtain ⟨d, _, members, hm, rfl⟩ := h
    exact shapes_flat hb ms d [] members rfl hm
  | .param p, depth, shape, h => by
    simp only [Scope.shape, bind_eq_ok] at h
    obtain ⟨d, _, h⟩ := h
    exact shapeOf_flat hb h
  | .member t name, depth, shape, h => by
    simp only [Scope.shape, bind_eq_ok] at h
    obtain ⟨d, _, h⟩ := h
    exact shapeOf_flat hb h
  | .const v, depth, shape, h | .binary o l r, depth, shape, h | .not t, depth, shape, h
  | .negate t, depth, shape, h | .call f as, depth, shape, h | .isIn t is, depth, shape, h
  | .aggregate f a distinct, depth, shape, h => by
    simp only [Scope.shape, bind_eq_ok, pure_eq_ok] at h
    obtain ⟨d, _, e, _, rfl⟩ := h
    rfl

theorem shapes_flat (hb : s.Flat) : ∀ (ms : List (String × Term)) (depth : Nat)
    (done members : List (String × Shape)), Shape.anyCollection done = false →
      s.shapes ms depth done = .ok members → Shape.anyCollection members = false
  | [], depth, done, members, hd, h => by
    cases h
    exact hd
  | (name, t) :: ms, depth, done, members, hd, h => by
    simp only [shapes] at h
    split at h
    · cases h
    · simp only [bind_eq_ok] at h
      obtain ⟨shape, hs, h⟩ := h
      refine shapes_flat hb ms depth _ members ?_ h
      rw [anyCollection_append, hd, Shape.anyCollection, shape_flat hb t depth shape hs]
      rfl

end

end Scope

/-! ## Lambdas -/

section Lambdas

variable {I : Interpretation}

namespace Lambda

theorem isRowLevel_iff {f : Lambda} :
    f.isRowLevel = true ↔ f.body.hasAggregate = false ∧ f.body.comparesNulls = true := by
  simp [isRowLevel]

theorem eval_one {f : Lambda} {p : Param} (hp : f.params = [p]) (d : Datum) :
    f.eval I [d] = f.body.eval I [(p, d)] := by
  simp [eval, hp, Entries.ofList, Entries.put]

theorem eval_two {f : Lambda} {p p' : Param} (hp : f.params = [p, p']) (d d' : Datum) :
    f.eval I [d, d'] = f.body.eval I (Entries.put p' d' [(p, d)]) := by
  simp [eval, hp, Entries.ofList, Entries.put]

/-- The form of what a lambda makes of its arguments depends on their forms only. -/
theorem blank_eval (f : Lambda) (ds ds' : List Datum) (h : ds.map Datum.blank = ds'.map Datum.blank) :
    (f.eval I ds).blank = (f.eval I ds').blank := by
  refine Term.blank_eval ?_ f.body
  intro p
  rw [← Entries.lookup_map, ← Entries.lookup_map, Entries.map_ofList, Entries.map_ofList]
  have hzip : ∀ xs : List Datum, ((f.params.zip xs).map fun e => (e.1, e.2.blank)) =
      f.params.zip (xs.map Datum.blank) := by
    intro xs
    rw [List.zip_map_right]
    rfl
  rw [hzip, hzip, h]

end Lambda

namespace Scope

variable {s : Scope} {f : Lambda}

theorem expression_eval (hI : I.Lawful) (hb : s.bindings.All NotNull) (hf : f.body.hasAggregate = false)
    {e : Sql.Expr} (h : s.expression f = .ok e) (g : List Sql.Valuation) :
    f.body.eval I (s.bindings.data fun e => e.eval I g) = .scalar (e.eval I g) :=
  (scalar_eval hI hb g f.body 0 e hf h).1

theorem selection_eval (hI : I.Lawful) (hb : s.bindings.All NotNull) (hf : f.isRowLevel = true)
    {shape : Shape} (h : s.selection f = .ok shape) :
    (∀ g, f.body.eval I (s.bindings.data fun e => e.eval I g) = shape.datum fun e => e.eval I g) ∧
      ∀ e ∈ shape.scalars, NotNull e := by
  obtain ⟨ha, hn⟩ := Lambda.isRowLevel_iff.mp hf
  exact ⟨fun g => (shape_eval hI hb g f.body 0 shape ha hn h).1,
    (shape_eval hI hb [] f.body 0 shape ha hn h).2⟩

end Scope

/-! ## Entities -/

theorem ObjectOf.members_ofEntity (e : Entity) (label : String) :
    (ObjectOf.ofEntity e label).members =
        Entries.ofList (e.primitives.map fun p => (p.name, .scalar (.column ⟨label, p.columnName⟩))) ∧
      (ObjectOf.ofEntity e label).key = e.key := by
  unfold ObjectOf.ofEntity Entries.ofList
  suffices h : ∀ (ps : List Property) (o : ObjectOf Shape),
      (ps.foldl (fun o p => o.withMember p.name (.scalar (.column ⟨label, p.columnName⟩))) o).members =
          (ps.map fun p => (p.name, Shape.scalar (.column ⟨label, p.columnName⟩))).foldl
            (fun t e => Entries.put e.1 e.2 t) o.members ∧
        (ps.foldl (fun o p => o.withMember p.name (.scalar (.column ⟨label, p.columnName⟩))) o).key =
          o.key by
    exact h e.primitives _
  intro ps
  induction ps with
  | nil => intro o; exact ⟨rfl, rfl⟩
  | cons p ps ih => intro o; exact ih (o.withMember p.name _)

/-- In a row of the entity's table, the entity's object is the object of the row. -/
theorem Shape.datum_ofEntity (e : Entity) (label : String) (v : Sql.Valuation) (row : String → Json) :
    ((Shape.object (.ofEntity e label)).datum fun x => x.eval I [v.bind label row]) =
      Datum.ofEntity e row := by
  obtain ⟨hm, hk⟩ := ObjectOf.members_ofEntity e label
  rw [Shape.datum, hm, hk, Shape.memberData_eq, Entries.map_ofList, List.map_map]
  refine congrArg (fun ms => Datum.object e.key (Entries.ofList ms)) ?_
  refine List.map_congr_left fun p _ => ?_
  simp [Shape.datum, Sql.Expr.eval, Sql.Valuation.bind]

theorem Shape.anyCollection_put {n : String} {m : Shape} {ms : List (String × Shape)}
    (hm : m.hasCollection = false) (hms : Shape.anyCollection ms = false) :
    Shape.anyCollection (Entries.put n m ms) = false := by
  induction ms with
  | nil => simp [Entries.put, Shape.anyCollection, hm]
  | cons x ms ih =>
    rw [Shape.anyCollection, Bool.or_eq_false_iff] at hms
    rw [Entries.put]
    split
    · rw [Shape.anyCollection, hm, hms.2]; rfl
    · rw [Shape.anyCollection, hms.1, ih hms.2]; rfl

theorem Shape.flat_ofEntity (e : Entity) (label : String) :
    Shape.anyCollection (ObjectOf.ofEntity e label).members = false := by
  unfold ObjectOf.ofEntity
  suffices h : ∀ (ps : List Property) (o : ObjectOf Shape), Shape.anyCollection o.members = false →
      Shape.anyCollection (ps.foldl
        (fun o p => o.withMember p.name (.scalar (.column ⟨label, p.columnName⟩))) o).members = false by
    exact h e.primitives _ rfl
  intro ps
  induction ps with
  | nil => intro o ho; exact ho
  | cons p ps ih => intro o ho; exact ih _ (Shape.anyCollection_put rfl ho)

end Lambdas

end EntityQuery
