import EntityQuery.Proofs.Expression
import EntityQuery.Reader

/-! # The meaning of expressions

Expressions denote JSON scalars, where `NULL` is null and truth values are booleans or null. How
functions, arithmetic and comparisons act on scalars is left to an interpretation. Equal expressions
denote equal values under every interpretation for which equal literals do. -/

namespace EntityQuery
set_option autoImplicit false

/-! ## Three-valued logic -/

/-- A truth value; `none` is unknown. -/
abbrev Truth := Option Bool

namespace Truth

/-- Conjunction: false if a part is, else unknown if a part is. -/
def and : Truth → Truth → Truth
  | some false, _ => some false
  | _, some false => some false
  | some true, some true => some true
  | _, _ => none

/-- Disjunction: true if a part is, else unknown if a part is. -/
def or : Truth → Truth → Truth
  | some true, _ => some true
  | _, some true => some true
  | some false, some false => some false
  | _, _ => none

def not (t : Truth) : Truth := t.map (!·)

def all (ts : List Truth) : Truth := ts.foldr and (some true)

def any (ts : List Truth) : Truth := ts.foldr or (some false)

/-- A truth value as a scalar. -/
def value : Truth → Json
  | some b => .bool b
  | none => .null

end Truth

/-- The truth value that a scalar is; every scalar that is none is unknown. -/
def Json.truth : Json → Truth
  | .bool b => some b
  | _ => none

namespace Truth

@[simp] theorem truth_value (t : Truth) : t.value.truth = t := by
  cases t <;> rfl

theorem and_assoc (a b c : Truth) : (a.and b).and c = a.and (b.and c) := by
  rcases a with _ | (_ | _) <;> rcases b with _ | (_ | _) <;> rcases c with _ | (_ | _) <;> rfl

theorem or_assoc (a b c : Truth) : (a.or b).or c = a.or (b.or c) := by
  rcases a with _ | (_ | _) <;> rcases b with _ | (_ | _) <;> rcases c with _ | (_ | _) <;> rfl

theorem true_and (a : Truth) : and (some true) a = a := by
  rcases a with _ | (_ | _) <;> rfl

theorem false_or (a : Truth) : or (some false) a = a := by
  rcases a with _ | (_ | _) <;> rfl

theorem and_true (a : Truth) : a.and (some true) = a := by
  rcases a with _ | (_ | _) <;> rfl

theorem or_false (a : Truth) : a.or (some false) = a := by
  rcases a with _ | (_ | _) <;> rfl

theorem and_eq_true {a b : Truth} : a.and b = some true ↔ a = some true ∧ b = some true := by
  rcases a with _ | (_ | _) <;> rcases b with _ | (_ | _) <;> simp [Truth.and]

theorem all_append (ts us : List Truth) : all (ts ++ us) = (all ts).and (all us) := by
  induction ts with
  | nil => exact (true_and _).symm
  | cons t ts ih =>
    have h : all (t :: (ts ++ us)) = t.and (all (ts ++ us)) := rfl
    rw [List.cons_append, h, ih, ← and_assoc]
    rfl

theorem any_append (ts us : List Truth) : any (ts ++ us) = (any ts).or (any us) := by
  induction ts with
  | nil => exact (false_or _).symm
  | cons t ts ih =>
    have h : any (t :: (ts ++ us)) = t.or (any (ts ++ us)) := rfl
    rw [List.cons_append, h, ih, ← or_assoc]
    rfl

end Truth

/-! ## Interpretations -/

/-- What is not fixed by the form of expressions. -/
structure Interpretation where
  -- The scalar of a literal that is neither a truth value nor null.
  constant : Literal → Json
  compare : Sql.Comparator → Json → Json → Truth
  arithmetic : Sql.Arithmetic → Json → Json → Json
  negate : Json → Json
  call : String → List Json → Json
  -- Aggregates, distinct or not, of the arguments that each row gives.
  aggregate : Sql.AggregateFunction → Bool → List (List Json) → Json
  -- Which scalars `DISTINCT` and `GROUP BY` take for equal.
  same : Json → Json → Bool
  -- Which of two scalars an ascending sort may put first.
  precedes : Json → Json → Bool

namespace Interpretation

/-- The scalar of a literal. -/
def literal (I : Interpretation) : Literal → Json
  | .bool b => .bool b
  | .null => .null
  | v => I.constant v

/-- The truth value of a scalar where one is expected: whether it equals `TRUE`. -/
def holds (I : Interpretation) (v : Json) : Truth := I.compare .eq v (.bool true)

/-- Equal literals denote the same, and `b = TRUE` is `b` for truth values. -/
structure Lawful (I : Interpretation) : Prop where
  constant : ∀ a b : Literal, (a == b) = true → I.literal a = I.literal b
  holds : ∀ t : Truth, I.holds t.value = t

end Interpretation

/-! ## Expressions -/

namespace Sql

/-- The values of the columns in one row of the sources. -/
abbrev Valuation := Column → Json

mutual

/-- The value of an expression in a group of rows. Columns are those of the first row, aggregates
range over all. -/
def Expr.eval (I : Interpretation) : Expr → List Valuation → Json
  | .column c, g =>
    match g.head? with
    | some v => v c
    | none => .null
  | .literal v, _ => I.literal v
  | .compare op l r, g => (I.compare op (l.eval I g) (r.eval I g)).value
  | .arithmetic op l r, g => I.arithmetic op (l.eval I g) (r.eval I g)
  | .and ps, g => (Truth.all ((Expr.evalAll I ps g).map Json.truth)).value
  | .or ps, g => (Truth.any ((Expr.evalAll I ps g).map Json.truth)).value
  | .not e, g => ((e.eval I g).truth.not).value
  | .negate e, g => I.negate (e.eval I g)
  | .isNull e negated, g => Truth.value (some (Row.isNull (e.eval I g) != negated))
  | .inList e is negated, g =>
    let found := Truth.any ((Expr.evalAll I is g).map (I.compare .eq (e.eval I g)))
    (if negated then found.not else found).value
  | .call f as, g => I.call f (Expr.evalAll I as g)
  | .aggregate f as distinct, g => I.aggregate f distinct (g.map fun v => Expr.evalAll I as [v])

def Expr.evalAll (I : Interpretation) : List Expr → List Valuation → List Json
  | [], _ => []
  | e :: es, g => e.eval I g :: Expr.evalAll I es g

end

namespace Expr

variable {I : Interpretation}

theorem evalAll_eq (es : List Expr) (g : List Valuation) :
    evalAll I es g = es.map fun e => e.eval I g := by
  induction es with
  | nil => rfl
  | cons e es ih => rw [evalAll, ih, List.map_cons]

/-- The truth value of an expression in a group of rows. -/
def truth (I : Interpretation) (e : Expr) (g : List Valuation) : Truth := (e.eval I g).truth

theorem truth_and (ps : List Expr) (g : List Valuation) :
    truth I (.and ps) g = Truth.all (ps.map fun p => p.truth I g) := by
  simp only [truth, eval, Truth.truth_value, evalAll_eq, List.map_map]
  rfl

theorem truth_or (ps : List Expr) (g : List Valuation) :
    truth I (.or ps) g = Truth.any (ps.map fun p => p.truth I g) := by
  simp only [truth, eval, Truth.truth_value, evalAll_eq, List.map_map]
  rfl

theorem all_conjuncts (e : Expr) (g : List Valuation) :
    Truth.all (e.conjuncts.map fun p => p.truth I g) = e.truth I g := by
  unfold conjuncts
  split
  · rw [truth_and]
  · exact Truth.and_true _

theorem any_disjuncts (e : Expr) (g : List Valuation) :
    Truth.any (e.disjuncts.map fun p => p.truth I g) = e.truth I g := by
  unfold disjuncts
  split
  · rw [truth_or]
  · exact Truth.or_false _

theorem exists_truth_of_isPredicate {e : Expr} (h : e.isPredicate = true) (g : List Valuation) :
    ∃ t : Truth, e.eval I g = t.value := by
  unfold isPredicate at h
  split at h
  · exact ⟨_, rfl⟩
  · exact ⟨_, rfl⟩
  · exact ⟨_, rfl⟩
  · exact ⟨_, rfl⟩
  · exact ⟨_, rfl⟩
  · exact ⟨_, rfl⟩
  · rename_i b
    exact ⟨some b, rfl⟩
  · cases h

/-- Reading a scalar as a truth value asks whether it is `TRUE`. -/
theorem truth_asPredicate (hI : I.Lawful) (e : Expr) (g : List Valuation) :
    e.asPredicate.truth I g = I.holds (e.eval I g) := by
  unfold asPredicate
  split
  · rename_i h
    obtain ⟨t, ht⟩ := exists_truth_of_isPredicate (I := I) h g
    rw [truth, ht, Truth.truth_value, hI.holds]
  · rw [truth, eval, Truth.truth_value]
    rfl

theorem truth_andAlso (o : Option Expr) (e : Expr) (g : List Valuation) :
    (andAlso o e).truth I g =
      Truth.and ((o.map fun x => x.truth I g).getD (some true)) (e.truth I g) := by
  cases o with
  | none => exact (Truth.true_and _).symm
  | some x =>
    rw [andAlso, truth_and, List.map_append, Truth.all_append, all_conjuncts, all_conjuncts]
    rfl

/-! ## Congruence -/

theorem literal_canonical (hI : I.Lawful) (v : Literal) : I.literal v.canonical = I.literal v := by
  refine hI.constant _ _ ?_
  rw [Literal.same_iff]
  cases v with
  | float x =>
    refine congrArg Literal.float ?_
    unfold Double.canonical
    split
    · decide
    · rfl
  | _ => rfl

mutual

theorem eval_canonical (hI : I.Lawful) : ∀ (e : Expr) (g : List Valuation),
    e.canonical.eval I g = e.eval I g
  | .column _, _ => rfl
  | .literal v, _ => literal_canonical hI v
  | .compare op l r, g => by
    have hl := eval_canonical hI l g
    have hr := eval_canonical hI r g
    simp only [canonical, replace, eval] at hl hr ⊢
    rw [hl, hr]
  | .arithmetic op l r, g => by
    have hl := eval_canonical hI l g
    have hr := eval_canonical hI r g
    simp only [canonical, replace, eval] at hl hr ⊢
    rw [hl, hr]
  | .and ps, g => by
    have hps := evalAll_canonical hI ps g
    simp only [canonical, canonicalAll, replace, eval] at hps ⊢
    rw [hps]
  | .or ps, g => by
    have hps := evalAll_canonical hI ps g
    simp only [canonical, canonicalAll, replace, eval] at hps ⊢
    rw [hps]
  | .not e, g => by
    have he := eval_canonical hI e g
    simp only [canonical, replace, eval] at he ⊢
    rw [he]
  | .negate e, g => by
    have he := eval_canonical hI e g
    simp only [canonical, replace, eval] at he ⊢
    rw [he]
  | .isNull e n, g => by
    have he := eval_canonical hI e g
    simp only [canonical, replace, eval] at he ⊢
    rw [he]
  | .inList e is n, g => by
    have he := eval_canonical hI e g
    have his := evalAll_canonical hI is g
    simp only [canonical, canonicalAll, replace, eval] at he his ⊢
    rw [he, his]
  | .call f as, g => by
    have has := evalAll_canonical hI as g
    simp only [canonical, canonicalAll, replace, eval] at has ⊢
    rw [has]
  | .aggregate f as d, g => by
    have has := fun v => evalAll_canonical hI as [v]
    simp only [canonical, canonicalAll, replace, eval] at has ⊢
    simp only [has]

theorem evalAll_canonical (hI : I.Lawful) : ∀ (es : List Expr) (g : List Valuation),
    evalAll I (canonicalAll es) g = evalAll I es g
  | [], _ => rfl
  | e :: es, g => by
    have he := eval_canonical hI e g
    have hes := evalAll_canonical hI es g
    simp only [canonical, canonicalAll, replaceAll, evalAll] at he hes ⊢
    rw [he, hes]

end

theorem eval_congr (hI : I.Lawful) {a b : Expr} (h : (a == b) = true) (g : List Valuation) :
    a.eval I g = b.eval I g := by
  rw [← eval_canonical hI a, (beq_iff a b).mp h, eval_canonical hI b]

end Expr

end Sql

end EntityQuery
