import EntityQuery.Sql.Expr

/-! # Expressions: replacement, equality, columns

Equality of expressions only looks through the sign of zero. So each expression has a canonical
form, in which no zero has a sign, and equality is identity of canonical forms. That makes it an
equivalence, and whatever does not change under the canonical form respects it. -/

namespace EntityQuery
set_option autoImplicit false

/-! ## Canonical literals -/

theorem Double.key_eq_zero_iff (x : Double) : x.key = 0 ↔ x.isZero = true := by
  unfold Double.key
  constructor
  · intro h
    by_cases hz : x.isZero = true
    · exact hz
    · rw [if_neg hz] at h
      simp [Double.isZero, Double.magnitude, magnitudeBits, h]
  · intro h
    rw [if_pos h]

/-- The double without the sign of zero. -/
def Double.canonical (x : Double) : Double := if x.isZero then ⟨0, Nat.zero_le _⟩ else x

theorem Double.canonical_eq_iff (x y : Double) : x.canonical = y.canonical ↔ x.key = y.key := by
  have hz : Double.isZero ⟨0, by decide⟩ = true := by decide
  unfold Double.canonical
  by_cases hx : x.isZero = true <;> by_cases hy : y.isZero = true
  · simp [hx, hy, (Double.key_eq_zero_iff x).mpr hx, (Double.key_eq_zero_iff y).mpr hy]
  · have hk : y.key ≠ 0 := fun h => hy ((Double.key_eq_zero_iff y).mp h)
    rw [if_pos hx, if_neg hy, (Double.key_eq_zero_iff x).mpr hx]
    constructor
    · intro h; rw [← h] at hy; exact absurd hz hy
    · intro h; exact absurd h.symm hk
  · have hk : x.key ≠ 0 := fun h => hx ((Double.key_eq_zero_iff x).mp h)
    rw [if_neg hx, if_pos hy, (Double.key_eq_zero_iff y).mpr hy]
    constructor
    · intro h; rw [h] at hx; exact absurd hz hx
    · intro h; exact absurd h hk
  · rw [if_neg hx, if_neg hy]
    simp only [Double.key, hx, hy, Bool.false_eq_true, if_false]
    constructor
    · intro h; rw [h]
    · intro h
      have hb : x.bits = y.bits := UInt64.toNat_inj.mp h
      cases x
      cases y
      simp only at hb
      subst hb
      rfl

namespace Literal

/-- The literal without the sign of zero. -/
def canonical : Literal → Literal
  | .float x => .float x.canonical
  | v => v

theorem same_iff (a b : Literal) : (a == b) = true ↔ a.canonical = b.canonical := by
  change same a b = true ↔ _
  cases a <;> cases b <;> simp [same, canonical]
  case float.float x y =>
    change (x.key == y.key) = true ↔ _
    rw [beq_iff_eq, Double.canonical_eq_iff]

end Literal

namespace Sql.Expr

/-! ## Replacement -/

mutual

/-- The expression with other expressions in place of its columns and literals. -/
def replace (f : Column → Expr) (g : Literal → Expr) : Expr → Expr
  | .column c => f c
  | .literal v => g v
  | .compare o l r => .compare o (replace f g l) (replace f g r)
  | .arithmetic o l r => .arithmetic o (replace f g l) (replace f g r)
  | .and ps => .and (replaceAll f g ps)
  | .or ps => .or (replaceAll f g ps)
  | .not e => .not (replace f g e)
  | .negate e => .negate (replace f g e)
  | .isNull e n => .isNull (replace f g e) n
  | .inList e is n => .inList (replace f g e) (replaceAll f g is) n
  | .call h as => .call h (replaceAll f g as)
  | .aggregate h as d => .aggregate h (replaceAll f g as) d

def replaceAll (f : Column → Expr) (g : Literal → Expr) : List Expr → List Expr
  | [] => []
  | e :: es => replace f g e :: replaceAll f g es

end

/-- The expression without the signs of zeros. -/
def canonical (e : Expr) : Expr := e.replace .column fun v => .literal v.canonical

def canonicalAll (es : List Expr) : List Expr := replaceAll .column (fun v => .literal v.canonical) es

/-! ## Equality -/

mutual

theorem same_iff : ∀ a b : Expr, same a b = true ↔ a.canonical = b.canonical
  | .column c, b => by cases b <;> simp [same, canonical, replace]
  | .literal v, b => by cases b <;> simp [same, canonical, replace, Literal.same_iff]
  | .compare o l r, b => by
    cases b <;> simp [same, canonical, replace, same_iff l, same_iff r, and_assoc]
  | .arithmetic o l r, b => by
    cases b <;> simp [same, canonical, replace, same_iff l, same_iff r, and_assoc]
  | .and ps, b => by cases b <;> simp [same, canonical, replace, canonicalAll, sameAll_iff ps]
  | .or ps, b => by cases b <;> simp [same, canonical, replace, canonicalAll, sameAll_iff ps]
  | .not e, b => by cases b <;> simp [same, canonical, replace, same_iff e]
  | .negate e, b => by cases b <;> simp [same, canonical, replace, same_iff e]
  | .isNull e n, b => by cases b <;> simp [same, canonical, replace, same_iff e]
  | .inList e is n, b => by
    cases b <;> simp [same, canonical, replace, canonicalAll, same_iff e, sameAll_iff is, and_assoc]
  | .call f as, b => by cases b <;> simp [same, canonical, replace, canonicalAll, sameAll_iff as]
  | .aggregate f as d, b => by
    cases b <;> simp [same, canonical, replace, canonicalAll, sameAll_iff as, and_assoc]

theorem sameAll_iff : ∀ as bs : List Expr, sameAll as bs = true ↔ canonicalAll as = canonicalAll bs
  | [], bs => by cases bs <;> simp [sameAll, canonicalAll, replaceAll]
  | a :: as, bs => by
    cases bs <;> simp [sameAll, canonical, canonicalAll, replaceAll, same_iff a, sameAll_iff as]

end

theorem beq_iff (a b : Expr) : (a == b) = true ↔ a.canonical = b.canonical := same_iff a b

instance : EquivBEq Expr where
  rfl := (beq_iff _ _).mpr rfl
  symm h := (beq_iff _ _).mpr ((beq_iff _ _).mp h).symm
  trans h h' := (beq_iff _ _).mpr (((beq_iff _ _).mp h).trans ((beq_iff _ _).mp h'))

/-! ## Columns -/

theorem columnsAll_eq (es : List Expr) : (nodesAll es).filterMap column? = es.flatMap columns := by
  induction es with
  | nil => rfl
  | cons e es ih => rw [nodesAll, List.filterMap_append, ih, List.flatMap_cons, columns]

@[simp] theorem columns_column (c : Column) : columns (.column c) = [c] := rfl

@[simp] theorem columns_literal (v : Literal) : columns (.literal v) = [] := rfl

@[simp] theorem columns_compare (o : Comparator) (l r : Expr) :
    columns (.compare o l r) = columns l ++ columns r :=
  List.filterMap_append

@[simp] theorem columns_arithmetic (o : Arithmetic) (l r : Expr) :
    columns (.arithmetic o l r) = columns l ++ columns r :=
  List.filterMap_append

@[simp] theorem columns_and (ps : List Expr) : columns (.and ps) = ps.flatMap columns :=
  columnsAll_eq ps

@[simp] theorem columns_or (ps : List Expr) : columns (.or ps) = ps.flatMap columns :=
  columnsAll_eq ps

@[simp] theorem columns_not (e : Expr) : columns (.not e) = columns e := rfl

@[simp] theorem columns_negate (e : Expr) : columns (.negate e) = columns e := rfl

@[simp] theorem columns_isNull (e : Expr) (n : Bool) : columns (.isNull e n) = columns e := rfl

@[simp] theorem columns_inList (e : Expr) (is : List Expr) (n : Bool) :
    columns (.inList e is n) = columns e ++ is.flatMap columns := by
  rw [← columnsAll_eq]
  exact List.filterMap_append

@[simp] theorem columns_call (f : String) (as : List Expr) :
    columns (.call f as) = as.flatMap columns :=
  columnsAll_eq as

@[simp] theorem columns_aggregate (f : AggregateFunction) (as : List Expr) (d : Bool) :
    columns (.aggregate f as d) = as.flatMap columns :=
  columnsAll_eq as

end Sql.Expr

end EntityQuery
