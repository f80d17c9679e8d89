import EntityQuery.Lambda.Term
import EntityQuery.Entries
import EntityQuery.Proofs.Semantics.Expr

/-! # The meaning of lambdas

Lambdas act on data: scalars and objects of named members. Operands of logical operations are read
as truth values, and comparisons with the null constant ask whether the other side is null. -/

namespace EntityQuery
set_option autoImplicit false

/-! ## Data -/

/-- What a row of a result is: a scalar, or an object with the names of the members that identify
it. -/
inductive Datum where
  | scalar (value : Json)
  | object (key : List String) (members : List (String × Datum))

namespace Datum

/-- The member of a name; where there is none it is null. -/
def member (name : String) : Datum → Datum
  | .scalar _ => .scalar .null
  | .object _ members => (members.lookup name).getD (.scalar .null)

/-- The value of a scalar; objects have none. -/
def value : Datum → Json
  | .scalar v => v
  | .object .. => .null

mutual

/-- The same datum with all scalars null. -/
def blank : Datum → Datum
  | .scalar _ => .scalar .null
  | .object key members => .object key (blankMembers members)

def blankMembers : List (String × Datum) → List (String × Datum)
  | [] => []
  | (n, d) :: ms => (n, blank d) :: blankMembers ms

end

mutual

/-- Whether the scalars of two data of one form are the same. -/
def same (I : Interpretation) : Datum → Datum → Bool
  | .scalar v, .scalar w => I.same v w
  | .object _ ms, .object _ ms' => sameMembers I ms ms'
  | _, _ => false

def sameMembers (I : Interpretation) : List (String × Datum) → List (String × Datum) → Bool
  | [], [] => true
  | (_, d) :: ms, (_, d') :: ms' => same I d d' && sameMembers I ms ms'
  | _, _ => false

end

/-- The values of the key members that are scalars. -/
def identity (key : List String) (members : List (String × Datum)) : List Json :=
  key.filterMap fun k =>
    match members.lookup k with
    | some (.scalar v) => some v
    | _ => none

mutual

/-- The datum as JSON. An object is null if it has an identity and all of that is null. -/
def json : Datum → Json
  | .scalar v => v
  | .object key members =>
    if !(identity key members).isEmpty && (identity key members).all Row.isNull then .null
    else Json.ofFields (fields members)

def fields : List (String × Datum) → List (String × Json)
  | [] => []
  | (n, d) :: ms => (n, json d) :: fields ms

end

end Datum

/-! ## Terms -/

/-- Whether the term is the null constant. -/
def Term.isNull : Term → Bool
  | .const v => v.isNull
  | _ => false

/-- The comparison of two values, of which the null constant is no ordinary one. -/
def Interpretation.comparison (I : Interpretation) (op : Sql.Comparator) (l r : Term)
    (v w : Json) : Truth :=
  if r.isNull then nullTest v else if l.isNull then nullTest w else I.compare op v w
where
  nullTest (v : Json) : Truth :=
    match op with
    | .eq => some (Row.isNull v)
    | .ne => some (!Row.isNull v)
    | _ => none

mutual

/-- What a term denotes, where its parameters stand for data. An aggregate means nothing here. -/
def Term.eval (I : Interpretation) (args : List (Param × Datum)) : Term → Datum
  | .param p => (args.lookup p).getD (.scalar .null)
  | .member t name => (t.eval I args).member name
  | .const v => .scalar (I.literal v)
  | .binary (.compare op) l r =>
    .scalar (I.comparison op l r (l.eval I args).value (r.eval I args).value).value
  | .binary .and l r =>
    .scalar ((I.holds (l.eval I args).value).and (I.holds (r.eval I args).value)).value
  | .binary .or l r =>
    .scalar ((I.holds (l.eval I args).value).or (I.holds (r.eval I args).value)).value
  | .binary (.arithmetic op) l r =>
    .scalar (I.arithmetic op (l.eval I args).value (r.eval I args).value)
  | .not t => .scalar (I.holds (t.eval I args).value).not.value
  | .negate t => .scalar (I.negate (t.eval I args).value)
  | .call f as => .scalar (I.call f.toUpper (Term.values I args as))
  | .isIn t is =>
    .scalar (Truth.any ((Term.values I args is).map (I.compare .eq (t.eval I args).value))).value
  | .aggregate .. => .scalar .null
  | .record ms => .object [] (Term.evalMembers I args ms)

def Term.values (I : Interpretation) (args : List (Param × Datum)) : List Term → List Json
  | [] => []
  | t :: ts => (t.eval I args).value :: Term.values I args ts

def Term.evalMembers (I : Interpretation) (args : List (Param × Datum)) :
    List (String × Term) → List (String × Datum)
  | [] => []
  | (n, t) :: ms => (n, t.eval I args) :: Term.evalMembers I args ms

end

mutual

/-- Whether the null constant stands nowhere but on a side of `=` or `≠`. -/
def Term.comparesNulls : Term → Bool
  | .param _ => true
  | .member t _ => t.comparesNulls
  | .const v => !v.isNull
  | .binary (.compare op) l r =>
    (l.comparesNulls || l.isNull && (op == .eq || op == .ne)) &&
      (r.comparesNulls || r.isNull && (op == .eq || op == .ne))
  | .binary _ l r => l.comparesNulls && r.comparesNulls
  | .not t => t.comparesNulls
  | .negate t => t.comparesNulls
  | .call _ as => Term.allCompareNulls as
  | .isIn t is => t.comparesNulls && Term.allCompareNulls is
  | .aggregate _ none _ => true
  | .aggregate _ (some t) _ => t.comparesNulls
  | .record ms => Term.membersCompareNulls ms

def Term.allCompareNulls : List Term → Bool
  | [] => true
  | t :: ts => t.comparesNulls && Term.allCompareNulls ts

def Term.membersCompareNulls : List (String × Term) → Bool
  | [] => true
  | (_, t) :: ms => t.comparesNulls && Term.membersCompareNulls ms

end

/-- What a lambda makes of its arguments. Of two parameters with one id the later one counts. -/
def Lambda.eval (f : Lambda) (I : Interpretation) (args : List Datum) : Datum :=
  f.body.eval I (Entries.ofList (f.params.zip args))

/-! ## Forms -/

namespace Datum

mutual

theorem blank_blank : ∀ d : Datum, d.blank.blank = d.blank
  | .scalar _ => rfl
  | .object _ ms => by rw [blank, blank, blankMembers_blankMembers ms]

theorem blankMembers_blankMembers : ∀ ms : List (String × Datum),
    blankMembers (blankMembers ms) = blankMembers ms
  | [] => rfl
  | (_, d) :: ms => by
    rw [blankMembers, blankMembers, blank_blank d, blankMembers_blankMembers ms]

end

theorem lookup_blankMembers (ms : List (String × Datum)) (n : String) :
    (blankMembers ms).lookup n = (ms.lookup n).map blank := by
  induction ms with
  | nil => rfl
  | cons x ms ih =>
    obtain ⟨n', d⟩ := x
    rw [blankMembers, List.lookup_cons, List.lookup_cons, ih]
    cases n == n' <;> rfl

theorem blank_member (d : Datum) (n : String) : (d.member n).blank = (d.blank.member n).blank := by
  cases d with
  | scalar v => rfl
  | object key ms =>
    simp only [blank, member, lookup_blankMembers]
    cases ms.lookup n with
    | none => rfl
    | some m => exact (blank_blank m).symm

end Datum

mutual

/-- The form of what a term denotes depends on the forms of its arguments only. -/
theorem Term.blank_eval {I : Interpretation} {args args' : List (Param × Datum)}
    (h : ∀ p, (args.lookup p).map Datum.blank = (args'.lookup p).map Datum.blank) :
    ∀ t : Term, (t.eval I args).blank = (t.eval I args').blank
  | .param p => by
    have hp := h p
    simp only [Term.eval]
    cases ha : args.lookup p with
    | none =>
      cases ha' : args'.lookup p with
      | none => rfl
      | some d => rw [ha, ha'] at hp; cases hp
    | some d =>
      cases ha' : args'.lookup p with
      | none => rw [ha, ha'] at hp; cases hp
      | some d' => rw [ha, ha'] at hp; exact Option.some.inj hp
  | .member t n => by
    rw [Term.eval, Term.eval, Datum.blank_member, Term.blank_eval h t, ← Datum.blank_member]
  | .const _ => rfl
  | .binary (.compare _) _ _ => rfl
  | .binary .and _ _ => rfl
  | .binary .or _ _ => rfl
  | .binary (.arithmetic _) _ _ => rfl
  | .not _ => rfl
  | .negate _ => rfl
  | .call _ _ => rfl
  | .isIn _ _ => rfl
  | .aggregate _ _ _ => rfl
  | .record ms => by
    rw [Term.eval, Term.eval, Datum.blank, Datum.blank, Term.blank_evalMembers h ms]

theorem Term.blank_evalMembers {I : Interpretation} {args args' : List (Param × Datum)}
    (h : ∀ p, (args.lookup p).map Datum.blank = (args'.lookup p).map Datum.blank) :
    ∀ ms : List (String × Term), Datum.blankMembers (Term.evalMembers I args ms) =
      Datum.blankMembers (Term.evalMembers I args' ms)
  | [] => rfl
  | (n, t) :: ms => by
    simp only [Term.evalMembers, Datum.blankMembers]
    rw [Term.blank_eval h t, Term.blank_evalMembers h ms]

end

end EntityQuery
