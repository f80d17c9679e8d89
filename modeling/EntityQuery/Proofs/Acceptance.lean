import EntityQuery.Proofs.Semantics.Lambda
import EntityQuery.Proofs.Translation

/-! # Which terms denote an expression

Whether a term denotes an expression in a scope depends on how deep it is nested and, part by part,
on what its members stand for: they have to be scalars over visible columns, and comparisons have to
make sense for the null constants among them. Nothing else about the expressions matters. -/

namespace EntityQuery
set_option autoImplicit false

/-! ## Parts of terms -/

namespace Term

/-- How many levels of nesting a chain of members takes. -/
def links : Term → Nat
  | .member t _ => links t + 1
  | _ => 1

mutual

/-- How many levels of nesting a term takes. -/
def levels : Term → Nat
  | .param p => links (.param p) + 1
  | .member t name => links (.member t name) + 1
  | .const _ => 1
  | .binary _ l r => max (levels l) (levels r) + 1
  | .not t => levels t + 1
  | .negate t => levels t + 1
  | .call _ as => levelsAll as + 1
  | .isIn t is => max (levels t) (levelsAll is) + 1
  | .aggregate _ none _ => 1
  | .aggregate _ (some t) _ => levels t + 1
  | .record _ => 1

def levelsAll : List Term → Nat
  | [] => 0
  | t :: ts => max (levels t) (levelsAll ts)

end

mutual

/-- The terms that are read when a term is, itself first. A chain of members is read in one go. -/
def parts : Term → List Term
  | .binary op l r => .binary op l r :: (parts l ++ parts r)
  | .not t => .not t :: parts t
  | .negate t => .negate t :: parts t
  | .call f as => .call f as :: partsAll as
  | .isIn t is => .isIn t is :: (parts t ++ partsAll is)
  | .aggregate f (some t) distinct => .aggregate f (some t) distinct :: parts t
  | t => [t]

def partsAll : List Term → List Term
  | [] => []
  | t :: ts => parts t ++ partsAll ts

end

end Term

/-! ## Members and null constants -/

namespace Bindings

/-- The shape that a chain of members stands for. -/
def shape? (b : Bindings) : Term → Option Shape
  | .param p => b.get? p
  | .member t name => (b.shape? t).bind (·.member? name)
  | _ => none

/-- Whether the term is a member that stands for the null constant. -/
def isNullMember (b : Bindings) (t : Term) : Bool :=
  match b.shape? t with
  | some (.scalar e) => e.isNullConstant
  | _ => false

/-- Whether the term denotes the null constant. -/
def isNull (b : Bindings) (t : Term) : Bool := t.isNull || b.isNullMember t

end Bindings

/-- Whether there is a comparison of sides that are, or are not, the null constant. -/
def Sql.Comparator.admits (op : Sql.Comparator) (left right : Bool) : Bool :=
  !(left && right) && (!(left || right) || op == .eq || op == .ne)

/-- Whether the term, if it is a comparison, can be made of what its sides denote. -/
def Bindings.comparable (b : Bindings) : Term → Bool
  | .binary (.compare op) l r => op.admits (b.isNull l) (b.isNull r)
  | _ => true

/-- The member stands for a scalar over visible columns. -/
def Scope.AdmitsMember (s : Scope) (t : Term) : Prop :=
  ∃ e, s.bindings.shape? t = some (.scalar e) ∧ e.Over fun c => s.aliases.isVisible c.table = true

/-- Whether a part of a term can be read, given that its own parts can. -/
def Scope.Admits (s : Scope) : Term → Prop
  | .param p => s.AdmitsMember (.param p)
  | .member t name => s.AdmitsMember (.member t name)
  | .binary op l r => s.bindings.comparable (.binary op l r) = true
  | .aggregate f none _ => f.allowsNoArgument = true
  | .record _ => False
  | _ => True

/-! ## Reading -/

theorem Sql.Expr.comparison_eq_ok {op : Comparator} {l r : Expr} :
    (∃ e, comparison op l r = .ok e) ↔ op.admits l.isNullConstant r.isNullConstant = true := by
  unfold comparison Comparator.admits
  cases l.isNullConstant <;> cases r.isNullConstant <;> cases op <;> simp [nullTest]

namespace Scope

variable {s : Scope}

theorem checkColumns_eq_ok {e : Sql.Expr} {u : Unit} :
    s.checkColumns e = .ok u ↔ e.Over fun c => s.aliases.isVisible c.table = true := by
  unfold checkColumns Sql.Expr.Over
  cases hf : e.columns.find? fun c => !s.aliases.isVisible c.table with
  | none => simpa using hf
  | some c =>
    have hc := List.find?_some hf
    simp only [reduceCtorEq, false_iff, not_forall]
    exact ⟨c, List.mem_of_find?_eq_some hf, by simpa using hc⟩

theorem resolve_eq_ok {shape : Shape} : ∀ {t : Term} {depth : Nat},
    s.resolve t depth = .ok (some shape) ↔
      depth + t.links ≤ s.depthLimit ∧ s.bindings.shape? t = some shape
  | .param p, depth => by
    simp only [resolve, bind_eq_ok, pure_eq_ok, enter_eq_ok, lookup_eq_ok, Option.some.injEq,
      Term.links, Bindings.shape?]
    constructor
    · rintro ⟨_, ⟨hd, -⟩, _, hp, rfl⟩
      exact ⟨hd, hp⟩
    · rintro ⟨hd, hp⟩
      exact ⟨_, ⟨hd, rfl⟩, shape, hp, rfl⟩
  | .member t name, depth => by
    simp only [resolve, bind_eq_ok, enter_eq_ok, Term.links, Bindings.shape?, Option.bind_eq_some_iff]
    constructor
    · rintro ⟨_, ⟨hd, rfl⟩, o, ho, h⟩
      cases o with
      | none => cases h
      | some owner =>
        simp only [bind_eq_ok, pure_eq_ok, memberOf_eq_ok, Option.some.injEq] at h
        obtain ⟨m, hm, rfl⟩ := h
        obtain ⟨hlevels, hshape⟩ := resolve_eq_ok.mp ho
        exact ⟨by omega, owner, hshape, hm⟩
    · rintro ⟨hlevels, owner, hshape, hm⟩
      refine ⟨depth + 1, ⟨by omega, rfl⟩, some owner, resolve_eq_ok.mpr ⟨by omega, hshape⟩, ?_⟩
      simp only [bind_eq_ok, pure_eq_ok, memberOf_eq_ok, Option.some.injEq]
      exact ⟨shape, hm, rfl⟩
  | .const _, depth | .binary .., depth | .not _, depth | .negate _, depth | .call .., depth
  | .isIn .., depth | .aggregate .., depth | .record _, depth => by
    simp only [resolve, bind_eq_ok, pure_eq_ok, Bindings.shape?, reduceCtorEq, and_false, exists_false]

theorem scalarMember_eq_ok {t : Term} {depth : Nat} {e : Sql.Expr} :
    s.scalarMember t depth = .ok e ↔ depth + t.links ≤ s.depthLimit ∧
      s.bindings.shape? t = some (.scalar e) ∧ e.Over fun c => s.aliases.isVisible c.table = true := by
  simp only [scalarMember, bind_eq_ok]
  constructor
  · rintro ⟨o, ho, h⟩
    split at h
    · simp only [bind_eq_ok, pure_eq_ok, checkColumns_eq_ok] at h
      obtain ⟨-, hover, rfl⟩ := h
      obtain ⟨hlevels, hshape⟩ := resolve_eq_ok.mp ho
      exact ⟨hlevels, hshape, hover⟩
    · cases h
    · cases h
  · rintro ⟨hlevels, hshape, hover⟩
    refine ⟨some (.scalar e), resolve_eq_ok.mpr ⟨hlevels, hshape⟩, ?_⟩
    exact bind_eq_ok.mpr ⟨(), checkColumns_eq_ok.mpr hover, rfl⟩

theorem isNullConstant_of_scalar {t : Term} {depth : Nat} {e : Sql.Expr}
    (h : s.scalar t depth = .ok e) : e.isNullConstant = s.bindings.isNull t := by
  cases t with
  | param p =>
    simp only [scalar, bind_eq_ok, scalarMember_eq_ok] at h
    obtain ⟨_, -, -, hshape, -⟩ := h
    simp [Bindings.isNull, Bindings.isNullMember, hshape, Term.isNull]
  | member t name =>
    simp only [scalar, bind_eq_ok, scalarMember_eq_ok] at h
    obtain ⟨_, -, -, hshape, -⟩ := h
    simp [Bindings.isNull, Bindings.isNullMember, hshape, Term.isNull]
  | const v =>
    simp only [scalar, bind_eq_ok, pure_eq_ok] at h
    obtain ⟨_, -, rfl⟩ := h
    cases v <;> rfl
  | binary op l r =>
    simp only [scalar, bind_eq_ok] at h
    obtain ⟨_, -, l', -, r', -, h⟩ := h
    cases op with
    | compare op =>
      simp only [Sql.Expr.operation, Sql.Expr.comparison] at h
      split at h
      · cases h
      · cases op <;> cases h <;> rfl
      · cases op <;> cases h <;> rfl
      · cases h; rfl
    | and => cases h; rfl
    | or => cases h; rfl
    | arithmetic op => cases h; rfl
  | not t | negate t | call f as =>
    simp only [scalar, bind_eq_ok, pure_eq_ok] at h
    obtain ⟨_, -, _, -, rfl⟩ := h
    rfl
  | isIn t is =>
    simp only [scalar, bind_eq_ok, pure_eq_ok] at h
    obtain ⟨_, -, _, -, _, -, rfl⟩ := h
    rfl
  | aggregate f a distinct =>
    cases a with
    | none =>
      simp only [scalar, bind_eq_ok] at h
      obtain ⟨_, -, h⟩ := h
      split at h <;> cases h
      rfl
    | some t =>
      simp only [scalar, bind_eq_ok, pure_eq_ok] at h
      obtain ⟨_, -, _, -, rfl⟩ := h
      rfl
  | record ms =>
    simp only [scalar, bind_eq_ok] at h
    obtain ⟨_, -, h⟩ := h
    cases h

theorem exists_scalarMember {t : Term} {depth : Nat} :
    (∃ e, (do let depth ← s.enter depth; s.scalarMember t depth) = .ok e) ↔
      depth + (t.links + 1) ≤ s.depthLimit ∧ s.AdmitsMember t := by
  simp only [bind_eq_ok, enter_eq_ok, scalarMember_eq_ok, AdmitsMember]
  constructor
  · rintro ⟨e, _, ⟨-, rfl⟩, hd, h⟩
    exact ⟨by omega, e, h⟩
  · rintro ⟨hd, e, h⟩
    exact ⟨e, depth + 1, ⟨by omega, rfl⟩, by omega, h⟩

theorem exists_unary {t : Term} {depth : Nat} {f : Sql.Expr → Sql.Expr} {P : Prop}
    (ht : (∃ e, s.scalar t (depth + 1) = .ok e) ↔ depth + 1 + t.levels ≤ s.depthLimit ∧ P) :
    (∃ e, (do let depth ← s.enter depth; let e ← s.scalar t depth; return f e) = .ok e) ↔
      depth + (t.levels + 1) ≤ s.depthLimit ∧ P := by
  simp only [bind_eq_ok, enter_eq_ok, pure_eq_ok]
  constructor
  · rintro ⟨_, _, ⟨hd, rfl⟩, e, he, -⟩
    obtain ⟨hlevels, hP⟩ := ht.mp ⟨e, he⟩
    exact ⟨by omega, hP⟩
  · rintro ⟨hd, hP⟩
    obtain ⟨e, he⟩ := ht.mpr ⟨by omega, hP⟩
    exact ⟨_, depth + 1, ⟨by omega, rfl⟩, e, he, rfl⟩

/-- Two terms can be read one after the other if each can, and then the rest depends on whether they
denote the null constant. -/
theorem exists_operation {op : BinaryOp} {l r : Term} {depth : Nat} :
    (∃ l', s.scalar l depth = .ok l' ∧ ∃ r', s.scalar r depth = .ok r' ∧
        ∃ e, Sql.Expr.operation op l' r' = .ok e) ↔
      (∃ l', s.scalar l depth = .ok l') ∧ (∃ r', s.scalar r depth = .ok r') ∧
        s.Admits (.binary op l r) := by
  cases op with
  | compare op =>
    simp only [Sql.Expr.operation, Sql.Expr.comparison_eq_ok, Admits, Bindings.comparable]
    constructor
    · rintro ⟨l', hl, r', hr, h⟩
      rw [isNullConstant_of_scalar hl, isNullConstant_of_scalar hr] at h
      exact ⟨⟨l', hl⟩, ⟨r', hr⟩, h⟩
    · rintro ⟨⟨l', hl⟩, ⟨r', hr⟩, h⟩
      refine ⟨l', hl, r', hr, ?_⟩
      rw [isNullConstant_of_scalar hl, isNullConstant_of_scalar hr]
      exact h
  | and | or | arithmetic =>
    simp only [Sql.Expr.operation, Admits, Bindings.comparable, and_true]
    constructor
    · rintro ⟨l', hl, r', hr, -⟩
      exact ⟨⟨l', hl⟩, r', hr⟩
    · rintro ⟨⟨l', hl⟩, r', hr⟩
      exact ⟨l', hl, r', hr, _, rfl⟩

mutual

/-- **A term denotes an expression exactly if it is not nested too deep and each of its parts can be
read.** -/
theorem scalar_eq_ok : ∀ (t : Term) (depth : Nat), (∃ e, s.scalar t depth = .ok e) ↔
    depth + t.levels ≤ s.depthLimit ∧ ∀ u ∈ t.parts, s.Admits u
  | .param p, depth => by
    simp only [scalar, Term.levels, Term.parts, List.mem_singleton, forall_eq, Admits]
    exact exists_scalarMember
  | .member t name, depth => by
    simp only [scalar, Term.levels, Term.parts, List.mem_singleton, forall_eq, Admits]
    exact exists_scalarMember
  | .const v, depth => by
    simp only [scalar, bind_eq_ok, enter_eq_ok, pure_eq_ok, Term.levels, Term.parts,
      List.mem_singleton, forall_eq, Admits, and_true]
    constructor
    · rintro ⟨_, _, ⟨hd, -⟩, -⟩
      exact hd
    · intro hd
      exact ⟨_, _, ⟨hd, rfl⟩, rfl⟩
  | .binary op l r, depth => by
    have hl := scalar_eq_ok l (depth + 1)
    have hr := scalar_eq_ok r (depth + 1)
    have hop := @exists_operation s op l r (depth + 1)
    -- Both sides are read one level further in; what is left is whether they can be compared.
    simp only [hl, hr] at hop
    simp only [scalar, bind_eq_ok, enter_eq_ok, Term.levels, Term.parts, List.forall_mem_cons,
      List.forall_mem_append]
    constructor
    · rintro ⟨e, _, ⟨hd, rfl⟩, l', hl', r', hr', he⟩
      obtain ⟨hl, hr, hadmits⟩ := hop.mp ⟨l', hl', r', hr', e, he⟩
      exact ⟨by omega, hadmits, hl.2, hr.2⟩
    · rintro ⟨hd, hadmits, hl, hr⟩
      obtain ⟨l', hl', r', hr', e, he⟩ := hop.mpr ⟨⟨by omega, hl⟩, ⟨by omega, hr⟩, hadmits⟩
      exact ⟨e, depth + 1, ⟨by omega, rfl⟩, l', hl', r', hr', he⟩
  | .not t, depth => by
    simp only [scalar, Term.levels, Term.parts, List.forall_mem_cons, Admits, true_and]
    exact exists_unary (scalar_eq_ok t (depth + 1))
  | .negate t, depth => by
    simp only [scalar, Term.levels, Term.parts, List.forall_mem_cons, Admits, true_and]
    exact exists_unary (scalar_eq_ok t (depth + 1))
  | .call f as, depth => by
    simp only [scalar, bind_eq_ok, enter_eq_ok, pure_eq_ok, Term.levels, Term.parts,
      List.forall_mem_cons, Admits, true_and]
    constructor
    · rintro ⟨_, _, ⟨hd, rfl⟩, es, hes, -⟩
      obtain ⟨hlevels, hparts⟩ := (scalars_eq_ok as (depth + 1) hd).mp ⟨es, hes⟩
      exact ⟨by omega, hparts⟩
    · rintro ⟨hd, hparts⟩
      obtain ⟨es, hes⟩ := (scalars_eq_ok as (depth + 1) (by omega)).mpr ⟨by omega, hparts⟩
      exact ⟨_, depth + 1, ⟨by omega, rfl⟩, es, hes, rfl⟩
  | .isIn t is, depth => by
    have ht := scalar_eq_ok t (depth + 1)
    simp only [scalar, bind_eq_ok, enter_eq_ok, pure_eq_ok, Term.levels, Term.parts,
      List.forall_mem_cons, List.forall_mem_append, Admits, true_and]
    constructor
    · rintro ⟨_, _, ⟨hd, rfl⟩, e, he, es, hes, -⟩
      obtain ⟨hlevels, hparts⟩ := ht.mp ⟨e, he⟩
      obtain ⟨hlevels', hparts'⟩ := (scalars_eq_ok is (depth + 1) hd).mp ⟨es, hes⟩
      exact ⟨by omega, hparts, hparts'⟩
    · rintro ⟨hd, hparts, hparts'⟩
      obtain ⟨e, he⟩ := ht.mpr ⟨by omega, hparts⟩
      obtain ⟨es, hes⟩ := (scalars_eq_ok is (depth + 1) (by omega)).mpr ⟨by omega, hparts'⟩
      exact ⟨_, depth + 1, ⟨by omega, rfl⟩, e, he, es, hes, rfl⟩
  | .aggregate f none distinct, depth => by
    simp only [scalar, bind_eq_ok, enter_eq_ok, Term.levels, Term.parts, List.mem_singleton,
      forall_eq, Admits]
    cases f.allowsNoArgument with
    | true =>
      simp only [if_true, pure_eq_ok, and_true]
      constructor
      · rintro ⟨_, _, ⟨hd, -⟩, -⟩
        exact hd
      · intro hd
        exact ⟨_, _, ⟨hd, rfl⟩, rfl⟩
    | false => simp
  | .aggregate f (some t) distinct, depth => by
    simp only [scalar, Term.levels, Term.parts, List.forall_mem_cons, Admits, true_and]
    exact exists_unary (scalar_eq_ok t (depth + 1))
  | .record ms, depth => by
    simp only [scalar, bind_eq_ok, Term.parts, List.mem_singleton, forall_eq, Admits, reduceCtorEq,
      and_false, exists_false]

theorem scalars_eq_ok : ∀ (ts : List Term) (depth : Nat), depth ≤ s.depthLimit →
    ((∃ es, s.scalars ts depth = .ok es) ↔
      depth + Term.levelsAll ts ≤ s.depthLimit ∧ ∀ u ∈ Term.partsAll ts, s.Admits u)
  | [], depth, hd => by simp [scalars, Term.levelsAll, Term.partsAll, hd]
  | t :: ts, depth, hd => by
    have ht := scalar_eq_ok t depth
    have hts := scalars_eq_ok ts depth hd
    simp only [scalars, bind_eq_ok, pure_eq_ok, Term.levelsAll, Term.partsAll, List.forall_mem_append]
    constructor
    · rintro ⟨_, e, he, es, hes, -⟩
      obtain ⟨hlevels, hparts⟩ := ht.mp ⟨e, he⟩
      obtain ⟨hlevels', hparts'⟩ := hts.mp ⟨es, hes⟩
      exact ⟨by omega, hparts, hparts'⟩
    · rintro ⟨hlevels, hparts, hparts'⟩
      obtain ⟨e, he⟩ := ht.mpr ⟨by omega, hparts⟩
      obtain ⟨es, hes⟩ := hts.mpr ⟨by omega, hparts'⟩
      exact ⟨_, e, he, es, hes, rfl⟩

end

end Scope

end EntityQuery
