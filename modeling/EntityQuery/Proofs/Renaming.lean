import Mathlib.Data.List.Forall2
import EntityQuery.Proofs.Steps

/-! # Renaming parameters

A lambda may call its parameters what it likes. A renaming gives new ids to the parameters of one
lambda, different ones to different parameters, and any names. What the lambda denotes stays the same,
up to the words of errors, as long as its scope binds the renamed parameters to the same shapes. -/

namespace EntityQuery
set_option autoImplicit false

/-! ## Outcomes -/

/-- The error without the texts that spell parameters. -/
def CompileError.unnamed : CompileError → CompileError
  | .unboundParam _ => .unboundParam ""
  | .unsupported (.notScalar _) => .unsupported (.notScalar "")
  | .unsupported (.notRooted _) => .unsupported (.notRooted "")
  | .unsupported (.collectionKey _) => .unsupported (.collectionKey "")
  | e => e

/-- The outcomes are related results, or errors that differ in the texts of parameters only. -/
inductive Agree {α β : Type} (R : α → β → Prop) :
    Except CompileError α → Except CompileError β → Prop where
  | ok {a : α} {b : β} : R a b → Agree R (.ok a) (.ok b)
  | error {e e' : CompileError} : e.unnamed = e'.unnamed → Agree R (.error e) (.error e')

theorem Agree.bind {α β γ δ : Type} {R : α → β → Prop} {S : γ → δ → Prop} {x : Except CompileError α}
    {y : Except CompileError β} {k : α → Except CompileError γ} {l : β → Except CompileError δ}
    (h : Agree R x y) (hk : ∀ a b, R a b → Agree S (k a) (l b)) : Agree S (x >>= k) (y >>= l) := by
  cases h with
  | ok hab => exact hk _ _ hab
  | error he => exact .error he

/-- The outcomes are the same result, or errors that differ in the texts of parameters only. -/
abbrev SameOutcome {α : Type} (x y : Except CompileError α) : Prop := Agree Eq x y

namespace SameOutcome

variable {α β : Type} {x y : Except CompileError α}

theorem refl (x : Except CompileError α) : SameOutcome x x := by
  cases x with
  | ok a => exact .ok rfl
  | error e => exact .error rfl

theorem ok_iff (h : SameOutcome x y) {a : α} : x = .ok a ↔ y = .ok a := by
  cases h with
  | ok hab => rw [hab]
  | error _ => constructor <;> intro h' <;> cases h'

theorem bind {k l : α → Except CompileError β} (h : SameOutcome x y)
    (hk : ∀ a, x = .ok a → SameOutcome (k a) (l a)) : SameOutcome (x >>= k) (y >>= l) := by
  cases h with
  | ok hab =>
    rw [← hab]
    exact hk _ rfl
  | error he => exact .error he

theorem mapM {γ δ : Type} {R : γ → δ → Prop} {f : γ → Except CompileError α}
    {g : δ → Except CompileError α} (hfg : ∀ c d, R c d → SameOutcome (f c) (g d)) {cs : List γ}
    {ds : List δ} (h : List.Forall₂ R cs ds) : SameOutcome (cs.mapM f) (ds.mapM g) := by
  induction h with
  | nil => exact refl _
  | cons hcd _ ih =>
    rw [List.mapM_cons, List.mapM_cons]
    refine (hfg _ _ hcd).bind fun b _ => ?_
    exact ih.bind fun bs _ => refl _

end SameOutcome

/-! ## Renamed lambdas -/

mutual

/-- The second term is the first one with the ids of its parameters renamed and with any names. -/
inductive Term.Renamed (ρ : Nat → Nat) : Term → Term → Prop where
  | param {p p' : Param} : p'.id = ρ p.id → Renamed ρ (.param p) (.param p')
  | member {t t' : Term} {name : String} : Renamed ρ t t' → Renamed ρ (.member t name) (.member t' name)
  | const {v : Literal} : Renamed ρ (.const v) (.const v)
  | binary {op : BinaryOp} {l l' r r' : Term} : Renamed ρ l l' → Renamed ρ r r' →
    Renamed ρ (.binary op l r) (.binary op l' r')
  | not {t t' : Term} : Renamed ρ t t' → Renamed ρ (.not t) (.not t')
  | negate {t t' : Term} : Renamed ρ t t' → Renamed ρ (.negate t) (.negate t')
  | call {f : String} {as as' : List Term} : RenamedAll ρ as as' → Renamed ρ (.call f as) (.call f as')
  | isIn {t t' : Term} {is is' : List Term} : Renamed ρ t t' → RenamedAll ρ is is' →
    Renamed ρ (.isIn t is) (.isIn t' is')
  | count {f : Sql.AggregateFunction} {d : Bool} :
    Renamed ρ (.aggregate f none d) (.aggregate f none d)
  | aggregate {f : Sql.AggregateFunction} {t t' : Term} {d : Bool} : Renamed ρ t t' →
    Renamed ρ (.aggregate f (some t) d) (.aggregate f (some t') d)
  | record {ms ms' : List (String × Term)} : RenamedMembers ρ ms ms' →
    Renamed ρ (.record ms) (.record ms')

inductive Term.RenamedAll (ρ : Nat → Nat) : List Term → List Term → Prop where
  | nil : RenamedAll ρ [] []
  | cons {t t' : Term} {ts ts' : List Term} : Renamed ρ t t' → RenamedAll ρ ts ts' →
    RenamedAll ρ (t :: ts) (t' :: ts')

inductive Term.RenamedMembers (ρ : Nat → Nat) : List (String × Term) → List (String × Term) → Prop where
  | nil : RenamedMembers ρ [] []
  | cons {n : String} {t t' : Term} {ms ms' : List (String × Term)} : Renamed ρ t t' →
    RenamedMembers ρ ms ms' → RenamedMembers ρ ((n, t) :: ms) ((n, t') :: ms')

end

/-- The second lambda is the first one under an injective renaming of its own. -/
structure Lambda.RenamedBy (ρ : Nat → Nat) (f f' : Lambda) : Prop where
  injective : Function.Injective ρ
  params : List.Forall₂ (fun p p' : Param => p'.id = ρ p.id) f.params f'.params
  body : Term.Renamed ρ f.body f'.body

/-- The second lambda is the first one under some renaming. -/
def Lambda.Renamed (f f' : Lambda) : Prop := ∃ ρ, Lambda.RenamedBy ρ f f'

namespace Lambda.RenamedBy

variable {ρ : Nat → Nat} {f f' : Lambda}

theorem expectArity (h : Lambda.RenamedBy ρ f f') (n : Nat) : f'.expectArity n = f.expectArity n := by
  rw [Lambda.expectArity, Lambda.expectArity, h.params.length_eq]

theorem firstParam (h : Lambda.RenamedBy ρ f f') :
    Agree (fun p p' => p'.id = ρ p.id) f.firstParam f'.firstParam := by
  have hparams := h.params
  rw [Lambda.firstParam, Lambda.firstParam]
  generalize f.params = ps, f'.params = ps' at hparams ⊢
  cases hparams with
  | nil => exact .error rfl
  | cons hp _ => exact .ok hp

theorem lastParam (h : Lambda.RenamedBy ρ f f') :
    Agree (fun p p' => p'.id = ρ p.id) f.lastParam f'.lastParam := by
  have hparams := List.rel_reverse h.params
  rw [Lambda.lastParam, Lambda.lastParam, List.getLast?_eq_head?_reverse, List.getLast?_eq_head?_reverse]
  generalize f.params.reverse = ps, f'.params.reverse = ps' at hparams ⊢
  cases hparams with
  | nil => exact .error rfl
  | cons hp _ => exact .ok hp

end Lambda.RenamedBy

/-! ## Renamed scopes -/

/-- Renamed parameters stand for the same shapes. -/
def Bindings.Renamed (ρ : Nat → Nat) (b b' : Bindings) : Prop :=
  ∀ p p' : Param, p'.id = ρ p.id → b'.get? p' = b.get? p

namespace Bindings

instance : EquivBEq Param where
  rfl := fun {p} => beq_self_eq_true p.id
  symm := fun {p q} => BEq.symm (a := p.id) (b := q.id)
  trans := fun {p q r} => BEq.trans (a := p.id) (b := q.id) (c := r.id)

theorem renamed_empty (ρ : Nat → Nat) : Bindings.Renamed ρ {} {} := fun _ _ _ => rfl

theorem get?_bind (b : Bindings) (p q : Param) (shape : Shape) :
    (b.bind p shape).get? q = if q == p then some shape else b.get? q := by
  cases h : q == p with
  | false => exact Entries.lookup_put_of_ne h shape b.entries
  | true =>
    -- The two parameters have one id, so they are equal as keys.
    have hkey : ∀ es : List (Param × Shape), es.lookup q = es.lookup p := by
      intro es
      induction es with
      | nil => rfl
      | cons e es ih => rw [List.lookup_cons, List.lookup_cons, ih, BEq.congr_left h]
    exact (hkey _).trans (Entries.lookup_put_self p shape b.entries)

theorem Renamed.bind {ρ : Nat → Nat} (hρ : Function.Injective ρ) {b b' : Bindings}
    (h : Bindings.Renamed ρ b b') {p p' : Param} (hp : p'.id = ρ p.id) (shape : Shape) :
    Bindings.Renamed ρ (b.bind p shape) (b'.bind p' shape) := by
  intro q q' hq
  have hsame : (q' == p') = (q == p) := by
    have hids : (ρ q.id == ρ p.id) = (q.id == p.id) := by
      rw [Bool.eq_iff_iff, beq_iff_eq, beq_iff_eq, hρ.eq_iff]
    rw [← hq, ← hp] at hids
    exact hids
  rw [get?_bind, get?_bind, hsame, h q q' hq]

end Bindings

/-- The scopes differ in the ids of parameters only. -/
structure Scope.Renamed (ρ : Nat → Nat) (s s' : Scope) : Prop where
  bindings : s.bindings.Renamed ρ s'.bindings
  aliases : s'.aliases = s.aliases
  depthLimit : s'.depthLimit = s.depthLimit

namespace Scope

variable {ρ : Nat → Nat} {s s' : Scope}

theorem Renamed.enter (h : s.Renamed ρ s') (depth : Nat) : SameOutcome (s.enter depth) (s'.enter depth) := by
  rw [Scope.enter, Scope.enter, h.depthLimit]
  exact .refl _

theorem Renamed.checkColumns (h : s.Renamed ρ s') (e : Sql.Expr) : s'.checkColumns e = s.checkColumns e := by
  rw [Scope.checkColumns, Scope.checkColumns, h.aliases]

theorem Renamed.checkAll (h : s.Renamed ρ s') (es : List Sql.Expr) : s'.checkAll es = s.checkAll es := by
  induction es with
  | nil => rfl
  | cons e es ih => rw [Scope.checkAll, Scope.checkAll, h.checkColumns, ih]

theorem Renamed.lookup (h : s.Renamed ρ s') {p p' : Param} (hp : p'.id = ρ p.id) :
    SameOutcome (s.lookup p) (s'.lookup p') := by
  rw [Scope.lookup, Scope.lookup, h.bindings p p' hp]
  cases s.bindings.get? p with
  | some shape => exact .refl _
  | none => exact .error rfl

/-! ## What renamed terms denote -/

theorem Renamed.resolve (h : s.Renamed ρ s') : ∀ {t t' : Term}, Term.Renamed ρ t t' →
    ∀ depth, SameOutcome (s.resolve t depth) (s'.resolve t' depth)
  | _, _, .param hp, depth =>
    (h.enter depth).bind fun _ _ => (h.lookup hp).bind fun _ _ => .refl _
  | _, _, .member ht, depth => by
    refine (h.enter depth).bind fun depth' _ => ?_
    refine (Renamed.resolve h ht depth').bind fun o _ => ?_
    cases o <;> exact .refl _
  | _, _, .const, depth | _, _, .binary _ _, depth | _, _, .not _, depth | _, _, .negate _, depth
  | _, _, .call _, depth | _, _, .isIn _ _, depth | _, _, .count, depth | _, _, .aggregate _, depth
  | _, _, .record _, depth => (h.enter depth).bind fun _ _ => .refl _

theorem Renamed.scalarMember (h : s.Renamed ρ s') {t t' : Term} (ht : Term.Renamed ρ t t') (depth : Nat) :
    SameOutcome (s.scalarMember t depth) (s'.scalarMember t' depth) := by
  refine (h.resolve ht depth).bind fun o _ => ?_
  cases o with
  | none => exact .error rfl
  | some shape =>
    cases shape with
    | scalar e =>
      simp only [h.checkColumns]
      exact .refl _
    | object o => exact .error rfl
    | collection element c f => exact .error rfl

mutual

theorem Renamed.scalar (h : s.Renamed ρ s') : ∀ {t t' : Term}, Term.Renamed ρ t t' →
    ∀ depth, SameOutcome (s.scalar t depth) (s'.scalar t' depth)
  | _, _, .param hp, depth => (h.enter depth).bind fun depth' _ => h.scalarMember (.param hp) depth'
  | _, _, .member ht, depth => (h.enter depth).bind fun depth' _ => h.scalarMember (.member ht) depth'
  | _, _, .const, depth => (h.enter depth).bind fun _ _ => .refl _
  | _, _, .binary hl hr, depth => by
    refine (h.enter depth).bind fun depth' _ => ?_
    refine (Renamed.scalar h hl depth').bind fun l _ => ?_
    exact (Renamed.scalar h hr depth').bind fun r _ => .refl _
  | _, _, .not ht, depth => by
    refine (h.enter depth).bind fun depth' _ => ?_
    exact (Renamed.scalar h ht depth').bind fun e _ => .refl _
  | _, _, .negate ht, depth => by
    refine (h.enter depth).bind fun depth' _ => ?_
    exact (Renamed.scalar h ht depth').bind fun e _ => .refl _
  | _, _, .call has, depth => by
    refine (h.enter depth).bind fun depth' _ => ?_
    exact (Renamed.scalars h has depth').bind fun es _ => .refl _
  | _, _, .isIn ht his, depth => by
    refine (h.enter depth).bind fun depth' _ => ?_
    refine (Renamed.scalar h ht depth').bind fun e _ => ?_
    exact (Renamed.scalars h his depth').bind fun es _ => .refl _
  | _, _, .count, depth => (h.enter depth).bind fun _ _ => .refl _
  | _, _, .aggregate ht, depth => by
    refine (h.enter depth).bind fun depth' _ => ?_
    exact (Renamed.scalar h ht depth').bind fun e _ => .refl _
  | _, _, .record _, depth => (h.enter depth).bind fun _ _ => .refl _

theorem Renamed.scalars (h : s.Renamed ρ s') : ∀ {ts ts' : List Term}, Term.RenamedAll ρ ts ts' →
    ∀ depth, SameOutcome (s.scalars ts depth) (s'.scalars ts' depth)
  | _, _, .nil, _ => .refl _
  | _, _, .cons ht hts, depth => by
    refine (Renamed.scalar h ht depth).bind fun e _ => ?_
    exact (Renamed.scalars h hts depth).bind fun es _ => .refl _

end

theorem Renamed.shapeOf (h : s.Renamed ρ s') {t t' : Term} (ht : Term.Renamed ρ t t') (depth : Nat) :
    SameOutcome (s.shapeOf t depth) (s'.shapeOf t' depth) := by
  refine (h.resolve ht depth).bind fun o _ => ?_
  cases o with
  | none => exact (h.scalar ht depth).bind fun e _ => .refl _
  | some shape =>
    simp only [h.checkAll]
    exact .refl _

mutual

theorem Renamed.shape (h : s.Renamed ρ s') : ∀ {t t' : Term}, Term.Renamed ρ t t' →
    ∀ depth, SameOutcome (s.shape t depth) (s'.shape t' depth)
  | _, _, .record hms, depth => by
    refine (h.enter depth).bind fun depth' _ => ?_
    exact (Renamed.shapes h hms depth' []).bind fun ms _ => .refl _
  | _, _, .param hp, depth => (h.enter depth).bind fun depth' _ => h.shapeOf (.param hp) depth'
  | _, _, .member ht, depth => (h.enter depth).bind fun depth' _ => h.shapeOf (.member ht) depth'
  | _, _, ht@.const, depth | _, _, ht@(.binary _ _), depth | _, _, ht@(.not _), depth
  | _, _, ht@(.negate _), depth | _, _, ht@(.call _), depth | _, _, ht@(.isIn _ _), depth
  | _, _, ht@.count, depth | _, _, ht@(.aggregate _), depth =>
    (h.enter depth).bind fun depth' _ => (h.scalar ht depth').bind fun e _ => .refl _

theorem Renamed.shapes (h : s.Renamed ρ s') : ∀ {ms ms' : List (String × Term)},
    Term.RenamedMembers ρ ms ms' → ∀ depth done,
      SameOutcome (s.shapes ms depth done) (s'.shapes ms' depth done)
  | _, _, .nil, _, _ => .refl _
  | _, _, .cons ht hms, depth, done => by
    rw [Scope.shapes, Scope.shapes]
    split
    · exact .refl _
    · refine (Renamed.shape h ht depth).bind fun shape _ => ?_
      exact Renamed.shapes h hms depth _

end

theorem Renamed.keysOf (h : s.Renamed ρ s') {t t' : Term} (ht : Term.Renamed ρ t t') (depth : Nat) :
    SameOutcome (s.keysOf t depth) (s'.keysOf t' depth) := by
  refine (h.resolve ht depth).bind fun o _ => ?_
  cases o with
  | none => exact (h.scalar ht depth).bind fun e _ => .refl _
  | some shape =>
    cases shape with
    | collection element c f => exact .error rfl
    | _ =>
      simp only [h.checkAll]
      exact .refl _

theorem Renamed.keysOfAll (h : s.Renamed ρ s') {ms ms' : List (String × Term)}
    (hms : Term.RenamedMembers ρ ms ms') (depth : Nat) :
    SameOutcome (s.keysOfAll ms depth) (s'.keysOfAll ms' depth) := by
  induction ms generalizing ms' with
  | nil =>
    cases hms
    exact .refl _
  | cons m ms ih =>
    cases hms with
    | cons ht hms =>
      refine (h.keysOf ht depth).bind fun keys _ => ?_
      exact (ih hms).bind fun more _ => .refl _

theorem Renamed.groupKeys (h : s.Renamed ρ s') {f f' : Lambda} (hf : Lambda.RenamedBy ρ f f') :
    SameOutcome (s.groupKeys f) (s'.groupKeys f') := by
  obtain ⟨ps, t⟩ := f
  obtain ⟨ps', t'⟩ := f'
  have ht : Term.Renamed ρ t t' := hf.body
  cases ht with
  | record hms => exact (h.enter 0).bind fun depth _ => h.keysOfAll hms depth
  | _ => exact h.keysOf hf.body 0

variable {f f' : Lambda}

theorem Renamed.expression (h : s.Renamed ρ s') (hf : Lambda.RenamedBy ρ f f') :
    SameOutcome (s.expression f) (s'.expression f') := h.scalar hf.body 0

theorem Renamed.predicate (h : s.Renamed ρ s') (hf : Lambda.RenamedBy ρ f f') :
    SameOutcome (s.predicate f) (s'.predicate f') := (h.expression hf).bind fun _ _ => .refl _

theorem Renamed.selection (h : s.Renamed ρ s') (hf : Lambda.RenamedBy ρ f f') :
    SameOutcome (s.selection f) (s'.selection f') := h.shape hf.body 0

end Scope

end EntityQuery
