import EntityQuery.Proofs.Acceptance
import EntityQuery.Proofs.Reachable

/-! # Wider scopes and deeper limits

A term that denotes an expression in a scope denotes the same one in every scope where its members
stand for the same scalars, its columns are still visible and the limit of nesting is no lower. So the
limit alone never changes what a term denotes; it only shuts out the terms that need more levels than
it allows, and these are told by their form. -/

namespace EntityQuery
set_option autoImplicit false

namespace Scope

variable {s s' : Scope} {t : Term} {depth limit : Nat}

/-! ## Wider scopes -/

/-- Whatever can be read in the first scope can be read in the second. -/
structure Within (s s' : Scope) : Prop where
  members : ∀ t e, s.bindings.shape? t = some (.scalar e) → s'.bindings.shape? t = some (.scalar e)
  visible : ∀ label, s.aliases.isVisible label = true → s'.aliases.isVisible label = true
  limit : s.depthLimit ≤ s'.depthLimit

theorem Within.of_limit (h : s.depthLimit ≤ limit) : s.Within { s with depthLimit := limit } :=
  ⟨fun _ _ ht => ht, fun _ hl => hl, h⟩

theorem Within.enter (h : s.Within s') {inner : Nat} (hs : s.enter depth = .ok inner) :
    s'.enter depth = .ok inner := by
  obtain ⟨hdepth, rfl⟩ := enter_eq_ok.mp hs
  exact enter_eq_ok.mpr ⟨hdepth.trans_le h.limit, rfl⟩

theorem Within.scalarMember (h : s.Within s') {e : Sql.Expr} (hs : s.scalarMember t depth = .ok e) :
    s'.scalarMember t depth = .ok e := by
  obtain ⟨hlevels, hshape, hover⟩ := scalarMember_eq_ok.mp hs
  refine scalarMember_eq_ok.mpr ⟨hlevels.trans h.limit, h.members t e hshape, ?_⟩
  intro c hc
  exact h.visible c.table (hover c hc)

mutual

theorem Within.scalar (h : s.Within s') : ∀ (t : Term) {depth : Nat} {e : Sql.Expr},
    s.scalar t depth = .ok e → s'.scalar t depth = .ok e
  | .param p, depth, e, hs => by
    simp only [Scope.scalar, bind_eq_ok] at hs ⊢
    obtain ⟨inner, hinner, hs⟩ := hs
    exact ⟨inner, h.enter hinner, h.scalarMember hs⟩
  | .member t name, depth, e, hs => by
    simp only [Scope.scalar, bind_eq_ok] at hs ⊢
    obtain ⟨inner, hinner, hs⟩ := hs
    exact ⟨inner, h.enter hinner, h.scalarMember hs⟩
  | .const v, depth, e, hs => by
    simp only [Scope.scalar, bind_eq_ok] at hs ⊢
    obtain ⟨inner, hinner, hs⟩ := hs
    exact ⟨inner, h.enter hinner, hs⟩
  | .binary op l r, depth, e, hs => by
    simp only [Scope.scalar, bind_eq_ok] at hs ⊢
    obtain ⟨inner, hinner, a, ha, b, hb, hs⟩ := hs
    exact ⟨inner, h.enter hinner, a, h.scalar l ha, b, h.scalar r hb, hs⟩
  | .not t, depth, e, hs => by
    simp only [Scope.scalar, bind_eq_ok] at hs ⊢
    obtain ⟨inner, hinner, a, ha, hs⟩ := hs
    exact ⟨inner, h.enter hinner, a, h.scalar t ha, hs⟩
  | .negate t, depth, e, hs => by
    simp only [Scope.scalar, bind_eq_ok] at hs ⊢
    obtain ⟨inner, hinner, a, ha, hs⟩ := hs
    exact ⟨inner, h.enter hinner, a, h.scalar t ha, hs⟩
  | .call f as, depth, e, hs => by
    simp only [Scope.scalar, bind_eq_ok] at hs ⊢
    obtain ⟨inner, hinner, es, hes, hs⟩ := hs
    exact ⟨inner, h.enter hinner, es, h.scalars as hes, hs⟩
  | .isIn t is, depth, e, hs => by
    simp only [Scope.scalar, bind_eq_ok] at hs ⊢
    obtain ⟨inner, hinner, a, ha, es, hes, hs⟩ := hs
    exact ⟨inner, h.enter hinner, a, h.scalar t ha, es, h.scalars is hes, hs⟩
  | .aggregate f none distinct, depth, e, hs => by
    simp only [Scope.scalar, bind_eq_ok] at hs ⊢
    obtain ⟨inner, hinner, hs⟩ := hs
    exact ⟨inner, h.enter hinner, hs⟩
  | .aggregate f (some t) distinct, depth, e, hs => by
    simp only [Scope.scalar, bind_eq_ok] at hs ⊢
    obtain ⟨inner, hinner, a, ha, hs⟩ := hs
    exact ⟨inner, h.enter hinner, a, h.scalar t ha, hs⟩
  | .record _, depth, e, hs => by
    simp only [Scope.scalar, bind_eq_ok, reduceCtorEq, and_false, exists_false] at hs

theorem Within.scalars (h : s.Within s') : ∀ (ts : List Term) {depth : Nat} {es : List Sql.Expr},
    s.scalars ts depth = .ok es → s'.scalars ts depth = .ok es
  | [], depth, es, hs => hs
  | t :: ts, depth, es, hs => by
    simp only [Scope.scalars, bind_eq_ok] at hs ⊢
    obtain ⟨a, ha, as, has, hs⟩ := hs
    exact ⟨a, h.scalar t ha, as, h.scalars ts has, hs⟩

end

theorem Within.expression (h : s.Within s') {f : Lambda} {e : Sql.Expr} (hs : s.expression f = .ok e) :
    s'.expression f = .ok e :=
  h.scalar f.body hs

end Scope

/-! ## Limits -/

/-- If the outcome is an error about nesting, it names the limit, and the limit is below `levels`. -/
def Reports {α : Type} (limit levels : Nat) (x : Except CompileError α) : Prop :=
  ∀ named, x = .error (.tooDeep named) → limit < levels ∧ named = limit

namespace Reports

variable {α β : Type} {limit levels : Nat}

theorem ok (a : α) : Reports limit levels (.ok a : Except CompileError α) := by
  intro named h
  cases h

theorem mono {x : Except CompileError α} {more : Nat} (h : Reports limit levels x) (hle : levels ≤ more) :
    Reports limit more x := by
  intro named hx
  obtain ⟨hlimit, hnamed⟩ := h named hx
  exact ⟨hlimit.trans_le hle, hnamed⟩

theorem bind {x : Except CompileError α} {k : α → Except CompileError β} (h : Reports limit levels x)
    (hk : ∀ a, Reports limit levels (k a)) : Reports limit levels (x >>= k) := by
  cases x with
  | error e =>
    intro named hx
    cases hx
    exact h named rfl
  | ok a => exact hk a

theorem operation (op : BinaryOp) (l r : Sql.Expr) : Reports limit levels (Sql.Expr.operation op l r) := by
  intro named h
  cases op with
  | compare op =>
    unfold Sql.Expr.operation Sql.Expr.comparison at h
    cases hl : l.isNullConstant <;> cases hr : r.isNullConstant <;> cases op <;>
      simp [hl, hr, Sql.Expr.nullTest] at h
  | and | or | arithmetic => cases h

end Reports

namespace Scope

variable {s : Scope} {depth : Nat}

theorem reports_enter {α : Type} {levels : Nat} {k : Nat → Except CompileError α}
    (h : Reports s.depthLimit (depth + 1 + levels) (k (depth + 1))) :
    Reports s.depthLimit (depth + (levels + 1)) (s.enter depth >>= k) := by
  intro named hx
  unfold enter at hx
  by_cases hdepth : s.depthLimit ≤ depth
  · rw [if_pos hdepth] at hx
    cases hx
    exact ⟨by omega, rfl⟩
  · rw [if_neg hdepth] at hx
    obtain ⟨hlimit, hnamed⟩ := h named hx
    exact ⟨by omega, hnamed⟩

theorem reports_lookup (p : Param) (levels : Nat) : Reports s.depthLimit levels (s.lookup p) := by
  intro named h
  unfold lookup at h
  split at h <;> cases h

theorem reports_memberOf (shape : Shape) (name : String) (levels : Nat) :
    Reports s.depthLimit levels (memberOf shape name) := by
  intro named h
  unfold memberOf at h
  split at h <;> cases h

theorem reports_resolve : ∀ (t : Term) (depth : Nat),
    Reports s.depthLimit (depth + t.links) (s.resolve t depth)
  | .param p, depth => reports_enter ((reports_lookup p _).bind fun _ => .ok _)
  | .member t name, depth => by
    refine reports_enter ((reports_resolve t (depth + 1)).bind fun o => ?_)
    cases o with
    | none => exact .ok _
    | some shape => exact (reports_memberOf shape name _).bind fun _ => .ok _
  | .const _, depth | .binary .., depth | .not _, depth | .negate _, depth | .call .., depth
  | .isIn .., depth | .aggregate .., depth | .record _, depth => reports_enter (.ok _)

theorem reports_scalarMember (t : Term) (depth : Nat) :
    Reports s.depthLimit (depth + t.links) (s.scalarMember t depth) := by
  refine (reports_resolve t depth).bind ?_
  intro o named h
  split at h
  · unfold checkColumns at h
    split at h <;> cases h
  · cases h
  · cases h

mutual

theorem reports_scalar : ∀ (t : Term) (depth : Nat),
    Reports s.depthLimit (depth + t.levels) (s.scalar t depth)
  | .param p, depth => reports_enter (reports_scalarMember (.param p) (depth + 1))
  | .member t name, depth => reports_enter (reports_scalarMember (.member t name) (depth + 1))
  | .const v, depth => reports_enter (.ok _)
  | .binary op l r, depth => by
    have hl := reports_scalar l (depth + 1)
    have hr := reports_scalar r (depth + 1)
    rw [Term.levels, scalar]
    refine reports_enter ((hl.mono (by omega)).bind fun a => ?_)
    refine (hr.mono (by omega)).bind fun b => ?_
    exact .operation op a b
  | .not t, depth => reports_enter ((reports_scalar t (depth + 1)).bind fun _ => .ok _)
  | .negate t, depth => reports_enter ((reports_scalar t (depth + 1)).bind fun _ => .ok _)
  | .call f as, depth => reports_enter ((reports_scalars as (depth + 1)).bind fun _ => .ok _)
  | .isIn t is, depth => by
    have ht := reports_scalar t (depth + 1)
    have his := reports_scalars is (depth + 1)
    rw [Term.levels, scalar]
    refine reports_enter ((ht.mono (by omega)).bind fun a => ?_)
    exact (his.mono (by omega)).bind fun _ => .ok _
  | .aggregate f none distinct, depth => by
    refine reports_enter ?_
    cases f.allowsNoArgument with
    | true => exact .ok _
    | false =>
      intro named h
      cases h
  | .aggregate f (some t) distinct, depth =>
    reports_enter ((reports_scalar t (depth + 1)).bind fun _ => .ok _)
  | .record _, depth => by
    refine reports_enter ?_
    intro named h
    cases h

theorem reports_scalars : ∀ (ts : List Term) (depth : Nat),
    Reports s.depthLimit (depth + Term.levelsAll ts) (s.scalars ts depth)
  | [], depth => .ok _
  | t :: ts, depth => by
    have ht := reports_scalar t depth
    have hts := reports_scalars ts depth
    rw [Term.levelsAll, scalars]
    refine (ht.mono (by omega)).bind fun _ => ?_
    exact (hts.mono (by omega)).bind fun _ => .ok _

end

/-- **The limit of nesting is exact and does no harm.** Lambdas that take more levels than it allows
denote nothing; only for these is it given as the reason, and what a lambda denotes under one limit it
denotes under every higher one. -/
theorem expression_depthLimit (s : Scope) (f : Lambda) :
    (∀ e, s.expression f = .ok e → f.body.levels ≤ s.depthLimit) ∧
    (∀ limit, s.expression f = .error (.tooDeep limit) →
      s.depthLimit < f.body.levels ∧ limit = s.depthLimit) ∧
    ∀ e limit, s.expression f = .ok e → s.depthLimit ≤ limit →
      { s with depthLimit := limit }.expression f = .ok e := by
  refine ⟨?_, ?_, ?_⟩
  · intro e h
    have hlevels := ((scalar_eq_ok f.body 0).mp ⟨e, h⟩).1
    rwa [Nat.zero_add] at hlevels
  · intro limit h
    have hlevels := reports_scalar f.body 0 limit h
    rwa [Nat.zero_add] at hlevels
  · intro e limit h hle
    exact (Within.of_limit hle).expression h

end Scope

namespace Sample

/-- Whether someone does not live in Faro, read of users with their city. -/
def livesElsewhere : Lambda :=
  ⟨[x], .not (.binary (.compare .eq) (.member (.member (.param x) "city") "name")
    (.const (.string "Faro")))⟩

/-- The scope of users with their city. -/
def withCity (depthLimit : Nat) : Scope where
  bindings := ⟨[(x, .object ((ObjectOf.ofEntity user "users").withMember "city"
    (.object (.ofEntity city "cities"))))]⟩
  aliases := ⟨["users", "cities"], ["users", "cities"]⟩
  depthLimit := depthLimit

end Sample

namespace Scope

/-- A negation, a comparison and a chain of two members take six levels: five are not enough, and more
than six change nothing. -/
theorem expression_depthLimit_elsewhere : ∃ e,
    (Sample.withCity 6).expression Sample.livesElsewhere = .ok e ∧
    e.text = "NOT (cities.name = 'Faro')" ∧
    (Sample.withCity 5).expression Sample.livesElsewhere = .error (.tooDeep 5) ∧
    Sample.livesElsewhere.body.levels = 6 ∧
    ∀ limit, 6 ≤ limit → (Sample.withCity limit).expression Sample.livesElsewhere = .ok e := by
  have h : (Sample.withCity 6).expression Sample.livesElsewhere =
      .ok (.not (.compare .eq (.column ⟨"cities", "name"⟩) (.literal (.string "Faro")))) := rfl
  have hshort : (Sample.withCity 5).expression Sample.livesElsewhere = .error (.tooDeep 5) := rfl
  obtain ⟨henough, -, hmore⟩ := expression_depthLimit (Sample.withCity 6) Sample.livesElsewhere
  obtain ⟨-, hdeep, -⟩ := expression_depthLimit (Sample.withCity 5) Sample.livesElsewhere
  refine ⟨_, h, by decide +kernel, hshort, ?_, fun limit hlimit => hmore _ limit h hlimit⟩
  exact Nat.le_antisymm (henough _ h) (hdeep 5 hshort).1

end Scope

end EntityQuery
