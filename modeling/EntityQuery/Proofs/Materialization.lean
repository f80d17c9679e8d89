import EntityQuery.Proofs.Provenance
import EntityQuery.Proofs.Wrapping

/-! # What a finished query selects, and how it is read

Finishing a query selects the scalars of its result one after the other, and numbers are given out on
the way. What comes of it depends on the result alone: the columns are its distinct scalars in order
of first appearance, and the recipe reads every scalar, and every key that is one, from its position
among them. -/

namespace EntityQuery
set_option autoImplicit false

/-! ## Positions -/

theorem Sql.idxOf_of_get {es : List Sql.Expr} (h : es.Pairwise fun a b => (a == b) = false) {i : Nat}
    {x e : Sql.Expr} (hi : es[i]? = some x) (hx : (x == e) = true) : es.idxOf e = i := by
  obtain ⟨hlt, hget⟩ := List.getElem?_eq_some_iff.mp hi
  have hfirst : ∀ (j : Nat) (hj : j < i), (es[j] == e) = false := by
    intro j hj
    have hne := List.pairwise_iff_getElem.mp h j i (by omega) hlt hj
    cases he : es[j] == e with
    | false => rfl
    | true =>
      rw [hget, BEq.trans he (BEq.symm hx)] at hne
      cases hne
  exact (List.findIdx_eq hlt).mpr ⟨by rw [hget]; exact hx, hfirst⟩

namespace Shape

/-- The positions of the members that a key names and that are scalars, in order of the key. -/
def keyPositions (es : List Sql.Expr) (key : List String) (members : List (String × Shape)) : List Nat :=
  (key.filterMap fun k => (members.lookup k).bind scalar?).map es.idxOf

mutual

/-- The recipe that reads each scalar from its position among the expressions. -/
def recipe (es : List Sql.Expr) : Shape → Activator
  | .scalar e => .cell (es.idxOf e)
  | .object ⟨entity, key, members, _, _⟩ =>
    .object entity (keyPositions es key members) (memberRecipes es members)
  | .collection element _ _ => .collection (recipe es element)

def memberRecipes (es : List Sql.Expr) : List (String × Shape) → List (String × Activator)
  | [] => []
  | (n, s) :: ms => (n, recipe es s) :: memberRecipes es ms

end

theorem memberRecipes_eq (es : List Sql.Expr) (ms : List (String × Shape)) :
    memberRecipes es ms = ms.map fun m => (m.1, recipe es m.2) := by
  induction ms with
  | nil => rfl
  | cons m ms ih => rw [memberRecipes, ih, List.map_cons]

theorem identityCells_memberRecipes (es : List Sql.Expr) (key : List String)
    (ms : List (String × Shape)) :
    identityCells key (memberRecipes es ms) = keyPositions es key ms := by
  unfold identityCells keyPositions
  rw [List.map_filterMap, memberRecipes_eq]
  refine List.filterMap_congr fun k _ => ?_
  rw [Entries.lookup_map]
  cases ms.lookup k with
  | none => rfl
  | some s => cases s <;> rfl

section
variable {columns : List Sql.Projected} (base : String)

mutual

/-- The numbers that are given out on the way are positions among all columns. -/
theorem activator_eq_recipe (hd : (columns.map (·.expr)).Pairwise fun a b => (a == b) = false) :
    ∀ (s : Shape) (hint : Option String) (st : Sql.Statement),
      (activator base s hint st).2.columns <+: columns →
        (activator base s hint st).1 = s.recipe (columns.map (·.expr))
  | .scalar e, hint, st, hp => by
    obtain ⟨c, hc, he⟩ := activator_reads base (.scalar e) hint st hp
    have hget : (columns.map (·.expr))[(st.project e hint base).2]? = some c.expr := by
      rw [List.getElem?_map]
      exact congrArg (Option.map (·.expr)) hc
    exact congrArg Activator.cell (Sql.idxOf_of_get hd hget he).symm
  | .object ⟨entity, key, ms, _, _⟩, _, st, hp => by
    have hms := memberActivators_eq_recipes hd ms st hp
    simp only [activator, recipe]
    rw [hms, identityCells_memberRecipes]
  | .collection s _ _, _, st, hp => congrArg Activator.collection (activator_eq_recipe hd s none st hp)

theorem memberActivators_eq_recipes (hd : (columns.map (·.expr)).Pairwise fun a b => (a == b) = false) :
    ∀ (ms : List (String × Shape)) (st : Sql.Statement),
      (memberActivators base ms st).2.columns <+: columns →
        (memberActivators base ms st).1 = memberRecipes (columns.map (·.expr)) ms
  | [], _, _ => rfl
  | (n, s) :: ms, st, hp => by
    have hw := memberActivators_widens base ms (activator base s (some n) st).2
    have hs := activator_eq_recipe hd s (some n) st (hw.columns.trans hp)
    have hms := memberActivators_eq_recipes hd ms _ hp
    simp only [memberActivators, memberRecipes]
    rw [hs, hms]

end

end

end Shape

/-! ## Finished queries -/

namespace Mapping

theorem distinct_exprs (env : Env) (q : Query) :
    ((ofQuery env q).statement.columns.map (·.expr)).Pairwise fun a b => (a == b) = false :=
  List.pairwise_map.mpr (Query.gives_ofQuery q env).distinguished.exprs

theorem activator_ofQuery (env : Env) (q : Query) : (ofQuery env q).activator =
    q.draft.result.recipe ((ofQuery env q).statement.columns.map (·.expr)) :=
  Shape.activator_eq_recipe _ (distinct_exprs env q) q.draft.result none q.statement
    (List.prefix_refl _)

theorem column_of_scalar (env : Env) (q : Query) {e : Sql.Expr} (he : e ∈ q.draft.result.scalars) :
    ∃ c, (ofQuery env q).statement.columns[
        ((ofQuery env q).statement.columns.map (·.expr)).idxOf e]? = some c ∧
      (c.expr == e) = true := by
  have hselects : (ofQuery env q).statement.columns.map (·.expr) =
      q.draft.result.scalars.eraseDups := Query.selects_ofQuery
  have hany : q.draft.result.scalars.eraseDups.any (· == e) = true := by
    rw [Query.any_eraseDups]
    exact List.any_eq_true.mpr ⟨e, he, BEq.rfl⟩
  rw [← hselects, List.any_map, List.any_eq_true] at hany
  obtain ⟨c, hc, heq⟩ := hany
  obtain ⟨i, hi⟩ := List.mem_iff_getElem?.mp hc
  have hget : ((ofQuery env q).statement.columns.map (·.expr))[i]? = some c.expr := by
    rw [List.getElem?_map, hi]
    rfl
  rw [Sql.idxOf_of_get (distinct_exprs env q) hget heq]
  exact ⟨c, hi, heq⟩

/-- **Materialization is exact.** A finished query keeps the clauses of its statement. Its columns are
the distinct scalars of the result, those inside collections included, in order of first appearance.
The recipe is the result itself with each scalar replaced by its position among the columns, where
an equal expression is selected, and with the positions of the scalars among the key members for the
identity of each object. -/
theorem ofQuery_exact (env : Env) (q : Query) :
    ∃ columns, (ofQuery env q).statement = { q.statement with columns } ∧
      columns.map (·.expr) = q.draft.result.scalars.eraseDups ∧
      (ofQuery env q).activator = q.draft.result.recipe (columns.map (·.expr)) ∧
      ∀ e ∈ q.draft.result.scalars, ∃ c,
        columns[(columns.map (·.expr)).idxOf e]? = some c ∧ (c.expr == e) = true :=
  ⟨_, Query.widens_ofQuery.clauses, Query.selects_ofQuery, activator_ofQuery env q,
    fun _ he => column_of_scalar env q he⟩

end Mapping

end EntityQuery
