import EntityQuery.Proofs.Evaluation

/-! # Reading rows back

The recipe of a shape has its form, and each cell that it reads holds a scalar of the shape. Without
collections it builds from a row the JSON of the datum that the shape is in that row. -/

namespace EntityQuery
set_option autoImplicit false

/-! ## Recipes of shapes -/

namespace Activator

mutual

/-- The recipe is of the shape's form, with cells that hold the scalars. -/
def Reads (P : Nat → Sql.Expr → Prop) : Activator → Shape → Prop
  | .cell i, .scalar e => P i e
  | .object _ ids as, .object o => ids = Shape.identityCells o.key as ∧ ReadsMembers P as o.members
  | .collection a, .collection s _ _ => Reads P a s
  | _, _ => False

/-- The same names in the same order, with recipes of the shapes. -/
def ReadsMembers (P : Nat → Sql.Expr → Prop) : List (String × Activator) → List (String × Shape) → Prop
  | [], [] => True
  | (n, a) :: as, (n', s) :: ms => n = n' ∧ Reads P a s ∧ ReadsMembers P as ms
  | _, _ => False

end

variable {P Q : Nat → Sql.Expr → Prop}

mutual

theorem Reads.mono (h : ∀ i e, P i e → Q i e) : ∀ (a : Activator) (s : Shape), a.Reads P s → a.Reads Q s
  | .cell i, .scalar e, hr => h i e hr
  | .object _ _ as, .object o, hr => ⟨hr.1, ReadsMembers.mono h as o.members hr.2⟩
  | .collection a, .collection s _ _, hr => Reads.mono h a s hr

theorem ReadsMembers.mono (h : ∀ i e, P i e → Q i e) : ∀ (as : List (String × Activator))
    (ms : List (String × Shape)), ReadsMembers P as ms → ReadsMembers Q as ms
  | [], [], _ => trivial
  | (_, a) :: as, (_, s) :: ms, hr => ⟨hr.1, Reads.mono h a s hr.2.1, ReadsMembers.mono h as ms hr.2.2⟩

end

theorem ReadsMembers.lookup {as : List (String × Activator)} {ms : List (String × Shape)}
    (h : ReadsMembers P as ms) (k : String) :
    (as.lookup k = none ∧ ms.lookup k = none) ∨
      ∃ a s, as.lookup k = some a ∧ ms.lookup k = some s ∧ a.Reads P s := by
  induction as generalizing ms with
  | nil =>
    cases ms with
    | nil => exact .inl ⟨rfl, rfl⟩
    | cons m ms => exact h.elim
  | cons a as ih =>
    cases ms with
    | nil => exact h.elim
    | cons m ms =>
      obtain ⟨hn, ha, hrest⟩ := h
      rw [List.lookup_cons, List.lookup_cons, hn]
      cases k == m.1 with
      | false => exact ih hrest
      | true => exact .inr ⟨a.2, m.2, rfl, rfl, ha⟩

end Activator

theorem Row.isAbsent_eq (row : Row) (cells : List Nat) :
    row.isAbsent cells = (!(cells.map row.cell).isEmpty && (cells.map row.cell).all isNull) := by
  rw [Row.isAbsent, List.isEmpty_map, List.all_map]
  rfl

namespace Shape

variable {columns : List Sql.Projected} (base : String)

theorem activator_widens (s : Shape) (hint : Option String) (st : Sql.Statement) :
    st.Widens (activator base s hint st).2 := by
  rw [activator_snd base "" s hint st]
  exact rebind_widens base "" s hint st

theorem memberActivators_widens (ms : List (String × Shape)) (st : Sql.Statement) :
    st.Widens (memberActivators base ms st).2 := by
  rw [memberActivators_snd base "" ms st]
  exact rebindMembers_widens base "" ms st

mutual

theorem activator_hasCollection : ∀ (s : Shape) (hint : Option String) (st : Sql.Statement),
    (activator base s hint st).1.hasCollection = s.hasCollection
  | .scalar _, _, _ => rfl
  | .object ⟨_, _, ms, _, _⟩, _, st => memberActivators_anyCollection ms st
  | .collection .., _, _ => rfl

theorem memberActivators_anyCollection : ∀ (ms : List (String × Shape)) (st : Sql.Statement),
    Activator.anyCollection (memberActivators base ms st).1 = anyCollection ms
  | [], _ => rfl
  | (n, s) :: ms, st => by
    simp only [memberActivators, Activator.anyCollection, anyCollection]
    rw [activator_hasCollection s, memberActivators_anyCollection ms]

end

mutual

theorem activator_reads : ∀ (s : Shape) (hint : Option String) (st : Sql.Statement),
    (activator base s hint st).2.columns <+: columns → (activator base s hint st).1.Reads
      (fun i e => ∃ c, columns[i]? = some c ∧ (c.expr == e) = true) s
  | .scalar e, hint, st, ⟨rest, hrest⟩ => by
    obtain ⟨c, hc, he⟩ := st.project_get e hint base
    refine ⟨c, ?_, he⟩
    rw [← hrest]
    exact (List.getElem?_append_left (List.getElem?_eq_some_iff.mp hc).1).trans hc
  | .object ⟨_, _, ms, _, _⟩, _, st, hp => ⟨rfl, memberActivators_reads ms st hp⟩
  | .collection s _ _, _, st, hp => activator_reads s none st hp

theorem memberActivators_reads : ∀ (ms : List (String × Shape)) (st : Sql.Statement),
    (memberActivators base ms st).2.columns <+: columns →
      Activator.ReadsMembers (fun i e => ∃ c, columns[i]? = some c ∧ (c.expr == e) = true)
        (memberActivators base ms st).1 ms
  | [], _, _ => trivial
  | (n, s) :: ms, st, hp =>
    have hw := memberActivators_widens base ms (activator base s (some n) st).2
    ⟨rfl, activator_reads s (some n) st (hw.columns.trans hp), memberActivators_reads ms _ hp⟩

end

end Shape

/-! ## One row -/

theorem Row.cell_map {v : Sql.Expr → Json} (hv : ∀ a b : Sql.Expr, (a == b) = true → v a = v b)
    {columns : List Sql.Projected} {i : Nat} {e : Sql.Expr}
    (h : ∃ c, columns[i]? = some c ∧ (c.expr == e) = true) :
    Row.cell (columns.map fun c => v c.expr) i = v e := by
  obtain ⟨c, hc, he⟩ := h
  rw [Row.cell, List.getD_eq_getElem?_getD, List.getElem?_map, hc, ← hv _ _ he]
  rfl

namespace Activator

variable {v : Sql.Expr → Json} {row : Row}

theorem ReadsMembers.identity {as : List (String × Activator)} {ms : List (String × Shape)}
    (h : ReadsMembers (fun i e => row.cell i = v e) as ms) (hc : Shape.anyCollection ms = false)
    (key : List String) :
    (Shape.identityCells key as).map row.cell = Datum.identity key (Shape.memberData v ms) := by
  unfold Shape.identityCells Datum.identity
  rw [List.map_filterMap]
  refine List.filterMap_congr fun k _ => ?_
  rw [Shape.memberData_eq, Entries.lookup_map]
  rcases h.lookup k with ⟨ha, hs⟩ | ⟨a, s, ha, hs, hr⟩
  · rw [ha, hs]
    rfl
  · rw [ha, hs]
    have hcoll := Scope.hasCollection_of_lookup hs hc
    cases a <;> cases s <;> first
      | exact congrArg some hr
      | rfl
      | exact hr.elim
      | cases hcoll

mutual

/-- Without collections the recipe builds the JSON of the datum. -/
theorem Reads.build : ∀ (a : Activator) (s : Shape), a.Reads (fun i e => row.cell i = v e) s →
    s.hasCollection = false → a.build row = (s.datum v).json
  | .cell i, .scalar e, h, _ => h
  | .object _ ids as, .object ⟨_, key, ms, _, _⟩, ⟨hids, h⟩, hc => by
    rw [Activator.build, Shape.datum, Datum.json, Row.isAbsent_eq, hids, h.identity hc key,
      ReadsMembers.build as ms h hc]
  | .collection _, .collection .., _, hc => by cases hc

theorem ReadsMembers.build : ∀ (as : List (String × Activator)) (ms : List (String × Shape)),
    ReadsMembers (fun i e => row.cell i = v e) as ms → Shape.anyCollection ms = false →
      buildMembers row as = Datum.fields (Shape.memberData v ms)
  | [], [], _, _ => rfl
  | (_, a) :: as, (_, s) :: ms, ⟨hn, h, hs⟩, hc => by
    rw [Shape.anyCollection, Bool.or_eq_false_iff] at hc
    rw [buildMembers, Shape.memberData, Datum.fields, hn, Reads.build a s h hc.1,
      ReadsMembers.build as ms hs hc.2]

end

end Activator

end EntityQuery
