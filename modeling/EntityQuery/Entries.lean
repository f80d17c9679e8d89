/-! # Entries in order of first arrival

A table is a list of key-value pairs. Writing to a key that is present keeps its place; a new key
goes to the end. Reading is `List.lookup`. -/

namespace EntityQuery.Entries
set_option autoImplicit false

variable {κ β : Type} [BEq κ]

/-- Writes `v` under `k`. -/
def put (k : κ) (v : β) : List (κ × β) → List (κ × β)
  | [] => [(k, v)]
  | (k', v') :: es => if k == k' then (k', v) :: es else (k', v') :: put k v es

def has (k : κ) (es : List (κ × β)) : Bool := (es.lookup k).isSome

/-- The entries written one after the other, starting from none. -/
def ofList (es : List (κ × β)) : List (κ × β) :=
  es.foldl (fun t e => put e.1 e.2 t) []

/-! ## Laws -/

theorem lookup_put_self [ReflBEq κ] (k : κ) (v : β) (es : List (κ × β)) :
    (put k v es).lookup k = some v := by
  induction es with
  | nil => simp [put]
  | cons e es ih =>
    by_cases h : k == e.1
    · rw [put, if_pos h, List.lookup_cons, h]
    · rw [put, if_neg h, List.lookup_cons, Bool.of_not_eq_true h, ih]

theorem lookup_put_of_ne [PartialEquivBEq κ] {j k : κ} (h : (j == k) = false) (v : β)
    (es : List (κ × β)) : (put k v es).lookup j = es.lookup j := by
  induction es with
  | nil => simp [put, List.lookup_cons, h]
  | cons e es ih =>
    by_cases hk : k == e.1
    · have hj : (j == e.1) = false := by
        cases hj : j == e.1 with
        | false => rfl
        | true => rw [PartialEquivBEq.trans hj (PartialEquivBEq.symm hk)] at h; exact h
      rw [List.lookup_cons, hj, put, if_pos hk, List.lookup_cons, hj]
    · rw [put, if_neg hk, List.lookup_cons, List.lookup_cons, ih]

theorem map_fst_put_of_has {k : κ} {es : List (κ × β)} (h : has k es = true) (v : β) :
    (put k v es).map (·.1) = es.map (·.1) := by
  induction es with
  | nil => simp [has] at h
  | cons e es ih =>
    by_cases hk : k == e.1
    · simp [put, hk]
    · have hes : has k es = true := by
        rwa [has, List.lookup_cons, Bool.of_not_eq_true hk] at h
      simp [put, hk, ih hes]

theorem put_of_not_has {k : κ} {es : List (κ × β)} (h : has k es = false) (v : β) :
    put k v es = es ++ [(k, v)] := by
  induction es with
  | nil => rfl
  | cons e es ih =>
    have hk : (k == e.1) = false := by
      cases hk : k == e.1 with
      | false => rfl
      | true =>
        rw [has, List.lookup_cons, hk] at h
        cases h
    have hes : has k es = false := by rwa [has, List.lookup_cons, hk] at h
    simp [put, hk, ih hes]

theorem put_of_lookup {k : κ} {v : β} {es : List (κ × β)} (h : es.lookup k = some v) :
    put k v es = es := by
  induction es with
  | nil => cases h
  | cons e es ih =>
    by_cases hk : k == e.1
    · rw [List.lookup_cons, hk] at h
      cases h
      rw [put, if_pos hk]
    · rw [List.lookup_cons, Bool.of_not_eq_true hk] at h
      rw [put, if_neg hk, ih h]

theorem put_put [ReflBEq κ] (k : κ) (v w : β) (es : List (κ × β)) :
    put k w (put k v es) = put k w es := by
  induction es with
  | nil => simp [put]
  | cons e es ih =>
    by_cases hk : k == e.1
    · simp [put, hk]
    · simp [put, hk, ih]

theorem mem_of_lookup [LawfulBEq κ] {k : κ} {v : β} {es : List (κ × β)} (h : es.lookup k = some v) :
    (k, v) ∈ es := by
  obtain ⟨before, after, rfl, -⟩ := List.lookup_eq_some_iff.mp h
  exact List.mem_append_right before (List.mem_cons_self ..)

theorem lookup_of_mem [LawfulBEq κ] {es : List (κ × β)} (h : (es.map (·.1)).Nodup) {e : κ × β}
    (he : e ∈ es) : es.lookup e.1 = some e.2 := by
  induction es with
  | nil => cases he
  | cons e' es ih =>
    obtain ⟨hnew, hrest⟩ := List.nodup_cons.mp h
    rw [List.lookup_cons]
    rcases List.mem_cons.mp he with rfl | he
    · rw [beq_self_eq_true]
    · have hne : (e.1 == e'.1) = false :=
        beq_eq_false_iff_ne.mpr fun heq => hnew (List.mem_map.mpr ⟨e, he, heq⟩)
      rw [hne]
      exact ih hrest he

end EntityQuery.Entries
