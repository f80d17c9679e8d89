import Mathlib.Data.Fintype.Card
import EntityQuery.Scope
import EntityQuery.Sql.Statement

/-! # Fresh names are free

No two candidates for a base are equal, not even up to the case of letters, so one taken name can
rule out one candidate only. Among one more candidate than there are taken names one is free, and
the search ends at the first that is. -/

namespace EntityQuery.Name
set_option autoImplicit false

/-! ## Candidates differ -/

theorem toLower_of_isDigit {c : Char} (h : c.isDigit = true) : c.toLower = c := by
  have h' : c.val ≤ 57 := by
    simp only [Char.isDigit, Bool.and_eq_true, decide_eq_true_eq] at h
    exact h.2
  unfold Char.toLower
  rw [dif_neg]
  intro hc
  have : (65 : UInt32) ≤ 57 := UInt32.le_trans hc.1 h'
  exact absurd this (by decide)

theorem toList_toLower (s : String) : s.toLower.toList = s.toList.map Char.toLower := String.toList_map

theorem toLower_repr (n : Nat) : (Nat.repr n).toLower = Nat.repr n := by
  apply String.toList_inj.mp
  rw [toList_toLower, Nat.toList_repr]
  conv => rhs; rw [← List.map_id (Nat.toDigits 10 n)]
  apply List.map_congr_left
  intro c hc
  exact toLower_of_isDigit (Nat.isDigit_of_mem_toDigits (by decide) (by decide) hc)

theorem toLower_append (a b : String) : (a ++ b).toLower = a.toLower ++ b.toLower := by
  apply String.toList_inj.mp
  simp [toList_toLower]

/-- Up to case, the candidates for a base are those for its lower-case form. -/
theorem toLower_candidate (base : String) (k : Nat) :
    (candidate base k).toLower = candidate base.toLower k := by
  cases k with
  | zero => rfl
  | succ k =>
    have e : (toString (k + 1)).toLower = toString (k + 1) := toLower_repr (k + 1)
    rw [candidate, candidate, toLower_append, e]

theorem candidate_injective (base : String) : Function.Injective (candidate base) := by
  have hne (k : Nat) : candidate base (k + 1) ≠ candidate base 0 := by
    intro h
    have h' : base ++ toString (k + 1) = base ++ "" := by rw [String.append_empty]; exact h
    exact absurd ((String.append_right_inj base).mp h') Nat.repr_ne_empty
  intro j k h
  match j, k with
  | 0, 0 => rfl
  | 0, k + 1 => exact absurd h.symm (hne k)
  | j + 1, 0 => exact absurd h (hne j)
  | j + 1, k + 1 =>
    have h' : (toString (j + 1)).toList = (toString (k + 1)).toList :=
      congrArg String.toList ((String.append_right_inj base).mp h)
    have e (n : Nat) : Nat.ofDigitChars 10 (toString n).toList 0 = n := by
      rw [show toString n = Nat.repr n from rfl, Nat.toList_repr, Nat.ofDigitChars_ten_toDigits]
    rw [← e (j + 1), ← e (k + 1), h']

/-- One name clashes with one candidate at most. -/
def Separates (clashes : String → String → Bool) (base : String) : Prop :=
  ∀ t i j, clashes (candidate base i) t = true → clashes (candidate base j) t = true → i = j

theorem separates_exactly (base : String) : Separates exactly base := by
  intro t i j hi hj
  rw [exactly, beq_iff_eq] at hi hj
  exact candidate_injective base (hi.trans hj.symm)

theorem separates_ignoringCase (base : String) : Separates ignoringCase base := by
  intro t i j hi hj
  rw [ignoringCase, beq_iff_eq, toLower_candidate] at hi hj
  exact candidate_injective base.toLower (hi.trans hj.symm)

/-! ## The search -/

theorem firstFree_eq {isTaken : String → Bool} {base : String} {j k tries : Nat}
    (hbefore : ∀ i < j, isTaken (candidate base (k + i)) = true)
    (hfree : isTaken (candidate base (k + j)) = false) (hj : j ≤ tries) :
    firstFree isTaken base tries k = candidate base (k + j) := by
  induction j generalizing k tries with
  | zero =>
    cases tries with
    | zero => rfl
    | succ tries =>
      rw [Nat.add_zero] at hfree ⊢
      simp [firstFree, hfree]
  | succ j ih =>
    obtain ⟨tries, rfl⟩ : ∃ n, tries = n + 1 := ⟨tries - 1, by omega⟩
    have hk : isTaken (candidate base k) = true := hbefore 0 (Nat.succ_pos j)
    have e (i : Nat) : k + (i + 1) = k + 1 + i := by omega
    rw [firstFree, if_pos hk, e j]
    refine ih ?_ ?_ (Nat.le_of_succ_le_succ hj)
    · intro i hi
      rw [← e i]
      exact hbefore (i + 1) (Nat.succ_lt_succ hi)
    · rw [← e j]
      exact hfree

/-- Names that each clash with one candidate at most cannot clash with more candidates than there are
names. -/
theorem exists_free {clashes : String → String → Bool} {base : String} (hone : Separates clashes base)
    (taken : List String) :
    ¬ ∀ i ≤ taken.length, taken.any (clashes (candidate base i)) = true := by
  intro hall
  have hex (i : Fin (taken.length + 1)) :
      ∃ p : Fin taken.length, clashes (candidate base i) (taken.get p) = true := by
    obtain ⟨t, ht, hc⟩ := List.any_eq_true.mp (hall i (by omega))
    obtain ⟨p, rfl⟩ := List.mem_iff_get.mp ht
    exact ⟨p, hc⟩
  choose f hf using hex
  have hinj : Function.Injective f := by
    intro i j h
    apply Fin.ext
    exact hone (taken.get (f i)) i j (hf i) (by rw [h]; exact hf j)
  have := Fintype.card_le_of_injective f hinj
  simp only [Fintype.card_fin] at this
  omega

theorem exists_first {clashes : String → String → Bool} {base : String} (hone : Separates clashes base)
    (taken : List String) :
    ∃ k ≤ taken.length,
      (∀ tries, k ≤ tries →
        firstFree (fun name => taken.any (clashes name)) base tries 0 = candidate base k) ∧
      taken.any (clashes (candidate base k)) = false ∧
      ∀ j < k, taken.any (clashes (candidate base j)) = true := by
  have hsome : ∃ k, k ≤ taken.length ∧ taken.any (clashes (candidate base k)) = false := by
    have h := exists_free hone taken
    simp only [not_forall, Bool.not_eq_true, exists_prop] at h
    exact h
  obtain ⟨hle, hfree⟩ := Nat.find_spec hsome
  have hbefore : ∀ j < Nat.find hsome, taken.any (clashes (candidate base j)) = true := by
    intro j hj
    cases h : taken.any (clashes (candidate base j)) with
    | true => rfl
    | false => exact absurd ⟨hj.le.trans hle, h⟩ (Nat.find_min hsome hj)
  refine ⟨Nat.find hsome, hle, fun tries htries => ?_, hfree, hbefore⟩
  have h := @firstFree_eq (fun name => taken.any (clashes name)) base (Nat.find hsome) 0 tries
  simp only [Nat.zero_add] at h
  exact h hbefore hfree htries

theorem fresh_free {clashes : String → String → Bool} {base : String} (hone : Separates clashes base)
    (taken : List String) :
    taken.any (clashes (fresh clashes taken base)) = false := by
  obtain ⟨k, hk, hstops, hfree, -⟩ := exists_first hone taken
  rw [fresh, hstops taken.length hk]
  exact hfree

/-! ## The two ways to clash -/

theorem fresh_exactly_notMem (taken : List String) (base : String) :
    fresh exactly taken base ∉ taken := by
  have h := fresh_free (separates_exactly base) taken
  intro hm
  rw [List.any_eq_false] at h
  exact h _ hm (by simp [exactly])

theorem fresh_ignoringCase_free (taken : List String) (base : String) :
    ∀ t ∈ taken, (fresh ignoringCase taken base).toLower ≠ t.toLower := by
  have h := fresh_free (separates_ignoringCase base) taken
  intro t ht
  rw [List.any_eq_false] at h
  simpa [ignoringCase] using h t ht

/-- **A fresh name is the first that is free.** Without a bound on its tries the search ends by itself,
with a number that is at most that of the taken names. It ends at a name that clashes with none of them,
and each candidate before it clashes with one. -/
theorem fresh_first {clashes : String → String → Bool}
    (hclashes : clashes = exactly ∨ clashes = ignoringCase) (taken : List String) (base : String) :
    ∃ k ≤ taken.length,
      (∀ tries, k ≤ tries →
        firstFree (fun name => taken.any (clashes name)) base tries 0 = candidate base k) ∧
      fresh clashes taken base = candidate base k ∧
      (∀ t ∈ taken, clashes (candidate base k) t = false) ∧
      ∀ j < k, ∃ t ∈ taken, clashes (candidate base j) t = true := by
  have hone : Separates clashes base := by
    rcases hclashes with rfl | rfl
    · exact separates_exactly base
    · exact separates_ignoringCase base
  obtain ⟨k, hk, hstops, hfree, hbefore⟩ := exists_first hone taken
  refine ⟨k, hk, hstops, hstops taken.length hk, ?_, ?_⟩
  · intro t ht
    exact Bool.eq_false_of_not_eq_true (List.any_eq_false.mp hfree t ht)
  · intro j hj
    exact List.any_eq_true.mp (hbefore j hj)

/-- The base ends in a digit, and up to case all candidates but the last are taken. -/
theorem fresh_first_numbered : ∃ k ≤ 3,
    (∀ tries, k ≤ tries → firstFree (fun name => ["t12", "T1", "t11"].any (ignoringCase name)) "T1"
      tries 0 = candidate "T1" k) ∧
    fresh ignoringCase ["t12", "T1", "t11"] "T1" = candidate "T1" k ∧ candidate "T1" k = "T13" := by
  -- On lists of characters the comparison is quick to evaluate.
  have hchars : ignoringCase = fun a b => a.toList.map Char.toLower == b.toList.map Char.toLower := by
    funext a b
    rw [ignoringCase, Bool.eq_iff_iff, beq_iff_eq, beq_iff_eq, ← String.toList_inj, toList_toLower,
      toList_toLower]
  have hname : fresh ignoringCase ["t12", "T1", "t11"] "T1" = "T13" := by
    rw [hchars]
    decide +kernel
  obtain ⟨k, hk, hstops, hfresh, -, -⟩ := fresh_first (.inr rfl) ["t12", "T1", "t11"] "T1"
  exact ⟨k, hk, hstops, hfresh, hfresh.symm.trans hname⟩

end EntityQuery.Name

namespace EntityQuery
set_option autoImplicit false

theorem Aliases.fresh_notMem (a : Aliases) (base : String) : a.fresh base ∉ a.taken :=
  Name.fresh_exactly_notMem a.taken base

theorem Sql.Statement.freshAlias_free (s : Sql.Statement) (base : String) :
    ∀ c ∈ s.columns, c.label.toLower ≠ (s.freshAlias base).toLower := by
  intro c hc h
  have hc' : c.label ∈ s.columns.map (·.label) := List.mem_map_of_mem hc
  exact Name.fresh_ignoringCase_free _ base c.label hc' h.symm

end EntityQuery
