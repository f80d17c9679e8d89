import Mathlib.Data.List.Basic
import Mathlib.Data.List.Induction

/-! # First appearances

Of items that count as the same only the first one is kept. This is what `DISTINCT` does with rows,
and what the reader does with roots and with the elements of collections. -/

namespace EntityQuery
set_option autoImplicit false

variable {α β : Type}

/-- The first of each bunch of items that are the same. -/
def firsts (same : α → α → Bool) (l : List α) : List α :=
  l.foldl (fun seen a => if seen.any (same · a) then seen else seen ++ [a]) []

theorem firsts_map (same : β → β → Bool) (f : α → β) (l : List α) :
    firsts same (l.map f) = (firsts (fun a b => same (f a) (f b)) l).map f := by
  unfold firsts
  suffices h : ∀ seen : List α,
      (l.map f).foldl (fun seen a => if seen.any (same · a) then seen else seen ++ [a]) (seen.map f) =
        (l.foldl (fun seen a => if seen.any (fun x => same (f x) (f a)) then seen else seen ++ [a])
          seen).map f from h []
  induction l with
  | nil => intro seen; rfl
  | cons a l ih =>
    intro seen
    rw [List.map_cons, List.foldl_cons, List.foldl_cons, ← ih]
    congr 1
    rw [List.any_map]
    simp only [Function.comp_def]
    split
    · rfl
    · rw [List.map_append, List.map_singleton]

/-- Items that are pairwise the same under both tests leave the same first ones. -/
theorem firsts_congr {same same' : α → α → Bool} {l : List α}
    (h : ∀ a ∈ l, ∀ b ∈ l, same a b = same' a b) : firsts same l = firsts same' l := by
  unfold firsts
  suffices hs : ∀ (rest seen : List α), (∀ a ∈ rest, a ∈ l) → (∀ a ∈ seen, a ∈ l) →
      rest.foldl (fun seen a => if seen.any (same · a) then seen else seen ++ [a]) seen =
        rest.foldl (fun seen a => if seen.any (same' · a) then seen else seen ++ [a]) seen from
    hs l [] (fun _ ha => ha) (by simp)
  intro rest
  induction rest with
  | nil => intro seen _ _; rfl
  | cons a rest ih =>
    intro seen hrest hseen
    have ha := hrest a (List.mem_cons_self ..)
    have hany : seen.any (same · a) = seen.any (same' · a) := by
      rw [Bool.eq_iff_iff]
      simp only [List.any_eq_true]
      constructor
      · rintro ⟨b, hb, hs⟩; exact ⟨b, hb, by rw [← h b (hseen b hb) a ha]; exact hs⟩
      · rintro ⟨b, hb, hs⟩; exact ⟨b, hb, by rw [h b (hseen b hb) a ha]; exact hs⟩
    rw [List.foldl_cons, List.foldl_cons, hany]
    refine ih _ (fun b hb => hrest b (List.mem_cons_of_mem a hb)) ?_
    intro b hb
    split at hb
    · exact hseen b hb
    · rcases List.mem_append.mp hb with hb | hb
      · exact hseen b hb
      · rw [List.mem_singleton.mp hb]; exact ha

theorem firsts_pairwise (same : α → α → Bool) (l : List α) :
    (firsts same l).Pairwise fun a b => same a b = false := by
  unfold firsts
  suffices h : ∀ seen : List α, (seen.Pairwise fun a b => same a b = false) →
      (l.foldl (fun seen a => if seen.any (same · a) then seen else seen ++ [a]) seen).Pairwise
        fun a b => same a b = false from h [] .nil
  induction l with
  | nil => intro seen hs; exact hs
  | cons a l ih =>
    intro seen hs
    rw [List.foldl_cons]
    refine ih _ ?_
    split
    · exact hs
    · rename_i h
      refine List.pairwise_append.mpr ⟨hs, List.pairwise_singleton _ _, ?_⟩
      intro x hx b hb
      rw [List.mem_singleton.mp hb]
      exact Bool.eq_false_iff.mpr (List.any_eq_false.mp (Bool.eq_false_iff.mpr h) x hx)

theorem firsts_of_pairwise {same : α → α → Bool} {l : List α}
    (h : l.Pairwise fun a b => same a b = false) : firsts same l = l := by
  unfold firsts
  suffices hs : ∀ seen : List α, (seen ++ l).Pairwise (fun a b => same a b = false) →
      l.foldl (fun seen a => if seen.any (same · a) then seen else seen ++ [a]) seen = seen ++ l from
    hs [] h
  clear h
  induction l with
  | nil => intro seen _; exact (List.append_nil seen).symm
  | cons a l ih =>
    intro seen hs
    have hnew : seen.any (same · a) = false := by
      rw [List.any_eq_false]
      intro x hx
      rw [(List.pairwise_append.mp hs).2.2 x hx a (List.mem_cons_self ..)]
      simp
    rw [List.foldl_cons, hnew, if_neg (by simp), ih]
    · rw [List.append_assoc]; rfl
    · rwa [List.append_assoc]

theorem firsts_firsts (same : α → α → Bool) (l : List α) : firsts same (firsts same l) = firsts same l :=
  firsts_of_pairwise (firsts_pairwise same l)

theorem firsts_concat (same : α → α → Bool) (l : List α) (a : α) :
    firsts same (l ++ [a]) =
      if (firsts same l).any (same · a) then firsts same l else firsts same l ++ [a] := by
  rw [firsts, List.foldl_append]
  rfl

theorem mem_of_mem_firsts {same : α → α → Bool} {l : List α} {a : α} (h : a ∈ firsts same l) :
    a ∈ l := by
  induction l using List.reverseRecOn with
  | nil => exact h
  | append_singleton l b ih =>
    rw [firsts_concat] at h
    split at h
    · exact List.mem_append_left _ (ih h)
    · rcases List.mem_append.mp h with h | h
      · exact List.mem_append_left _ (ih h)
      · exact List.mem_append_right _ h

theorem exists_mem_firsts {same : α → α → Bool} (hrefl : ∀ a, same a a = true) {l : List α} {a : α}
    (h : a ∈ l) : ∃ b ∈ firsts same l, same b a = true := by
  induction l using List.reverseRecOn with
  | nil => cases h
  | append_singleton l b ih =>
    rw [firsts_concat]
    rcases List.mem_append.mp h with h | h
    · obtain ⟨c, hc, hsame⟩ := ih h
      split
      · exact ⟨c, hc, hsame⟩
      · exact ⟨c, List.mem_append_left _ hc, hsame⟩
    · rw [List.mem_singleton.mp h]
      split
      · rename_i hany
        exact List.any_eq_true.mp hany
      · exact ⟨b, List.mem_append_right _ (List.mem_singleton.mpr rfl), hrefl b⟩

/-! ## Lists put together -/

theorem firsts_append (same : α → α → Bool) (l m : List α) :
    firsts same (l ++ m) =
      firsts same l ++ firsts same (m.filter fun a => !(firsts same l).any (same · a)) := by
  induction m using List.reverseRecOn with
  | nil => simp [firsts]
  | append_singleton m a ih =>
    rw [← List.append_assoc, firsts_concat, ih, List.filter_append, List.any_append]
    cases hl : (firsts same l).any (same · a) with
    | true => simp [hl]
    | false =>
      have hsingle : [a].filter (fun a => !(firsts same l).any (same · a)) = [a] := by simp [hl]
      rw [hsingle, firsts_concat, Bool.false_or]
      split
      · rfl
      · rw [List.append_assoc]

theorem firsts_of_same {same : α → α → Bool} {a : α} {l : List α} (h : ∀ b ∈ l, same a b = true) :
    firsts same (a :: l) = [a] := by
  rw [← List.singleton_append, firsts_append, List.filter_eq_nil_iff.mpr]
  · rfl
  · intro b hb
    simp [firsts, h b hb]

section Blocks

variable {same : β → β → Bool} (hrefl : ∀ b, same b b = true)
include hrefl

theorem firsts_filter_copies {b : β} {bs : List β} (q : β → Bool) (h : ∀ b' ∈ bs, b' = b) :
    firsts same ((b :: bs).filter q) = firsts same ([b].filter q) := by
  cases hq : q b with
  | true =>
    rw [List.filter_cons_of_pos hq, List.filter_cons_of_pos hq, firsts_of_same, firsts_of_same]
    · intro b' hb'
      cases hb'
    · intro b' hb'
      rw [h b' (List.mem_filter.mp hb').1]
      exact hrefl b
  | false =>
    have hbs : bs.filter q = [] := List.filter_eq_nil_iff.mpr fun b' hb' => by simp [h b' hb', hq]
    rw [List.filter_cons_of_neg (by simp [hq]), List.filter_cons_of_neg (by simp [hq]), hbs]
    rfl

theorem firsts_flatMap_self {l : List α} {g : α → β} {f : α → List β} (p : β → Bool)
    (hf : ∀ a ∈ l, f a ≠ [] ∧ ∀ b ∈ f a, b = g a) :
    firsts same ((l.flatMap f).filter p) = firsts same ((l.map g).filter p) := by
  induction l using List.reverseRecOn with
  | nil => rfl
  | append_singleton l a ih =>
    have ih := ih fun a' ha' => hf a' (List.mem_append_left _ ha')
    obtain ⟨hne, hall⟩ := hf a (List.mem_append_right _ (List.mem_singleton.mpr rfl))
    rw [List.flatMap_append, List.flatMap_singleton, List.map_append, List.map_singleton,
      List.filter_append, List.filter_append, firsts_append, firsts_append, ih]
    congr 1
    obtain ⟨b, bs, hcons⟩ := List.exists_cons_of_ne_nil hne
    rw [hcons] at hall ⊢
    obtain rfl : b = g a := hall b (List.mem_cons_self ..)
    rw [List.filter_filter, List.filter_filter]
    exact firsts_filter_copies hrefl _ fun b' hb' => hall b' (List.mem_cons_of_mem _ hb')

theorem firsts_flatMap_const {l : List α} (hl : l ≠ []) {r : List β}
    (hr : r.Pairwise fun a b => same a b = false) : firsts same (l.flatMap fun _ => r) = r := by
  obtain ⟨a, l, rfl⟩ := List.exists_cons_of_ne_nil hl
  rw [List.flatMap_cons, firsts_append, firsts_of_pairwise hr, List.filter_eq_nil_iff.mpr]
  · exact List.append_nil r
  · intro b hb
    obtain ⟨_, -, hb⟩ := List.mem_flatMap.mp hb
    have hany : r.any (same · b) = true := List.any_eq_true.mpr ⟨b, hb, hrefl b⟩
    simp [hany]

end Blocks

/-- Bunches one after the other: each leaves its first item. -/
theorem firsts_flatMap_blocks {same : β → β → Bool} {l : List α} {first : α → β} {f : α → List β}
    (hf : ∀ a ∈ l, ∃ rest, f a = first a :: rest ∧ ∀ b ∈ rest, same (first a) b = true)
    (hl : l.Pairwise fun a a' => ∀ b ∈ f a', same (first a) b = false) :
    firsts same (l.flatMap f) = l.map first := by
  induction l with
  | nil => rfl
  | cons a l ih =>
    obtain ⟨hhead, htail⟩ := List.pairwise_cons.mp hl
    obtain ⟨rest, ha, hsame⟩ := hf a (List.mem_cons_self ..)
    have hfirst : firsts same (f a) = [first a] := ha ▸ firsts_of_same hsame
    have hfilter : (l.flatMap f).filter (fun b => !([first a].any (same · b))) = l.flatMap f := by
      rw [List.filter_eq_self]
      intro b hb
      obtain ⟨a', ha', hb⟩ := List.mem_flatMap.mp hb
      simp [hhead a' ha' b hb]
    rw [List.flatMap_cons, firsts_append, hfirst, hfilter,
      ih (fun a' ha' => hf a' (List.mem_cons_of_mem _ ha')) htail, List.map_cons]
    rfl

theorem filter_flatMap_blocks {same : β → β → Bool} (hsymm : ∀ b b', same b b' = same b' b) {l : List α}
    {f : α → List β} (hf : ∀ a ∈ l, ∀ b ∈ f a, ∀ b' ∈ f a, same b b' = true)
    (hl : l.Pairwise fun a a' => ∀ b ∈ f a, ∀ b' ∈ f a', same b b' = false) {a : α} (ha : a ∈ l) {b : β}
    (hb : b ∈ f a) : (l.flatMap f).filter (same b) = f a := by
  obtain ⟨l₁, l₂, rfl⟩ := List.append_of_mem ha
  obtain ⟨-, hafter, hbefore⟩ := List.pairwise_append.mp hl
  have hnone : ∀ l' : List α, (∀ a' ∈ l', ∀ b' ∈ f a', same b b' = false) →
      (l'.flatMap f).filter (same b) = [] := by
    intro l' h
    rw [List.filter_eq_nil_iff]
    intro b' hb'
    obtain ⟨a', ha', hb'⟩ := List.mem_flatMap.mp hb'
    rw [h a' ha' b' hb']
    exact Bool.false_ne_true
  have hself : (f a).filter (same b) = f a := List.filter_eq_self.mpr (hf a ha b hb)
  rw [List.flatMap_append, List.flatMap_cons, List.filter_append, List.filter_append, hself,
    hnone l₁ fun a' ha' b' hb' => (hsymm b b').trans (hbefore a' ha' a (List.mem_cons_self ..) b' hb' b hb),
    hnone l₂ fun a' ha' b' hb' => (List.pairwise_cons.mp hafter).1 a' ha' b hb b' hb']
  rw [List.nil_append, List.append_nil]

end EntityQuery
