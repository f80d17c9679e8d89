import Mathlib.Data.List.Basic
import EntityQuery.Json.Text

/-! # The text of keys

Keys are put together from JSON texts and names, with marks between them that the texts may hold
too. They can still be taken apart again: a scanner that knows quotes finds the end of a JSON text,
and no JSON text ends in a mark and a second JSON text. -/

namespace EntityQuery
set_option autoImplicit false

/-! ## Marks between texts -/

/-- Two texts that are followed by something are equal, unless one of them goes on with the head of
what follows the other. -/
theorem append_inj_of_heads {s t r r' : List Char}
    (hs : ∀ c cs as, r = c :: cs → t = s ++ c :: as → cs = as ++ r' → False)
    (ht : ∀ c cs as, r' = c :: cs → s = t ++ c :: as → cs = as ++ r → False)
    (h : s ++ r = t ++ r') : s = t ∧ r = r' := by
  rcases List.append_eq_append_iff.mp h with ⟨as, he, hrest⟩ | ⟨as, he, hrest⟩
  · cases as with
    | nil => exact ⟨by simpa using he.symm, by simpa using hrest⟩
    | cons c as => exact (hs c _ as hrest he rfl).elim
  · cases as with
    | nil => exact ⟨by simpa using he, by simpa using hrest.symm⟩
    | cons c as => exact (ht c _ as hrest he rfl).elim

theorem append_marked_inj {mark : Char} {s t r r' : List Char} (hs : mark ∉ s) (ht : mark ∉ t)
    (hr : ∀ c cs, r = c :: cs → c = mark) (hr' : ∀ c cs, r' = c :: cs → c = mark)
    (h : s ++ r = t ++ r') : s = t ∧ r = r' := by
  refine append_inj_of_heads (fun c cs as hc he _ => ?_) (fun c cs as hc he _ => ?_) h
  · cases hr c cs hc
    exact ht (he ▸ List.mem_append_right s (List.mem_cons_self ..))
  · cases hr' c cs hc
    exact hs (he ▸ List.mem_append_right t (List.mem_cons_self ..))

/-- Texts without the mark can be told apart when the mark stands before each of them. -/
theorem flatMap_marked_inj {mark : Char} {ss ts : List (List Char)} (hs : ∀ s ∈ ss, mark ∉ s)
    (ht : ∀ t ∈ ts, mark ∉ t) (h : ss.flatMap (mark :: ·) = ts.flatMap (mark :: ·)) : ss = ts := by
  have hhead : ∀ (us : List (List Char)) c cs, us.flatMap (mark :: ·) = c :: cs → c = mark := by
    intro us c cs hu
    cases us with
    | nil => cases hu
    | cons u us =>
      rw [List.flatMap_cons, List.cons_append, List.cons.injEq] at hu
      exact hu.1.symm
  induction ss generalizing ts with
  | nil =>
    cases ts with
    | nil => rfl
    | cons t ts => simp at h
  | cons s ss ih =>
    cases ts with
    | nil => simp at h
    | cons t ts =>
      simp only [List.flatMap_cons, List.cons_append, List.cons.injEq, true_and] at h
      obtain ⟨rfl, hrest⟩ := append_marked_inj (hs s (List.mem_cons_self ..))
        (ht t (List.mem_cons_self ..)) (hhead ss) (hhead ts) h
      rw [ih (fun s hs' => hs s (List.mem_cons_of_mem _ hs'))
        (fun t ht' => ht t (List.mem_cons_of_mem _ ht')) hrest]

theorem cons_intercalate (mark : Char) (s : List Char) (ss : List (List Char)) :
    mark :: [mark].intercalate (s :: ss) = (s :: ss).flatMap (mark :: ·) := by
  induction ss generalizing s with
  | nil => simp
  | cons t ss ih =>
    rw [List.intercalate_cons_cons, List.flatMap_cons, ← ih]
    simp

theorem intercalate_inj {mark : Char} {ss ts : List (List Char)} (hs : ∀ s ∈ ss, mark ∉ s)
    (ht : ∀ t ∈ ts, mark ∉ t) (hs' : [] ∉ ss) (ht' : [] ∉ ts)
    (h : [mark].intercalate ss = [mark].intercalate ts) : ss = ts := by
  have hempty : ∀ {us : List (List Char)}, [] ∉ us → [mark].intercalate us = [] → us = [] := by
    intro us hus hu
    cases us with
    | nil => rfl
    | cons u us =>
      have hu' := congrArg (mark :: ·) hu
      simp only [cons_intercalate, List.flatMap_cons, List.cons_append, List.cons.injEq, true_and,
        List.append_eq_nil_iff] at hu'
      exact absurd (hu'.1 ▸ List.mem_cons_self ..) hus
  cases ss with
  | nil => exact (hempty ht' h.symm).symm
  | cons s ss =>
    cases ts with
    | nil => exact hempty hs' h
    | cons t ts =>
      refine flatMap_marked_inj hs ht ?_
      rw [← cons_intercalate, ← cons_intercalate, h]

/-! ## The scanner -/

namespace Json

/-- Where the scanner stands. -/
inductive Region where
  | bare
  | quoted
  | escaped
deriving DecidableEq

/-- One character further; outside quotes there are no backslashes and no marks of paths. -/
def Region.step : Region → Char → Option Region
  | .bare, c =>
    if c = '"' then some .quoted
    else if c = '\\' ∨ c = '/' ∨ c = '#' then none else some .bare
  | .quoted, c => if c = '"' then some .bare else if c = '\\' then some .escaped else some .quoted
  | .escaped, _ => some .quoted

/-- Where the scanner stands after a text. -/
def scan (m : Region) (s : List Char) : Option Region := s.foldlM Region.step m

theorem scan_cons (m : Region) (c : Char) (s : List Char) :
    scan m (c :: s) = (m.step c).bind (scan · s) := List.foldlM_cons

theorem scan_append (m : Region) (s t : List Char) :
    scan m (s ++ t) = (scan m s).bind (scan · t) := List.foldlM_append

/-- A text that the scanner reads from the outside to the outside. -/
def Closed (s : List Char) : Prop := scan .bare s = some .bare

theorem Closed.nil : Closed [] := rfl

theorem Closed.append {s t : List Char} (hs : Closed s) (ht : Closed t) : Closed (s ++ t) := by
  rw [Closed, scan_append, hs]
  exact ht

theorem Closed.intercalate {sep : List Char} (hsep : Closed sep) {ss : List (List Char)}
    (hs : ∀ s ∈ ss, Closed s) : Closed (sep.intercalate ss) := by
  induction ss with
  | nil => exact .nil
  | cons s ss ih =>
    have hss := fun t ht => hs t (List.mem_cons_of_mem s ht)
    cases ss with
    | nil => simpa using hs
    | cons t ss =>
      rw [List.intercalate_cons_cons]
      exact ((hs s (List.mem_cons_self ..)).append hsep).append (ih hss)

theorem Closed.append_inj {s t r r' : List Char} (hs : Closed s) (ht : Closed t)
    (hr : ∀ c cs, r = c :: cs → c = '/' ∨ c = '#') (hr' : ∀ c cs, r' = c :: cs → c = '/' ∨ c = '#')
    (h : s ++ r = t ++ r') : s = t ∧ r = r' := by
  have hmark : ∀ {s : List Char} {c : Char} {cs : List Char}, Closed s → c = '/' ∨ c = '#' →
      ¬ Closed (s ++ c :: cs) := by
    intro s c cs hs hc h
    rw [Closed, scan_append, hs] at h
    rcases hc with rfl | rfl <;> cases h
  refine append_inj_of_heads (fun c cs as hc he _ => ?_) (fun c cs as hc he _ => ?_) h
  · exact hmark hs (hr c cs hc) (he ▸ ht)
  · exact hmark ht (hr' c cs hc) (he ▸ hs)

/-- A closed text, read from between quotes, does not end outside: each quote that closes for one
reading opens for the other. -/
theorem Closed.scan_quoted {s : List Char} (h : Closed s) : scan .quoted s ≠ some .bare := by
  unfold Closed at h
  intro hq
  induction s with
  | nil => cases hq
  | cons c s ih =>
    rw [scan_cons] at h hq
    by_cases hc : c = '"'
    · simp only [Region.step, if_pos hc] at h hq
      exact ih hq h
    · simp only [Region.step, if_neg hc] at h hq
      split at h
      · cases h
      · rename_i hm
        rw [if_neg fun he => hm (.inl he)] at hq
        exact ih h hq

/-- No closed text ends in a hash and a closed text. -/
theorem Closed.append_hash {s t : List Char} (ht : Closed t) : ¬ Closed (s ++ '#' :: t) := by
  intro h
  rw [Closed, scan_append] at h
  obtain ⟨m, -, hm⟩ := Option.bind_eq_some_iff.mp h
  rw [scan_cons] at hm
  cases m with
  | bare => cases hm
  | quoted => exact ht.scan_quoted hm
  | escaped => exact ht.scan_quoted hm

theorem Closed.append_hash_inj {s t r r' : List Char} (hr : Closed r) (hr' : Closed r')
    (h : s ++ '#' :: r = t ++ '#' :: r') : s = t ∧ r = r' := by
  have h' : s = t ∧ '#' :: r = '#' :: r' := by
    refine append_inj_of_heads (fun c cs as hc _ he => ?_) (fun c cs as hc _ he => ?_) h
    · obtain ⟨-, rfl⟩ := List.cons.inj hc
      exact hr'.append_hash (he ▸ hr)
    · obtain ⟨-, rfl⟩ := List.cons.inj hc
      exact hr.append_hash (he ▸ hr')
  exact ⟨h'.1, (List.cons.inj h'.2).2⟩

/-! ## JSON texts -/

/-- A text that is closed, and that does not hold the separator of cells. -/
structure IsText (s : List Char) : Prop where
  closed : Closed s
  separator : '\x1f' ∉ s

/-- A character that the scanner passes outside quotes without a change, and that separates no cells. -/
def isPlain (c : Char) : Bool :=
  c != '"' && c != '\\' && c != '/' && c != '#' && c != '\x1f'

theorem IsText.plain {s : List Char} (h : ∀ c ∈ s, isPlain c = true) : IsText s := by
  refine ⟨?_, fun hm => absurd (h _ hm) (by decide)⟩
  induction s with
  | nil => exact .nil
  | cons c s ih =>
    have hc := h c (List.mem_cons_self ..)
    simp only [isPlain, Bool.and_eq_true, bne_iff_ne] at hc
    rw [Closed, scan_cons, Region.step, if_neg hc.1.1.1.1, if_neg (by tauto)]
    exact ih fun d hd => h d (List.mem_cons_of_mem c hd)

theorem IsText.append {s t : List Char} (hs : IsText s) (ht : IsText t) : IsText (s ++ t) := by
  refine ⟨hs.closed.append ht.closed, fun h => ?_⟩
  rcases List.mem_append.mp h with h | h
  · exact hs.separator h
  · exact ht.separator h

theorem IsText.intercalate {sep : List Char} (hsep : IsText sep) {ss : List (List Char)}
    (hs : ∀ s ∈ ss, IsText s) : IsText (sep.intercalate ss) := by
  refine ⟨hsep.closed.intercalate fun s h => (hs s h).closed, ?_⟩
  induction ss with
  | nil => simp
  | cons s ss ih =>
    have hss := ih fun t ht => hs t (List.mem_cons_of_mem s ht)
    have hhead := (hs s (List.mem_cons_self ..)).separator
    cases ss with
    | nil => simpa using hhead
    | cons t ss =>
      rw [List.intercalate_cons_cons, List.mem_append, List.mem_append]
      rintro ((h | h) | h)
      · exact hhead h
      · exact hsep.separator h
      · exact hss h

theorem isPlain_digitChar : ∀ d < 16, isPlain (Nat.digitChar d) = true := by decide

theorem scan_plain {s : List Char} (h : ∀ c ∈ s, isPlain c = true) : scan .quoted s = some .quoted := by
  induction s with
  | nil => rfl
  | cons c s ih =>
    have hc := h c (List.mem_cons_self ..)
    simp only [isPlain, Bool.and_eq_true, bne_iff_ne] at hc
    simp only [scan_cons, Region.step, if_neg hc.1.1.1.1, if_neg hc.1.1.1.2]
    exact ih fun d hd => h d (List.mem_cons_of_mem c hd)

theorem scan_escape (c : Char) :
    scan .quoted (escape c).toList = some .quoted ∧ '\x1f' ∉ (escape c).toList := by
  unfold escape
  split
  all_goals try exact ⟨rfl, by decide⟩
  rename_i hquote hslash _ _ _ _ _
  split
  · rename_i hc
    have hdigits : ∀ d ∈ [Nat.digitChar (c.toNat / 16), Nat.digitChar (c.toNat % 16)],
        isPlain d = true := by
      intro d hd
      rcases List.mem_pair.mp hd with rfl | rfl
      · exact isPlain_digitChar _ (by omega)
      · exact isPlain_digitChar _ (by omega)
    rw [String.toList_append, String.toList_ofList (l := [_, _])]
    refine ⟨(scan_append ..).trans (scan_plain hdigits), fun h => ?_⟩
    rcases List.mem_append.mp h with h | h
    · exact absurd h (by decide)
    · exact absurd (hdigits _ h) (by decide)
  · rename_i hc
    have hmode : Region.quoted.step c = some .quoted := by
      simp only [Region.step, if_neg hquote, if_neg hslash]
    rw [Char.toString, String.toList_singleton]
    refine ⟨by rw [scan_cons, hmode]; rfl, fun h => ?_⟩
    rw [← List.mem_singleton.mp h] at hc
    exact hc (by decide)

theorem IsText.quote (s : String) : IsText (quote s).toList := by
  have hscan : scan .quoted (s.toList.flatMap fun c => (escape c).toList) = some .quoted := by
    induction s.toList with
    | nil => rfl
    | cons c cs ih => rw [List.flatMap_cons, scan_append, (scan_escape c).1]; exact ih
  have htext : (Json.quote s).toList =
      '"' :: (s.toList.flatMap fun c => (escape c).toList) ++ ['"'] := by
    simp [Json.quote, String.toList_join, List.flatMap_map]
  rw [htext]
  constructor
  · rw [Closed, scan_append]
    exact congrArg (Option.bind · (scan · ['"'])) hscan
  · simp only [List.cons_append, List.mem_cons, List.mem_append, List.mem_flatMap]
    rintro (h | ⟨c, -, h⟩ | h | h)
    · exact absurd h (by decide)
    · exact (scan_escape c).2 h
    · exact absurd h (by decide)
    · cases h

/-! ## Texts of numbers -/

theorem isPlain_of_isDigit {c : Char} (h : c.isDigit = true) : isPlain c = true := by
  simp only [isPlain, Bool.and_eq_true, bne_iff_ne]
  refine ⟨⟨⟨⟨?_, ?_⟩, ?_⟩, ?_⟩, ?_⟩ <;> rintro rfl <;> exact absurd h (by decide)

/-- A text of plain characters only. -/
def Plain (s : String) : Prop := ∀ c ∈ s.toList, isPlain c = true

theorem Plain.literal {s : String} (h : s.toList.all isPlain = true) : Plain s := List.all_eq_true.mp h

theorem Plain.append {s t : String} (hs : Plain s) (ht : Plain t) : Plain (s ++ t) := by
  intro c hc
  rw [String.toList_append] at hc
  rcases List.mem_append.mp hc with hc | hc
  · exact hs c hc
  · exact ht c hc

theorem Plain.nat (n : Nat) : Plain (toString n) := by
  intro c hc
  have hc' : c ∈ Nat.toDigits 10 n := Nat.toList_repr ▸ hc
  exact isPlain_of_isDigit (Nat.isDigit_of_mem_toDigits (by decide) (by decide) hc')

theorem Plain.int (n : Int) : Plain (toString n) := by
  cases n with
  | ofNat n => exact .nat n
  | negSucc n => exact Plain.append (.literal rfl) (.nat (n + 1))

theorem Plain.zeros (n : Nat) : Plain (zeros n) := by
  intro c hc
  rw [EntityQuery.zeros, String.toList_ofList] at hc
  rw [List.eq_of_mem_replicate hc]
  decide

theorem Plain.part {s : String} (h : Plain s) {l : List Char} (hl : ∀ c ∈ l, c ∈ s.toList) :
    Plain (String.ofList l) := by
  intro c hc
  rw [String.toList_ofList] at hc
  exact h c (hl c hc)

theorem Plain.decimal (d : Decimal) : Plain d.plain := by
  have htake := fun n => (Plain.nat d.digits).part fun _ => List.mem_of_mem_take (i := n)
  have hdrop := fun n => (Plain.nat d.digits).part fun _ => List.mem_of_mem_drop (i := n)
  unfold Decimal.plain
  dsimp only
  split
  · exact .append (.nat _) (.zeros _)
  · split
    · exact .append (.append (htake _) (.literal rfl)) (hdrop _)
    · exact .append (.append (.literal rfl) (.zeros _)) (.nat _)

theorem Plain.pointed (d : Decimal) : Plain d.pointed := by
  have htake := fun n => (Plain.nat d.digits).part fun _ => List.mem_of_mem_take (i := n)
  have hdrop := fun n => (Plain.nat d.digits).part fun _ => List.mem_of_mem_drop (i := n)
  unfold Decimal.pointed
  dsimp only
  split
  · exact .append (.decimal d) (.literal rfl)
  · split
    · exact .decimal d
    · refine .append (.append (.append (htake _) ?_) (.literal rfl)) (.int _)
      split
      · exact .literal rfl
      · exact .append (.literal rfl) (hdrop _)

theorem Plain.double (x : Double) : Plain x.jsonText := by
  refine .append ?_ ?_
  · unfold Double.sign
    split <;> exact .literal rfl
  · split
    · exact .literal rfl
    · exact .pointed _

/-! ## Texts of values -/

mutual

theorem IsText.compact : ∀ v : Json, IsText v.compact.toList
  | .null => .plain (Plain.literal rfl)
  | .bool true => .plain (Plain.literal rfl)
  | .bool false => .plain (Plain.literal rfl)
  | .int n => .plain (Plain.int n)
  | .double x => .plain (Plain.double x)
  | .text s => .quote s
  | .list items => by
    rw [Json.compact, String.toList_append, String.toList_append, String.toList_intercalate]
    refine .append (.append (.plain (Plain.literal rfl)) ?_) (.plain (Plain.literal rfl))
    refine .intercalate (.plain (Plain.literal rfl)) fun s hs => ?_
    obtain ⟨t, ht, rfl⟩ := List.mem_map.mp hs
    exact compactItems items t ht
  | .object fields => by
    rw [Json.compact, String.toList_append, String.toList_append, String.toList_intercalate]
    refine .append (.append (.plain (Plain.literal rfl)) ?_) (.plain (Plain.literal rfl))
    refine .intercalate (.plain (Plain.literal rfl)) fun s hs => ?_
    obtain ⟨t, ht, rfl⟩ := List.mem_map.mp hs
    exact compactFields fields t ht

theorem IsText.compactItems : ∀ (items : List Json), ∀ s ∈ Json.compactItems items, IsText s.toList
  | [], s, hs => by cases hs
  | v :: vs, s, hs => by
    rcases List.mem_cons.mp hs with rfl | hs
    · exact compact v
    · exact compactItems vs s hs

theorem IsText.compactFields : ∀ (fields : List (String × Json)),
    ∀ s ∈ Json.compactFields fields, IsText s.toList
  | [], s, hs => by cases hs
  | (n, v) :: fs, s, hs => by
    rcases List.mem_cons.mp hs with rfl | hs
    · rw [String.toList_append, String.toList_append]
      exact .append (.append (.quote n) (.plain (Plain.literal rfl))) (compact v)
    · exact compactFields fs s hs

end

theorem plain_ne (d : Decimal) : d.plain ≠ "" := by
  unfold Decimal.plain
  dsimp only
  split
  · simp
  · split <;> simp

theorem pointed_ne (d : Decimal) : d.pointed ≠ "" := by
  unfold Decimal.pointed
  dsimp only
  split
  · simp
  · split
    · exact plain_ne d
    · simp

theorem compact_ne (v : Json) : v.compact ≠ "" := by
  cases v with
  | null => simp [compact]
  | bool b => cases b <;> simp [compact]
  | int n => cases n <;> simp [compact, toString, Int.repr]
  | double x =>
    have h : (if x.isZero then "0.0" else (x.shortest .even).pointed) ≠ "" := by
      split
      · simp
      · exact pointed_ne _
    simp [compact, Double.jsonText, h]
  | text s => simp [compact, quote]
  | list items => simp [compact]
  | object fields => simp [compact]

end Json

end EntityQuery
