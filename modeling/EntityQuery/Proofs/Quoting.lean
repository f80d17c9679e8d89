import EntityQuery.Literal

/-! # String literals are read back

A reader of SQL takes a string literal to end at the first quote that stands alone, and two quotes in a
row for one. Main statement: what such a reader finds at the start of a text is a string whose literal
the text starts with, and it finds every such string, unless one more quote comes right after it. So no
string can end its own literal early, whatever quotes are in it. -/

namespace EntityQuery.Literal
set_option autoImplicit false

/-! ## The reader -/

/-- What is before the first quote that stands alone, each two quotes read as one, and what is after
it. -/
def scanQuoted : List Char → Option (List Char × List Char)
  | [] => none
  | '\'' :: '\'' :: cs => (scanQuoted cs).map fun r => ('\'' :: r.1, r.2)
  | '\'' :: cs => some ([], cs)
  | c :: cs => (scanQuoted cs).map fun r => (c :: r.1, r.2)

/-- The string whose literal a text starts with, and what comes after the literal. -/
def scan (text : String) : Option (String × String) :=
  match text.toList with
  | '\'' :: cs => (scanQuoted cs).map fun r => (String.ofList r.1, String.ofList r.2)
  | _ => none

/-! ## Inside the quotes -/

theorem scanQuoted_lone {rest : List Char} (h : rest.head? ≠ some '\'') :
    scanQuoted ('\'' :: rest) = some ([], rest) := by
  cases rest with
  | nil => rfl
  | cons c cs =>
    have hc : c ≠ '\'' := fun heq => h (congrArg some heq)
    rw [scanQuoted]
    exact fun _ heq => hc (List.cons.inj heq).1

theorem scanQuoted_other {c : Char} (h : c ≠ '\'') (cs : List Char) :
    scanQuoted (c :: cs) = (scanQuoted cs).map fun r => (c :: r.1, r.2) := by
  rw [scanQuoted]
  · exact fun _ heq _ => h heq
  · exact h

theorem scanQuoted_doubleQuotes (s : List Char) {rest : List Char} (h : rest.head? ≠ some '\'') :
    scanQuoted (doubleQuotes s ++ '\'' :: rest) = some (s, rest) := by
  induction s with
  | nil => exact scanQuoted_lone h
  | cons c s ih =>
    by_cases hc : c = '\''
    · subst hc
      rw [doubleQuotes, if_pos rfl, List.cons_append, List.cons_append, scanQuoted, ih]
      rfl
    · rw [doubleQuotes, if_neg hc, List.cons_append, scanQuoted_other hc, ih]
      rfl

theorem eq_of_scanQuoted {cs s rest : List Char} (h : scanQuoted cs = some (s, rest)) :
    cs = doubleQuotes s ++ '\'' :: rest ∧ rest.head? ≠ some '\'' := by
  fun_induction scanQuoted cs generalizing s with
  | case1 => cases h
  | case2 cs ih =>
    obtain ⟨r, hr, heq⟩ := Option.map_eq_some_iff.mp h
    cases heq
    obtain ⟨rfl, hrest⟩ := ih hr
    exact ⟨by simp [doubleQuotes], hrest⟩
  | case3 cs hlone =>
    cases h
    refine ⟨rfl, fun hhead => ?_⟩
    obtain ⟨more, rfl⟩ := List.head?_eq_some_iff.mp hhead
    exact hlone more rfl
  | case4 c cs _ hc ih =>
    obtain ⟨r, hr, heq⟩ := Option.map_eq_some_iff.mp h
    cases heq
    obtain ⟨rfl, hrest⟩ := ih hr
    refine ⟨?_, hrest⟩
    rw [doubleQuotes, if_neg hc]
    rfl

/-! ## Whole literals -/

/-- **A string literal is read back, and nothing else is.** The text of a string, followed by anything
that does not begin with a quote, is read as that string, with just what follows it left over; and a
text that is read as a string begins with the string's text. -/
theorem scan_eq_some_iff (text s rest : String) :
    scan text = some (s, rest) ↔
      text = (Literal.string s).text ++ rest ∧ rest.toList.head? ≠ some '\'' := by
  constructor
  · intro h
    unfold scan at h
    split at h
    · rename_i cs hcs
      obtain ⟨r, hr, heq⟩ := Option.map_eq_some_iff.mp h
      cases heq
      obtain ⟨rfl, hrest⟩ := eq_of_scanQuoted hr
      refine ⟨String.toList_inj.mp ?_, by simpa using hrest⟩
      simp [hcs, Literal.text, quoted]
    · cases h
  · rintro ⟨rfl, hrest⟩
    have htext : ((Literal.string s).text ++ rest).toList =
        '\'' :: (doubleQuotes s.toList ++ '\'' :: rest.toList) := by
      simp [Literal.text, quoted]
    simp only [scan, htext, scanQuoted_doubleQuotes s.toList hrest, Option.map_some, String.ofList_toList]

example : scan "'''a''b''' = x.name" = some ("'a'b'", " = x.name") := by decide +kernel

end EntityQuery.Literal
