import Mathlib.Data.List.Nodup
import EntityQuery.Proofs.KeyText
import EntityQuery.Proofs.Semantics.Firsts
import EntityQuery.Reader

/-! # Gathering collections

The reader goes through the rows once, with one set of text keys for all roots and all collections.
What it makes of them can be said without keys: rows that agree on the root identity are one group,
a group gives one value, and a collection of that value holds one element for each element identity
in the group. -/

namespace EntityQuery
set_option autoImplicit false

/-! ## Identities -/

namespace Row

def texts (row : Row) (cells : List Nat) : List String := cells.map fun i => (row.cell i).compact

/-- Whether two rows have the same texts in the cells. -/
def alike (cells : List Nat) (row row' : Row) : Bool := row.texts cells == row'.texts cells

/-- Identities are equal only if they are made of the same texts, also when their cells differ. -/
theorem identity_inj {row row' : Row} {cells cells' : List Nat} :
    row.identity cells = row'.identity cells' ↔ row.texts cells = row'.texts cells' := by
  have htext : ∀ (r : Row) (is : List Nat), ∀ s ∈ (r.texts is).map String.toList, '\x1f' ∉ s ∧ s ≠ [] := by
    intro r is s hs
    obtain ⟨t, ht, rfl⟩ := List.mem_map.mp hs
    obtain ⟨i, -, rfl⟩ := List.mem_map.mp ht
    refine ⟨(Json.IsText.compact _).separator, fun he => Json.compact_ne (r.cell i) ?_⟩
    exact String.toList_inj.mp he
  have hclean := fun r is s hs => (htext r is s hs).1
  have hfull : ∀ (r : Row) (is : List Nat), [] ∉ (r.texts is).map String.toList :=
    fun r is hs => (htext r is [] hs).2 rfl
  constructor
  · intro h
    have h' := congrArg String.toList h
    rw [identity, identity, String.toList_intercalate, String.toList_intercalate] at h'
    have hinj := intercalate_inj (hclean row cells) (hclean row' cells') (hfull row cells)
      (hfull row' cells') h'
    exact List.map_injective_iff.mpr (fun _ _ => String.toList_inj.mp) hinj
  · exact congrArg ("\x1f".intercalate ·)

theorem closed_identity (row : Row) (cells : List Nat) :
    Json.Closed (row.identity cells).toList := by
  rw [identity, String.toList_intercalate]
  have hsep : Json.Closed "\x1f".toList := rfl
  refine hsep.intercalate fun s hs => ?_
  obtain ⟨t, ht, rfl⟩ := List.mem_map.mp hs
  obtain ⟨i, -, rfl⟩ := List.mem_map.mp ht
  exact (Json.IsText.compact _).closed

theorem alike_comm (cells : List Nat) (row row' : Row) : alike cells row row' = alike cells row' row :=
  BEq.comm (a := row.texts cells)

theorem alike_iff {cells : List Nat} {row row' : Row} :
    alike cells row row' = true ↔ row.identity cells = row'.identity cells := by
  rw [alike, beq_iff_eq, identity_inj]

end Row

namespace Activator

/-! ## Keys -/

/-- Names without a slash. -/
def Unslashed (names : List String) : Prop := ∀ n ∈ names, '/' ∉ n.toList

theorem Unslashed.append {names more : List String} (h : Unslashed names) (h' : Unslashed more) :
    Unslashed (names ++ more) := by
  intro n hn
  rcases List.mem_append.mp hn with hn | hn
  · exact h n hn
  · exact h' n hn

/-- The path of a member below a root. -/
def pathOf (root : String) (names : List String) : String :=
  names.foldl (fun path n => path ++ "/" ++ n) root

/-- The key of an element of the collection at a path. -/
def keyOf (root : String) (names : List String) (id : String) : String :=
  pathOf root names ++ "#" ++ id

theorem pathOf_append (root : String) (names : List String) (n : String) :
    pathOf root (names ++ [n]) = pathOf root names ++ "/" ++ n := by
  rw [pathOf, List.foldl_append]
  rfl

theorem toList_pathOf (root : String) (names : List String) :
    (pathOf root names).toList = root.toList ++ (names.map String.toList).flatMap ('/' :: ·) := by
  induction names generalizing root with
  | nil => simp [pathOf]
  | cons n names ih =>
    have h := ih (root ++ "/" ++ n)
    rw [pathOf] at h ⊢
    rw [List.foldl_cons, h]
    simp

theorem keyOf_parts {root root' id id' : String} {names names' : List String}
    (hroot : Json.Closed root.toList) (hroot' : Json.Closed root'.toList)
    (hid : Json.Closed id.toList) (hid' : Json.Closed id'.toList)
    (h : keyOf root names id = keyOf root' names' id') :
    root = root' ∧ pathOf "" names = pathOf "" names' ∧ id = id' := by
  have hmark : ∀ (ns : List String) (rest : List Char) c cs,
      (ns.map String.toList).flatMap ('/' :: ·) ++ '#' :: rest = c :: cs → c = '/' ∨ c = '#' := by
    intro ns rest c cs he
    cases ns with
    | nil => exact .inr (List.cons.inj he).1.symm
    | cons n ns => exact .inl (List.cons.inj he).1.symm
  have hlist := congrArg String.toList h
  simp only [keyOf, String.toList_append, toList_pathOf, List.append_assoc] at hlist
  obtain ⟨hr, hrest⟩ := hroot.append_inj hroot' (hmark names _) (hmark names' _) hlist
  obtain ⟨hns, hi⟩ := hid.append_hash_inj hid' hrest
  refine ⟨String.toList_inj.mp hr, String.toList_inj.mp ?_, String.toList_inj.mp hi⟩
  rw [toList_pathOf, toList_pathOf, hns]

theorem pathOf_inj {names names' : List String} (hn : Unslashed names) (hn' : Unslashed names')
    (h : pathOf "" names = pathOf "" names') : names = names' := by
  have hclean : ∀ {ns : List String}, Unslashed ns → ∀ s ∈ ns.map String.toList, '/' ∉ s := by
    intro ns hns s hs
    obtain ⟨n, hn, rfl⟩ := List.mem_map.mp hs
    exact hns n hn
  have hlist := congrArg String.toList h
  rw [toList_pathOf, toList_pathOf, List.append_cancel_left_eq] at hlist
  exact List.map_injective_iff.mpr (fun _ _ => String.toList_inj.mp)
    (flatMap_marked_inj (hclean hn) (hclean hn') hlist)

/-- **Keys can be taken apart** if no name has a slash in it. -/
theorem keyOf_inj {root root' id id' : String} {names names' : List String}
    (hroot : Json.Closed root.toList) (hroot' : Json.Closed root'.toList)
    (hid : Json.Closed id.toList) (hid' : Json.Closed id'.toList)
    (hn : Unslashed names) (hn' : Unslashed names')
    (h : keyOf root names id = keyOf root' names' id') :
    root = root' ∧ names = names' ∧ id = id' := by
  obtain ⟨hr, hpath, hi⟩ := keyOf_parts hroot hroot' hid hid' h
  exact ⟨hr, pathOf_inj hn hn' hpath, hi⟩

/-! ## Groups -/

/-- The rows that bring an element: the first one for each identity that is not all null. -/
def elements (element : Activator) (rows : List Row) : List Row :=
  firsts (Row.alike element.elementIdentity)
    (rows.filter fun row => !row.isAbsent element.elementIdentity)

mutual

/-- What a group of rows gives: scalars and objects come from its first row, the elements of
collections from all of its rows. -/
def gathered (first : Row) (rows : List Row) : Activator → Json
  | .cell i => first.cell i
  | .object _ identity members =>
    if first.isAbsent identity then .null else Json.ofFields (gatheredMembers first rows members)
  | .collection element => .list ((element.elements rows).map fun row => element.build row)

/-- The members that a group of rows gives. -/
def gatheredMembers (first : Row) (rows : List Row) : List (String × Activator) → List (String × Json)
  | [] => []
  | (n, a) :: ms => (n, gathered first rows a) :: gatheredMembers first rows ms

end

mutual

/-- Member names outside collections are different in each object, and have no slash in them. -/
def WellNamed : Activator → Prop
  | .cell _ => True
  | .object _ _ members =>
    (members.map (·.1)).Nodup ∧ Unslashed (members.map (·.1)) ∧ AllWellNamed members
  | .collection _ => True

def AllWellNamed : List (String × Activator) → Prop
  | [] => True
  | (_, a) :: ms => WellNamed a ∧ AllWellNamed ms

end

mutual

theorem gathered_nil (first : Row) : ∀ a : Activator, gathered first [] a = a.build first
  | .cell _ => rfl
  | .object _ _ members => by rw [gathered, build, gatheredMembers_nil first members]
  | .collection _ => rfl

theorem gatheredMembers_nil (first : Row) : ∀ ms : List (String × Activator),
    gatheredMembers first [] ms = buildMembers first ms
  | [] => rfl
  | (n, a) :: ms => by
    rw [gatheredMembers, buildMembers, gathered_nil first a, gatheredMembers_nil first ms]

end

mutual

theorem gathered_flat (first : Row) (rows : List Row) : ∀ a : Activator, a.hasCollection = false →
    gathered first rows a = a.build first
  | .cell _, _ => rfl
  | .object _ _ members, h => by rw [gathered, build, gatheredMembers_flat first rows members h]
  | .collection _, h => by cases h

theorem gatheredMembers_flat (first : Row) (rows : List Row) : ∀ ms : List (String × Activator),
    anyCollection ms = false → gatheredMembers first rows ms = buildMembers first ms
  | [], _ => rfl
  | (n, a) :: ms, h => by
    rw [anyCollection, Bool.or_eq_false_iff] at h
    rw [gatheredMembers, buildMembers, gathered_flat first rows a h.1,
      gatheredMembers_flat first rows ms h.2]

end

theorem map_fst_gatheredMembers (first : Row) (rows : List Row) (ms : List (String × Activator)) :
    (gatheredMembers first rows ms).map (·.1) = ms.map (·.1) := by
  induction ms with
  | nil => rfl
  | cons m ms ih => rw [gatheredMembers, List.map_cons, List.map_cons, ih]

theorem gatheredMembers_append (first : Row) (rows : List Row) (as₁ as₂ : List (String × Activator)) :
    gatheredMembers first rows (as₁ ++ as₂) =
      gatheredMembers first rows as₁ ++ gatheredMembers first rows as₂ := by
  induction as₁ with
  | nil => rfl
  | cons a as₁ ih => rw [List.cons_append, gatheredMembers, gatheredMembers, ih, List.cons_append]

/-! ## Fields -/

/-- The fields of an object, sorted. -/
def sorted (fields : List (String × Json)) : List (String × Json) :=
  fields.foldl (fun fs f => Json.setField f.1 f.2 fs) []

theorem updateField_eq (name : String) (f : Json → Json) (fields : List (String × Json)) :
    updateField name f fields =
      fields.map fun field => (field.1, if field.1 == name then f field.2 else field.2) := by
  rw [updateField]
  refine List.map_congr_left fun field _ => ?_
  split <;> rfl

theorem map_fst_updateField (name : String) (f : Json → Json) (fields : List (String × Json)) :
    (updateField name f fields).map (·.1) = fields.map (·.1) := by
  rw [updateField_eq, List.map_map]
  rfl

theorem map_setField (g : String → Json → Json) (n : String) (v : Json)
    (fields : List (String × Json)) :
    (Json.setField n v fields).map (fun f => (f.1, g f.1 f.2)) =
      Json.setField n (g n v) (fields.map fun f => (f.1, g f.1 f.2)) := by
  induction fields with
  | nil => rfl
  | cons field fields ih =>
    obtain ⟨m, w⟩ := field
    simp only [Json.setField, List.map_cons]
    by_cases he : n = m
    · subst he
      simp
    · simp only [beq_eq_false_iff_ne.mpr he, Bool.false_eq_true, if_false]
      split
      · rfl
      · rw [List.map_cons, ih]

theorem updateField_sorted (name : String) (f : Json → Json) (fields : List (String × Json)) :
    updateField name f (sorted fields) = sorted (updateField name f fields) := by
  rw [updateField_eq, updateField_eq, sorted, sorted, List.foldl_map]
  refine (List.foldl_hom (List.map fun field : String × Json =>
    (field.1, if field.1 == name then f field.2 else field.2)) ?_).symm
  intro fs field
  exact (map_setField (fun n v => if n == name then f v else v) field.1 field.2 fs).symm

theorem lookup_setField (m n : String) (v : Json) (fields : List (String × Json)) :
    (Json.setField n v fields).lookup m = if m == n then some v else fields.lookup m := by
  induction fields with
  | nil => simp only [Json.setField, List.lookup_cons]; cases m == n <;> rfl
  | cons field fields ih =>
    obtain ⟨k, w⟩ := field
    simp only [Json.setField]
    by_cases hk : n = k
    · subst hk
      simp only [beq_self_eq_true, if_true, List.lookup_cons]
      cases m == n <;> rfl
    · simp only [beq_eq_false_iff_ne.mpr hk, Bool.false_eq_true, if_false]
      split
      · rw [List.lookup_cons]
        cases m == n <;> rfl
      · rw [List.lookup_cons, List.lookup_cons, ih]
        by_cases hm : m = k
        · subst hm
          simp [beq_eq_false_iff_ne.mpr (Ne.symm hk)]
        · simp [beq_eq_false_iff_ne.mpr hm]

theorem lookup_sorted {fields : List (String × Json)} (h : (fields.map (·.1)).Nodup) (n : String) :
    (sorted fields).lookup n = fields.lookup n := by
  suffices hs : ∀ acc : List (String × Json),
      (fields.foldl (fun fs f => Json.setField f.1 f.2 fs) acc).lookup n =
        (fields.lookup n).or (acc.lookup n) by
    simpa [sorted] using hs []
  induction fields with
  | nil => intro acc; rfl
  | cons field fields ih =>
    intro acc
    obtain ⟨hnew, hrest⟩ := List.nodup_cons.mp h
    rw [List.foldl_cons, ih hrest, lookup_setField, List.lookup_cons]
    by_cases hm : n = field.1
    · have hnone : fields.lookup n = none := by
        rw [List.lookup_eq_none_iff]
        intro f hf
        rw [hm, bne_iff_ne]
        exact fun he => hnew (List.mem_map.mpr ⟨f, hf, he.symm⟩)
      rw [hnone, beq_iff_eq.mpr hm]
      rfl
    · rw [beq_eq_false_iff_ne.mpr hm]
      rfl

theorem updateField_append {done rest : List (String × Json)} {n : String}
    (hdone : n ∉ done.map (·.1)) (hrest : n ∉ rest.map (·.1)) (f : Json → Json) (v : Json) :
    updateField n f (done ++ (n, v) :: rest) = done ++ (n, f v) :: rest := by
  have hsame : ∀ fields : List (String × Json), n ∉ fields.map (·.1) →
      updateField n f fields = fields := by
    intro fields h
    refine (List.map_congr_left fun field hf => ?_).trans (List.map_id fields)
    rw [if_neg]
    · rfl
    · intro he
      exact h (beq_iff_eq.mp he ▸ List.mem_map_of_mem hf)
  have hdone' := hsame done hdone
  have hrest' := hsame rest hrest
  rw [updateField] at hdone' hrest' ⊢
  rw [List.map_append, List.map_cons, hdone', hrest', if_pos (beq_self_eq_true n)]

theorem lookup_append {done rest : List (String × Json)} {n : String} (hdone : n ∉ done.map (·.1))
    (v : Json) : (done ++ (n, v) :: rest).lookup n = some v := by
  have hnone : done.lookup n = none := by
    rw [List.lookup_eq_none_iff]
    intro f hf
    rw [bne_iff_ne]
    exact fun he => hdone (he ▸ List.mem_map_of_mem hf)
  rw [List.lookup_append, hnone, List.lookup_cons_self]
  rfl

/-! ## Merging a row -/

variable {row first : Row} {rows : List Row} {seen : List String} {root : String}

/-- What a row adds to a value at a path: to a collection its element, below an object what it adds
to the members. -/
def mergeAt (row : Row) : Activator → String → Json × List String → Json × List String
  | .collection element, path, st =>
    let key := path ++ "#" ++ row.identity element.elementIdentity
    if row.isAbsent element.elementIdentity || st.2.contains key then st
    else (append (element.build row) st.1, key :: st.2)
  | a, path, st => merge row a path st

theorem mergeMembers_cons {done rest : List (String × Json)} {n : String}
    (hdone : n ∉ done.map (·.1)) (hrest : n ∉ rest.map (·.1)) (a : Activator)
    (ms : List (String × Activator)) (path : String) (v : Json) :
    mergeMembers row ((n, a) :: ms) path (done ++ (n, v) :: rest, seen) =
      mergeMembers row ms path
        (done ++ (n, (mergeAt row a (path ++ "/" ++ n) (v, seen)).1) :: rest,
          (mergeAt row a (path ++ "/" ++ n) (v, seen)).2) := by
  cases a with
  | collection element =>
    rw [mergeMembers, gather, mergeAt]
    dsimp only
    split
    · rfl
    · rw [updateField_append hdone hrest]
  | cell i => simp only [mergeMembers, lookup_append hdone, updateField_append hdone hrest, mergeAt]
  | object e is ms => simp only [mergeMembers, lookup_append hdone, updateField_append hdone hrest, mergeAt]

theorem mergeMembers_sorted (ms : List (String × Activator)) (path : String)
    (fields : List (String × Json)) (hnodup : (fields.map (·.1)).Nodup) :
    mergeMembers row ms path (sorted fields, seen) =
      (sorted (mergeMembers row ms path (fields, seen)).1,
        (mergeMembers row ms path (fields, seen)).2) := by
  induction ms generalizing fields seen with
  | nil => rfl
  | cons m ms ih =>
    obtain ⟨n, a⟩ := m
    have hupdate : ∀ f : Json → Json, ((updateField n f fields).map (·.1)).Nodup := by
      intro f
      rwa [map_fst_updateField]
    cases a with
    | collection element =>
      simp only [mergeMembers, gather]
      split
      · exact ih fields hnodup
      · rw [updateField_sorted]
        exact ih _ (hupdate _)
    | cell i =>
      simp only [mergeMembers, lookup_sorted hnodup]
      split
      · rw [updateField_sorted]
        exact ih _ (hupdate _)
      · exact ih fields hnodup
    | object e is members =>
      simp only [mergeMembers, lookup_sorted hnodup]
      split
      · rw [updateField_sorted]
        exact ih _ (hupdate _)
      · exact ih fields hnodup

/-! ## The keys seen -/

/-- A key below a path. -/
def Below (root : String) (names : List String) (key : String) : Prop :=
  ∃ (more : List String) (row : Row) (cells : List Nat),
    Unslashed more ∧ key = keyOf root (names ++ more) (row.identity cells)

theorem Below.up {names : List String} {n key : String} (hn : '/' ∉ n.toList)
    (h : Below root (names ++ [n]) key) : Below root names key := by
  obtain ⟨more, row, cells, hmore, rfl⟩ := h
  refine ⟨[n] ++ more, row, cells, .append ?_ hmore, by rw [List.append_assoc]⟩
  intro m hm
  rwa [List.mem_singleton.mp hm]

theorem Below.unique {root' key : String} {names names' : List String}
    (hroot : Json.Closed root.toList) (hroot' : Json.Closed root'.toList) (hn : Unslashed names)
    (hn' : Unslashed names') (h : Below root names key) (h' : Below root' names' key) :
    root = root' ∧ ∃ more more', names ++ more = names' ++ more' := by
  obtain ⟨more, row, cells, hmore, rfl⟩ := h
  obtain ⟨more', row', cells', hmore', hkey⟩ := h'
  obtain ⟨hr, hnames, -⟩ := keyOf_inj hroot hroot' (row.closed_identity _) (row'.closed_identity _)
    (hn.append hmore) (hn'.append hmore') hkey
  exact ⟨hr, more, more', hnames⟩

theorem Below.sibling {names : List String} {n n' key : String} (hroot : Json.Closed root.toList)
    (hnames : Unslashed (names ++ [n])) (hnames' : Unslashed (names ++ [n'])) (hne : n ≠ n')
    (h : Below root (names ++ [n]) key) : ¬ Below root (names ++ [n']) key := by
  intro h'
  obtain ⟨-, more, more', he⟩ := h.unique hroot hroot hnames hnames' h'
  rw [List.append_assoc, List.append_assoc, List.append_cancel_left_eq] at he
  exact hne (List.cons.inj he).1

/-- The keys seen before are still there, and all new ones have a property. -/
structure Grows (P : String → Prop) (seen seen' : List String) : Prop where
  subset : seen ⊆ seen'
  new : ∀ key ∈ seen', key ∈ seen ∨ P key

namespace Grows

variable {P Q : String → Prop} {seen' seen'' : List String}

theorem refl (P : String → Prop) (seen : List String) : Grows P seen seen :=
  ⟨fun _ h => h, fun _ h => .inl h⟩

theorem trans (h : Grows P seen seen') (h' : Grows P seen' seen'') : Grows P seen seen'' := by
  refine ⟨fun _ hk => h'.subset (h.subset hk), fun key hk => ?_⟩
  rcases h'.new key hk with hk | hk
  · exact h.new key hk
  · exact .inr hk

theorem mono (h : Grows P seen seen') (hpq : ∀ key, P key → Q key) : Grows Q seen seen' :=
  ⟨h.subset, fun key hk => (h.new key hk).imp_right (hpq key)⟩

end Grows

mutual

/-- The keys seen are those of the elements that the rows of a root have brought. -/
def Seen (first : Row) (rows : List Row) (seen : List String) (root : String) :
    List String → Activator → Prop
  | _, .cell _ => True
  | names, .object _ identity members =>
    first.isAbsent identity = false → AllSeen first rows seen root names members
  | names, .collection element => ∀ row : Row,
      keyOf root names (row.identity element.elementIdentity) ∈ seen ↔
        ∃ r ∈ rows, r.isAbsent element.elementIdentity = false ∧
          Row.alike element.elementIdentity r row = true

def AllSeen (first : Row) (rows : List Row) (seen : List String) (root : String)
    (names : List String) : List (String × Activator) → Prop
  | [] => True
  | (n, a) :: ms =>
    Seen first rows seen root (names ++ [n]) a ∧ AllSeen first rows seen root names ms

end

mutual

theorem Seen.of_grows {P : String → Prop} {seen' : List String} (hg : Grows P seen seen') :
    ∀ (a : Activator) (names : List String), a.WellNamed →
      (∀ key, Below root names key → ¬ P key) → Seen first rows seen root names a →
      Seen first rows seen' root names a
  | .cell _, _, _, _, _ => by rw [Seen]; trivial
  | .object _ _ members, names, hw, hap, h => by
    rw [Seen] at h ⊢
    rw [WellNamed] at hw
    intro hfirst
    refine AllSeen.of_grows hg members names hw.2.2 (fun m hm key hk => ?_) (h hfirst)
    exact hap key (hk.up (hw.2.1 m.1 (List.mem_map_of_mem hm)))
  | .collection element, names, _, hap, h => by
    rw [Seen] at h ⊢
    intro row
    refine ⟨fun hk => ?_, fun hr => hg.subset ((h row).mpr hr)⟩
    rcases hg.new _ hk with hk | hk
    · exact (h row).mp hk
    · refine absurd hk (hap _ ⟨[], row, element.elementIdentity, ?_, by rw [List.append_nil]⟩)
      exact fun _ hn => absurd hn List.not_mem_nil

theorem AllSeen.of_grows {P : String → Prop} {seen' : List String} (hg : Grows P seen seen') :
    ∀ (ms : List (String × Activator)) (names : List String), AllWellNamed ms →
      (∀ m ∈ ms, ∀ key, Below root (names ++ [m.1]) key → ¬ P key) →
      AllSeen first rows seen root names ms → AllSeen first rows seen' root names ms
  | [], _, _, _, _ => by rw [AllSeen]; trivial
  | (n, a) :: ms, names, hw, hap, h => by
    rw [AllSeen] at h ⊢
    rw [AllWellNamed] at hw
    have hhead := Seen.of_grows hg a _ hw.1 (hap (n, a) (List.mem_cons_self ..)) h.1
    have htail := AllSeen.of_grows hg ms names hw.2 (fun m hm => hap m (List.mem_cons_of_mem _ hm)) h.2
    exact ⟨hhead, htail⟩

end

/-! ## One row -/

theorem elements_concat (element : Activator) (rows : List Row) (row : Row) :
    element.elements (rows ++ [row]) =
      if row.isAbsent element.elementIdentity ||
          (element.elements rows).any (Row.alike element.elementIdentity · row) then
        element.elements rows
      else element.elements rows ++ [row] := by
  rw [elements, List.filter_append, List.filter_singleton]
  cases row.isAbsent element.elementIdentity with
  | true => simp [elements]
  | false => exact firsts_concat ..

theorem any_elements {element : Activator} {rows : List Row} {row : Row} :
    (element.elements rows).any (Row.alike element.elementIdentity · row) = true ↔
      ∃ r ∈ rows, r.isAbsent element.elementIdentity = false ∧
        Row.alike element.elementIdentity r row = true := by
  rw [List.any_eq_true]
  constructor
  · rintro ⟨r, hr, halike⟩
    obtain ⟨hmem, habsent⟩ := List.mem_filter.mp (mem_of_mem_firsts hr)
    exact ⟨r, hmem, by simpa using habsent, halike⟩
  · rintro ⟨r, hr, habsent, halike⟩
    have hmem : r ∈ rows.filter fun row => !row.isAbsent element.elementIdentity :=
      List.mem_filter.mpr ⟨hr, by simpa using habsent⟩
    obtain ⟨b, hb, hsame⟩ := exists_mem_firsts (fun _ => Row.alike_iff.mpr rfl) hmem
    exact ⟨b, hb, Row.alike_iff.mpr ((Row.alike_iff.mp hsame).trans (Row.alike_iff.mp halike))⟩

/-- The state is that of a group with one row more. -/
structure Merged (first : Row) (rows : List Row) (row : Row) (seen : List String) (root : String)
    (names : List String) (a : Activator) (st : Json × List String) : Prop where
  value : st.1 = gathered first (rows ++ [row]) a
  keys : Seen first (rows ++ [row]) st.2 root names a
  grows : Grows (Below root names) seen st.2

theorem mergeAt_collection {names : List String} (element : Activator)
    (h : Seen first rows seen root names (.collection element)) :
    Merged first rows row seen root names (.collection element)
      (mergeAt row (.collection element) (pathOf root names)
        (gathered first rows (.collection element), seen)) := by
  have hkey : seen.contains (pathOf root names ++ "#" ++ row.identity element.elementIdentity) =
      (element.elements rows).any (Row.alike element.elementIdentity · row) := by
    rw [Bool.eq_iff_iff, List.contains_iff_mem, any_elements]
    exact h row
  simp only [mergeAt, hkey]
  split
  · rename_i hold
    refine ⟨by rw [gathered, gathered, elements_concat, if_pos hold], ?_, .refl ..⟩
    intro row'
    rw [h row']
    refine ⟨fun ⟨r, hr, hp⟩ => ⟨r, List.mem_append_left _ hr, hp⟩, ?_⟩
    rintro ⟨r, hr, habsent, halike⟩
    rcases List.mem_append.mp hr with hr | hr
    · exact ⟨r, hr, habsent, halike⟩
    -- The row itself is absent, or a row before it has brought its element.
    · rw [List.mem_singleton.mp hr] at habsent halike
      rw [habsent, Bool.false_or, any_elements] at hold
      obtain ⟨r', hr', habsent', halike'⟩ := hold
      exact ⟨r', hr', habsent',
        Row.alike_iff.mpr ((Row.alike_iff.mp halike').trans (Row.alike_iff.mp halike))⟩
  · rename_i hnew
    have hvalue : append (element.build row) (gathered first rows (.collection element)) =
        gathered first (rows ++ [row]) (.collection element) := by
      rw [gathered, gathered, elements_concat, if_neg hnew, List.map_append]
      rfl
    rw [Bool.or_eq_true, not_or, Bool.not_eq_true] at hnew
    refine ⟨hvalue, ?_, ⟨fun _ hk => List.mem_cons_of_mem _ hk, fun key hk => ?_⟩⟩
    · intro row'
      rw [List.mem_cons, h row']
      constructor
      · rintro (he | ⟨r, hr, hp⟩)
        · refine ⟨row, List.mem_append_right _ (List.mem_singleton.mpr rfl), hnew.1, ?_⟩
          exact Row.alike_iff.mpr (String.append_right_inj _ |>.mp he).symm
        · exact ⟨r, List.mem_append_left _ hr, hp⟩
      · rintro ⟨r, hr, habsent, halike⟩
        rcases List.mem_append.mp hr with hr | hr
        · exact .inr ⟨r, hr, habsent, halike⟩
        · rw [List.mem_singleton.mp hr] at halike
          exact .inl (by rw [keyOf, Row.alike_iff.mp halike])
    · rcases List.mem_cons.mp hk with rfl | hk
      · exact .inr ⟨[], row, _, fun _ hn => absurd hn List.not_mem_nil, by rw [List.append_nil]; rfl⟩
      · exact .inl hk

mutual

/-- A row adds to the value of a group what the group gives with the row. -/
theorem mergeAt_gathered (hroot : Json.Closed root.toList) :
    ∀ (a : Activator) (names : List String) (seen : List String), a.WellNamed → Unslashed names →
      Seen first rows seen root names a →
      Merged first rows row seen root names a
        (mergeAt row a (pathOf root names) (gathered first rows a, seen))
  | .cell _, _, _, _, _, _ => ⟨rfl, trivial, .refl ..⟩
  | .collection element, _, _, _, _, h => mergeAt_collection element h
  | .object e identity members, names, seen, hw, hn, h => by
    have hat : ∀ path st, mergeAt row (.object e identity members) path st =
        merge row (.object e identity members) path st := fun _ _ => rfl
    rw [hat, gathered]
    cases habsent : first.isAbsent identity with
    | true =>
      refine ⟨by simp [merge, gathered, habsent], fun hfirst => ?_, .refl ..⟩
      rw [habsent] at hfirst
      cases hfirst
    | false =>
      have hnames := map_fst_gatheredMembers first rows members
      have hnodup : ((gatheredMembers first rows members).map (·.1)).Nodup := hnames ▸ hw.1
      obtain ⟨hvalue, hkeys, hgrows⟩ := mergeMembers_gathered hroot members names seen []
        hw.1 (fun _ _ => List.not_mem_nil) hw.2.1 hw.2.2 hn (h habsent)
      have hmerge : merge row (.object e identity members) (pathOf root names)
          (Json.ofFields (gatheredMembers first rows members), seen) =
          (.object (sorted (mergeMembers row members (pathOf root names)
              (gatheredMembers first rows members, seen)).1),
            (mergeMembers row members (pathOf root names)
              (gatheredMembers first rows members, seen)).2) := by
        rw [Json.ofFields, merge, ← sorted, mergeMembers_sorted _ _ _ hnodup]
      rw [List.nil_append] at hvalue hkeys hgrows
      rw [if_neg (by simp), hmerge, hvalue]
      refine ⟨?_, fun _ => hkeys, hgrows.mono ?_⟩
      · rw [gathered, habsent, if_neg (by simp)]
        rfl
      · rintro key ⟨n, hmem, hk⟩
        exact hk.up (hw.2.1 n hmem)

theorem mergeMembers_gathered (hroot : Json.Closed root.toList) :
    ∀ (ms : List (String × Activator)) (names : List String) (seen : List String)
      (done : List (String × Json)), (ms.map (·.1)).Nodup → (∀ n ∈ ms.map (·.1), n ∉ done.map (·.1)) →
      Unslashed (ms.map (·.1)) → AllWellNamed ms → Unslashed names →
      AllSeen first rows seen root names ms →
      (mergeMembers row ms (pathOf root names) (done ++ gatheredMembers first rows ms, seen)).1 =
          done ++ gatheredMembers first (rows ++ [row]) ms ∧
        AllSeen first (rows ++ [row]) (mergeMembers row ms (pathOf root names)
          (done ++ gatheredMembers first rows ms, seen)).2 root names ms ∧
        Grows (fun key => ∃ n ∈ ms.map (·.1), Below root (names ++ [n]) key) seen
          (mergeMembers row ms (pathOf root names) (done ++ gatheredMembers first rows ms, seen)).2
  | [], _, _, _, _, _, _, _, _, _ => ⟨rfl, trivial, .refl ..⟩
  | (n, a) :: ms, names, seen, done, hnodup, hdone, hms, hw, hn, h => by
    obtain ⟨hnew, hnodup⟩ := List.nodup_cons.mp hnodup
    have hsingle : ∀ n' ∈ ((n, a) :: ms).map (·.1), Unslashed (names ++ [n']) := by
      intro n' hn'
      refine hn.append fun m hm => ?_
      rw [List.mem_singleton.mp hm]
      exact hms n' hn'
    have hhead := hsingle n (List.mem_cons_self ..)
    obtain ⟨hvalue, hkeys, hgrows⟩ := mergeAt_gathered hroot a (names ++ [n]) seen hw.1 hhead h.1
    -- What the first member adds is not below the others, and the other way round.
    have hother : ∀ n' ∈ ms.map (·.1), ∀ key, Below root (names ++ [n']) key →
        ¬ Below root (names ++ [n]) key := by
      intro n' hn' key hk
      refine hk.sibling hroot (hsingle n' (List.mem_cons_of_mem _ hn')) hhead ?_
      rintro rfl
      exact hnew hn'
    generalize hst : mergeAt row a (pathOf root (names ++ [n])) (gathered first rows a, seen) = st
      at hvalue hkeys hgrows
    have hdone' : ∀ n' ∈ ms.map (·.1), n' ∉ (done ++ [(n, st.1)]).map (·.1) := by
      intro n' hn' hmem
      rw [List.map_append] at hmem
      rcases List.mem_append.mp hmem with hmem | hmem
      · exact hdone n' (List.mem_cons_of_mem _ hn') hmem
      · exact hnew (List.mem_singleton.mp hmem ▸ hn')
    have hrest := AllSeen.of_grows hgrows ms names hw.2
      (fun m hm => hother m.1 (List.mem_map_of_mem hm)) h.2
    obtain ⟨hvalues, hkeys', hgrows'⟩ := mergeMembers_gathered hroot ms names st.2
      (done ++ [(n, st.1)]) hnodup hdone' (fun n' hn' => hms n' (List.mem_cons_of_mem _ hn')) hw.2 hn
      hrest
    have hstep : mergeMembers row ((n, a) :: ms) (pathOf root names)
        (done ++ gatheredMembers first rows ((n, a) :: ms), seen) =
        mergeMembers row ms (pathOf root names)
          (done ++ [(n, st.1)] ++ gatheredMembers first rows ms, st.2) := by
      rw [gatheredMembers, mergeMembers_cons (hdone n (List.mem_cons_self ..))
        (by rwa [map_fst_gatheredMembers]), ← pathOf_append, hst, List.append_assoc]
      rfl
    rw [hstep]
    refine ⟨?_, ⟨Seen.of_grows hgrows' a _ hw.1 ?_ hkeys, hkeys'⟩, ?_⟩
    · rw [hvalues, hvalue, gatheredMembers, List.append_assoc]
      rfl
    · rintro key hk ⟨n', hn', hk'⟩
      exact hother n' hn' key hk' hk
    · refine (hgrows.mono fun key hk => ⟨n, List.mem_cons_self .., hk⟩).trans (hgrows'.mono ?_)
      rintro key ⟨n', hn', hk⟩
      exact ⟨n', List.mem_cons_of_mem _ hn', hk⟩

end

/-! ## All rows -/

section Keyed

variable {β : Type} {key : Row → String} {value : Row → β} {l : List Row}

theorem lookup_map_key (h : l.Pairwise fun r r' => key r ≠ key r') {r : Row} (hr : r ∈ l) :
    (l.map fun r => (key r, value r)).lookup (key r) = some (value r) := by
  have hnodup : ((l.map fun r => (key r, value r)).map (·.1)).Nodup := by
    rw [List.map_map]
    exact List.pairwise_map.mpr h
  exact Entries.lookup_of_mem hnodup (List.mem_map_of_mem hr)

theorem put_map_key (h : l.Pairwise fun r r' => key r ≠ key r') {r : Row} (hr : r ∈ l) (v : β) :
    Entries.put (key r) v (l.map fun r => (key r, value r)) =
      l.map fun r' => (key r', if key r' = key r then v else value r') := by
  induction l with
  | nil => cases hr
  | cons r' l ih =>
    obtain ⟨hhead, htail⟩ := List.pairwise_cons.mp h
    rw [List.map_cons, List.map_cons, Entries.put]
    rcases List.mem_cons.mp hr with rfl | hr
    · rw [beq_self_eq_true, if_pos rfl, if_pos rfl]
      congr 1
      refine List.map_congr_left fun r' hr' => ?_
      rw [if_neg (hhead r' hr').symm]
    · rw [beq_eq_false_iff_ne.mpr (hhead r hr).symm, if_neg (by simp), if_neg (hhead r hr), ih htail hr]

theorem lookup_map_key_eq_none {k : String} (h : ∀ r ∈ l, key r ≠ k) :
    (l.map fun r => (key r, value r)).lookup k = none := by
  rw [List.lookup_eq_none_iff]
  rintro ⟨k', v⟩ hmem
  obtain ⟨r, hr, he⟩ := List.mem_map.mp hmem
  rw [bne_iff_ne, ← congrArg Prod.fst he]
  exact (h r hr).symm

end Keyed

mutual

theorem Seen.nil : ∀ (a : Activator) (names : List String), a.WellNamed →
    (∀ key ∈ seen, ¬ Below root names key) → Seen first [] seen root names a
  | .cell _, _, _, _ => by rw [Seen]; trivial
  | .object _ _ members, names, hw, h => by
    rw [WellNamed] at hw
    rw [Seen]
    intro _
    refine AllSeen.nil members names hw.2.2 fun m hm key hk hb => ?_
    exact h key hk (hb.up (hw.2.1 m.1 (List.mem_map_of_mem hm)))
  | .collection element, names, _, h => by
    rw [Seen]
    intro row
    refine ⟨fun hk => absurd ?_ (h _ hk), fun ⟨_, hr, _⟩ => absurd hr List.not_mem_nil⟩
    exact ⟨[], row, _, fun _ hn => absurd hn List.not_mem_nil, by rw [List.append_nil]⟩

theorem AllSeen.nil : ∀ (ms : List (String × Activator)) (names : List String), AllWellNamed ms →
    (∀ m ∈ ms, ∀ key ∈ seen, ¬ Below root (names ++ [m.1]) key) →
    AllSeen first [] seen root names ms
  | [], _, _, _ => by rw [AllSeen]; trivial
  | (n, a) :: ms, names, hw, h => by
    rw [AllWellNamed] at hw
    rw [AllSeen]
    have hhead := Seen.nil a (names ++ [n]) hw.1 (h (n, a) (List.mem_cons_self ..))
    have htail := AllSeen.nil ms names hw.2 fun m hm => h m (List.mem_cons_of_mem _ hm)
    exact ⟨hhead, htail⟩

end

/-- The rows read so far are grouped by their root, and the keys seen are those of their elements. -/
structure Grouped (a : Activator) (rows : List Row) (st : List (String × Json) × List String) :
    Prop where
  roots : st.1 = (firsts (Row.alike a.rootIdentity) rows).map fun r =>
    (r.identity a.rootIdentity, a.gathered r (rows.filter (Row.alike a.rootIdentity r)))
  keys : ∀ r ∈ firsts (Row.alike a.rootIdentity) rows,
    Seen r (rows.filter (Row.alike a.rootIdentity r)) st.2 (r.identity a.rootIdentity) [] a
  known : ∀ key ∈ st.2, ∃ r ∈ rows, Below (r.identity a.rootIdentity) [] key

theorem pairwise_identity (cells : List Nat) (rows : List Row) :
    (firsts (Row.alike cells) rows).Pairwise fun r r' => r.identity cells ≠ r'.identity cells := by
  refine (firsts_pairwise (Row.alike cells) rows).imp fun h he => ?_
  rw [Row.alike_iff.mpr he] at h
  cases h

theorem eq_of_identity {cells : List Nat} {rows : List Row} {r r' : Row}
    (hr : r ∈ firsts (Row.alike cells) rows) (hr' : r' ∈ firsts (Row.alike cells) rows)
    (h : r.identity cells = r'.identity cells) : r = r' :=
  List.inj_on_of_nodup_map (List.pairwise_map.mpr (pairwise_identity cells rows)) hr hr' h

theorem filter_alike_concat {cells : List Nat} (r row : Row) (rows : List Row) :
    (rows ++ [row]).filter (Row.alike cells r) =
      if r.identity cells = row.identity cells then rows.filter (Row.alike cells r) ++ [row]
      else rows.filter (Row.alike cells r) := by
  rw [List.filter_append, List.filter_singleton]
  by_cases h : r.identity cells = row.identity cells
  · rw [Row.alike_iff.mpr h, if_pos h, cond_true]
  · rw [Bool.eq_false_iff.mpr (mt Row.alike_iff.mp h), if_neg h, cond_false, List.append_nil]

namespace Grouped

variable {a : Activator} {st : List (String × Json) × List String}

theorem readRow_eq (ha : ∀ element, a ≠ .collection element) {v : Json}
    (hv : (st.1.lookup (row.identity a.rootIdentity)).getD (a.build row) = v) :
    a.readRow st row =
      (Entries.put (row.identity a.rootIdentity)
          (mergeAt row a (pathOf (row.identity a.rootIdentity) []) (v, st.2)).1 st.1,
        (mergeAt row a (pathOf (row.identity a.rootIdentity) []) (v, st.2)).2) := by
  have hat : ∀ path st, mergeAt row a path st = merge row a path st := by
    cases a with
    | collection element => exact absurd rfl (ha element)
    | _ => exact fun _ _ => rfl
  rw [Activator.readRow, hat, hv]
  rfl

theorem known_concat {seen' : List String} (h : Grouped a rows st)
    (hg : Grows (Below (row.identity a.rootIdentity) []) st.2 seen') :
    ∀ key ∈ seen', ∃ r ∈ rows ++ [row], Below (r.identity a.rootIdentity) [] key := by
  intro key hk
  rcases hg.new key hk with hk | hk
  · obtain ⟨r, hr, hb⟩ := h.known key hk
    exact ⟨r, List.mem_append_left _ hr, hb⟩
  · exact ⟨row, List.mem_append_right _ (List.mem_singleton.mpr rfl), hk⟩

theorem keys_of_ne {seen' : List String} (hw : a.WellNamed) (h : Grouped a rows st)
    (hg : Grows (Below (row.identity a.rootIdentity) []) st.2 seen') {r : Row}
    (hr : r ∈ firsts (Row.alike a.rootIdentity) rows)
    (hne : r.identity a.rootIdentity ≠ row.identity a.rootIdentity) :
    Seen r ((rows ++ [row]).filter (Row.alike a.rootIdentity r)) seen' (r.identity a.rootIdentity)
      [] a := by
  rw [filter_alike_concat, if_neg hne]
  refine Seen.of_grows hg a [] hw (fun key hk hk' => hne ?_) (h.keys r hr)
  have hnil : Unslashed [] := fun _ hn => absurd hn List.not_mem_nil
  exact (hk.unique (r.closed_identity _) (row.closed_identity _) hnil hnil hk').1

theorem readRow_old (ha : ∀ element, a ≠ .collection element) (hw : a.WellNamed)
    (h : Grouped a rows st) {f : Row} (hf : f ∈ firsts (Row.alike a.rootIdentity) rows)
    (hid : f.identity a.rootIdentity = row.identity a.rootIdentity) :
    Grouped a (rows ++ [row]) (a.readRow st row) := by
  have hpair := pairwise_identity a.rootIdentity rows
  have hvalue : (st.1.lookup (row.identity a.rootIdentity)).getD (a.build row) =
      a.gathered f (rows.filter (Row.alike a.rootIdentity f)) := by
    rw [h.roots, ← hid, lookup_map_key hpair hf]
    rfl
  have hkeys := h.keys f hf
  rw [hid] at hkeys
  have hmerged : Merged f (rows.filter (Row.alike a.rootIdentity f)) row st.2 _ [] a _ :=
    mergeAt_gathered (row.closed_identity _) a [] st.2 hw (fun _ hn => absurd hn List.not_mem_nil) hkeys
  have hfirsts : firsts (Row.alike a.rootIdentity) (rows ++ [row]) =
      firsts (Row.alike a.rootIdentity) rows := by
    rw [firsts_concat, if_pos]
    exact List.any_eq_true.mpr ⟨f, hf, Row.alike_iff.mpr hid⟩
  rw [readRow_eq ha hvalue]
  refine ⟨?_, ?_, h.known_concat hmerged.grows⟩
  · rw [hfirsts, h.roots, ← hid, put_map_key hpair hf, hid]
    refine List.map_congr_left fun r hr => ?_
    rw [filter_alike_concat]
    by_cases hr' : r.identity a.rootIdentity = row.identity a.rootIdentity
    · cases eq_of_identity hr hf (hr'.trans hid.symm)
      rw [if_pos hr', if_pos hr', hmerged.value]
    · rw [if_neg hr', if_neg hr']
  · rw [hfirsts]
    intro r hr
    by_cases hr' : r.identity a.rootIdentity = row.identity a.rootIdentity
    · cases eq_of_identity hr hf (hr'.trans hid.symm)
      rw [filter_alike_concat, if_pos hid, hid]
      exact hmerged.keys
    · exact h.keys_of_ne hw hmerged.grows hr hr'

theorem readRow_new (ha : ∀ element, a ≠ .collection element) (hw : a.WellNamed)
    (h : Grouped a rows st)
    (hid : ∀ r ∈ rows, r.identity a.rootIdentity ≠ row.identity a.rootIdentity) :
    Grouped a (rows ++ [row]) (a.readRow st row) := by
  have hnil : Unslashed [] := fun _ hn => absurd hn List.not_mem_nil
  have hid' : ∀ r ∈ firsts (Row.alike a.rootIdentity) rows,
      r.identity a.rootIdentity ≠ row.identity a.rootIdentity :=
    fun r hr => hid r (mem_of_mem_firsts hr)
  have hnone : st.1.lookup (row.identity a.rootIdentity) = none := by
    rw [h.roots]
    exact lookup_map_key_eq_none hid'
  have hvalue : (st.1.lookup (row.identity a.rootIdentity)).getD (a.build row) =
      a.gathered row [] := by
    rw [hnone, gathered_nil]
    rfl
  -- A key below this root could only come from an earlier row of it.
  have hseen : Seen row [] st.2 (row.identity a.rootIdentity) [] a := by
    refine Seen.nil a [] hw fun key hk hb => ?_
    obtain ⟨r, hr, hb'⟩ := h.known key hk
    exact hid r hr (hb'.unique (r.closed_identity _) (row.closed_identity _) hnil hnil hb).1
  have hmerged : Merged row [] row st.2 _ [] a _ :=
    mergeAt_gathered (row.closed_identity _) a [] st.2 hw hnil hseen
  have hfirsts : firsts (Row.alike a.rootIdentity) (rows ++ [row]) =
      firsts (Row.alike a.rootIdentity) rows ++ [row] := by
    rw [firsts_concat, if_neg]
    intro hany
    obtain ⟨r, hr, hsame⟩ := List.any_eq_true.mp hany
    exact hid' r hr (Row.alike_iff.mp hsame)
  have hgroup : (rows ++ [row]).filter (Row.alike a.rootIdentity row) = [] ++ [row] := by
    rw [filter_alike_concat, if_pos rfl, List.filter_eq_nil_iff.mpr]
    exact fun r hr hsame => hid r hr (Row.alike_iff.mp hsame).symm
  rw [readRow_eq ha hvalue]
  refine ⟨?_, ?_, h.known_concat hmerged.grows⟩
  · rw [hfirsts, List.map_append, List.map_singleton, hgroup, hmerged.value,
      Entries.put_of_not_has (by rw [Entries.has, hnone]; rfl), h.roots]
    refine congrArg (· ++ [_]) ?_
    refine List.map_congr_left fun r hr => ?_
    rw [filter_alike_concat, if_neg (hid' r hr)]
  · rw [hfirsts]
    intro r hr
    rcases List.mem_append.mp hr with hr | hr
    · exact h.keys_of_ne hw hmerged.grows hr (hid' r hr)
    · rw [List.mem_singleton.mp hr, hgroup]
      exact hmerged.keys

theorem readRow (ha : ∀ element, a ≠ .collection element) (hw : a.WellNamed)
    (h : Grouped a rows st) (row : Row) : Grouped a (rows ++ [row]) (a.readRow st row) := by
  by_cases hold : ∃ r ∈ rows, r.identity a.rootIdentity = row.identity a.rootIdentity
  · obtain ⟨r, hr, hid⟩ := hold
    obtain ⟨f, hf, hsame⟩ := exists_mem_firsts (fun _ => Row.alike_iff.mpr rfl) hr
    exact h.readRow_old ha hw hf ((Row.alike_iff.mp hsame).trans hid)
  · exact h.readRow_new ha hw fun r hr hid => hold ⟨r, hr, hid⟩

theorem foldl_readRow (ha : ∀ element, a ≠ .collection element) (hw : a.WellNamed) (rows : List Row) :
    Grouped a rows (rows.foldl a.readRow ([], [])) := by
  induction rows using List.reverseRecOn with
  | nil => exact ⟨rfl, fun _ hr => (by cases hr), fun _ hk => absurd hk List.not_mem_nil⟩
  | append_singleton rows row ih =>
    rw [List.foldl_append]
    exact ih.readRow ha hw row

end Grouped

/-- **The reader groups rows by their root and elements by their identity.** It gives one value for
each root, in order of first appearance. -/
theorem read_eq {a : Activator} (hc : a.hasCollection = true) (ha : ∀ element, a ≠ .collection element)
    (hw : a.WellNamed) (rows : List Row) :
    a.read rows = (firsts (Row.alike a.rootIdentity) rows).map fun r =>
      a.gathered r (rows.filter (Row.alike a.rootIdentity r)) := by
  rw [read, if_pos hc, (Grouped.foldl_readRow ha hw rows).roots, List.map_map]
  rfl

end Activator

end EntityQuery
