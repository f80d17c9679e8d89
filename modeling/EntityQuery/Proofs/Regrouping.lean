import EntityQuery.Proofs.Gathering

/-! # Reading rows with collections

A group of rows gives the value that its first row builds, with the elements that all its rows bring
in place of the empty collections. The reader finds groups and elements by text keys. How far these
keep apart what they stand for, and where they do not, is the second half of this module. -/

namespace EntityQuery
set_option autoImplicit false

namespace Activator

/-! ## Filling collections -/

mutual

/-- The value, with the elements that the rows bring in every collection that it holds. Where an object
is missing its collections are missing too. -/
def fill (rows : List Row) : Activator → Json → Json
  | .object _ _ members, .object fields => .object (fillMembers rows members fields)
  | .collection element, _ => .list ((element.elements rows).map fun row => element.build row)
  | _, v => v

/-- The fields, with the elements that the rows bring in the collections below them. -/
def fillMembers (rows : List Row) :
    List (String × Activator) → List (String × Json) → List (String × Json)
  | [], fields => fields
  | (n, a) :: ms, fields => fillMembers rows ms (updateField n (fill rows a) fields)

end

theorem fillMembers_sorted (rows : List Row) (ms : List (String × Activator))
    (fields : List (String × Json)) :
    fillMembers rows ms (sorted fields) = sorted (fillMembers rows ms fields) := by
  induction ms generalizing fields with
  | nil => rfl
  | cons m ms ih =>
    obtain ⟨n, a⟩ := m
    rw [fillMembers, fillMembers, updateField_sorted, ih]

theorem map_fst_buildMembers (row : Row) (ms : List (String × Activator)) :
    (buildMembers row ms).map (·.1) = ms.map (·.1) := by
  rw [← gatheredMembers_nil, map_fst_gatheredMembers]

mutual

theorem fill_build (first : Row) (rows : List Row) : ∀ a : Activator, a.WellNamed →
    a.fill rows (a.build first) = a.gathered first rows
  | .cell _, _ => by simp [fill, build, gathered]
  | .collection _, _ => rfl
  | .object e identity members, hw => by
    rw [build, gathered]
    split
    · rfl
    · have hmembers := fillMembers_build first rows members [] hw.1 (fun _ _ => List.not_mem_nil) hw.2.2
      rw [List.nil_append, List.nil_append] at hmembers
      have hfields : Json.ofFields (buildMembers first members) =
          .object (sorted (buildMembers first members)) := rfl
      rw [hfields, fill, fillMembers_sorted, hmembers]
      rfl

theorem fillMembers_build (first : Row) (rows : List Row) : ∀ (ms : List (String × Activator))
    (done : List (String × Json)), (ms.map (·.1)).Nodup → (∀ n ∈ ms.map (·.1), n ∉ done.map (·.1)) →
    AllWellNamed ms →
    fillMembers rows ms (done ++ buildMembers first ms) = done ++ gatheredMembers first rows ms
  | [], _, _, _, _ => rfl
  | (n, a) :: ms, done, hnodup, hdone, hw => by
    obtain ⟨hnew, hnodup⟩ := List.nodup_cons.mp hnodup
    have hhead : n ∉ done.map (·.1) := hdone n (List.mem_cons_self ..)
    have hrest : n ∉ (buildMembers first ms).map (·.1) := by rwa [map_fst_buildMembers]
    have hdone' : ∀ n' ∈ ms.map (·.1), n' ∉ (done ++ [(n, a.gathered first rows)]).map (·.1) := by
      intro n' hn' hmem
      rw [List.map_append] at hmem
      rcases List.mem_append.mp hmem with hmem | hmem
      · exact hdone n' (List.mem_cons_of_mem _ hn') hmem
      · exact hnew (List.mem_singleton.mp hmem ▸ hn')
    have hmembers := fillMembers_build first rows ms _ hnodup hdone' hw.2
    rw [List.append_assoc, List.append_assoc] at hmembers
    rw [fillMembers, buildMembers, updateField_append hhead hrest, fill_build first rows a hw.1]
    exact hmembers

end

/-- **Reading is grouping.** Rows that agree in the texts of the root's cells are one group, and each
group gives one value, in order of first appearance. It is what the group's first row builds, with
every collection filled: one element for each identity among the rows of the group that is not all
null, in order of first appearance. -/
theorem read_regroups {a : Activator} {entity : Option String} {identity : List Nat}
    {members : List (String × Activator)} (ha : a = .object entity identity members)
    (hc : a.hasCollection = true) (hn : a.WellNamed) (rows : List Row) :
    a.read rows = (firsts (Row.alike a.rootIdentity) rows).map fun first =>
      a.fill (rows.filter (Row.alike a.rootIdentity first)) (a.build first) := by
  have hobject : ∀ element, a ≠ .collection element := by
    intro element he
    rw [ha] at he
    cases he
  rw [read_eq hc hobject hn rows]
  refine List.map_congr_left fun first _ => ?_
  rw [fill_build first _ a hn]

end Activator

namespace Sample

/-- Users with their orders, and with the streets of their city. -/
def residents : Activator :=
  .object (some "User") [0] [("id", .cell 0),
    ("orders", .collection (.object (some "Order") [1] [("id", .cell 1)])),
    ("city", .object (some "City") [2] [("id", .cell 2), ("streets", .collection (.cell 3))])]

/-- Rows of two users in turn; the second one has no city, and the last row is short. -/
def residentRows : List Row :=
  [[.int 1, .int 7, .int 5, .text "elm"], [.int 2, .int 9, .null, .text "oak"],
    [.int 1, .int 8, .int 5, .text "elm"], [.int 1, .int 7, .int 5, .text "ash"], [.int 2]]

end Sample

namespace Activator

theorem read_regroups_residents :
    (Sample.residents.read Sample.residentRows).map Json.compact =
      [.object [("city", .object [("id", .int 5), ("streets", .list [.text "elm", .text "ash"])]),
          ("id", .int 1), ("orders", .list [.object [("id", .int 7)], .object [("id", .int 8)]])],
        .object [("city", .null), ("id", .int 2),
          ("orders", .list [.object [("id", .int 9)]])]].map Json.compact := by
  have hn : Sample.residents.WellNamed := by
    simp only [Sample.residents, WellNamed, AllWellNamed, Unslashed]
    decide
  have hread := read_regroups (a := Sample.residents) rfl rfl hn Sample.residentRows
  rw [hread]
  decide +kernel

/-! ## Keys and what they stand for -/

/-- A collection that rows are merged into: the names that lead to it, and its elements. -/
structure Place where
  path : List String
  element : Activator

mutual

/-- The collections outside other collections, in the order in which a row is merged into them. -/
def places (path : List String) : Activator → List Place
  | .cell _ => []
  | .object _ _ members => memberPlaces path members
  | .collection element => [⟨path, element⟩]

def memberPlaces (path : List String) : List (String × Activator) → List Place
  | [] => []
  | (n, a) :: ms => places (path ++ [n]) a ++ memberPlaces path ms

end

mutual

/-- Member names outside collections are different in each object. -/
def UniquelyNamed : Activator → Prop
  | .cell _ => True
  | .object _ _ members => (members.map (·.1)).Nodup ∧ AllUniquelyNamed members
  | .collection _ => True

def AllUniquelyNamed : List (String × Activator) → Prop
  | [] => True
  | (_, a) :: ms => UniquelyNamed a ∧ AllUniquelyNamed ms

end

mutual

theorem exists_path_of_mem_places : ∀ (a : Activator) (path : List String), ∀ p ∈ a.places path,
    ∃ more, p.path = path ++ more
  | .cell _, _, _, hp => by cases hp
  | .object _ _ members, path, p, hp => by
    obtain ⟨n, -, more, hmore⟩ := exists_path_of_mem_memberPlaces members path p hp
    exact ⟨n :: more, hmore⟩
  | .collection _, path, p, hp => by
    rw [List.mem_singleton.mp hp]
    exact ⟨[], (List.append_nil path).symm⟩

theorem exists_path_of_mem_memberPlaces : ∀ (ms : List (String × Activator)) (path : List String),
    ∀ p ∈ memberPlaces path ms, ∃ n ∈ ms.map (·.1), ∃ more, p.path = path ++ n :: more
  | [], _, _, hp => by cases hp
  | (n, a) :: ms, path, p, hp => by
    rcases List.mem_append.mp hp with hp | hp
    · obtain ⟨more, hmore⟩ := exists_path_of_mem_places a (path ++ [n]) p hp
      rw [List.append_assoc] at hmore
      exact ⟨n, List.mem_cons_self .., more, hmore⟩
    · obtain ⟨n', hn', hmore⟩ := exists_path_of_mem_memberPlaces ms path p hp
      exact ⟨n', List.mem_cons_of_mem _ hn', hmore⟩

end

mutual

theorem place_eq_of_path : ∀ (a : Activator) (path : List String), a.UniquelyNamed →
    ∀ p ∈ a.places path, ∀ p' ∈ a.places path, p.path = p'.path → p = p'
  | .cell _, _, _, _, hp, _, _, _ => by cases hp
  | .object _ _ members, path, hu, p, hp, p', hp', he =>
    memberPlace_eq_of_path members path hu.1 hu.2 p hp p' hp' he
  | .collection _, _, _, _, hp, _, hp', _ => by rw [List.mem_singleton.mp hp, List.mem_singleton.mp hp']

theorem memberPlace_eq_of_path : ∀ (ms : List (String × Activator)) (path : List String),
    (ms.map (·.1)).Nodup → AllUniquelyNamed ms →
    ∀ p ∈ memberPlaces path ms, ∀ p' ∈ memberPlaces path ms, p.path = p'.path → p = p'
  | [], _, _, _, _, hp, _, _, _ => by cases hp
  | (n, a) :: ms, path, hnodup, hu, p, hp, p', hp', he => by
    obtain ⟨hnew, hnodup⟩ := List.nodup_cons.mp hnodup
    -- The first name after the path tells the member of a collection below it.
    have hother : ∀ q ∈ a.places (path ++ [n]), ∀ q' ∈ memberPlaces path ms, q.path ≠ q'.path := by
      intro q hq q' hq' hqq
      obtain ⟨more, hmore⟩ := exists_path_of_mem_places a _ q hq
      obtain ⟨n', hn', more', hmore'⟩ := exists_path_of_mem_memberPlaces ms path q' hq'
      rw [hmore, hmore', List.append_assoc, List.append_cancel_left_eq] at hqq
      exact hnew ((List.cons.inj hqq).1 ▸ hn')
    rcases List.mem_append.mp hp with hp | hp
    · rcases List.mem_append.mp hp' with hp' | hp'
      · exact place_eq_of_path a _ hu.1 p hp p' hp' he
      · exact absurd he (hother p hp p' hp')
    · rcases List.mem_append.mp hp' with hp' | hp'
      · exact absurd he.symm (hother p' hp' p hp)
      · exact memberPlace_eq_of_path ms path hnodup hu.2 p hp p' hp' he

end

/-- A row on its way into a collection. -/
structure Visit where
  row : Row
  place : Place

namespace Visit

/-- Whether the row has no element for the collection. -/
def isAbsent (v : Visit) : Bool := v.row.isAbsent v.place.element.elementIdentity

/-- The texts of the cells that identify the element. -/
def element (v : Visit) : List String := v.row.texts v.place.element.elementIdentity

/-- The key that the reader notes for the element. -/
def key (a : Activator) (v : Visit) : String :=
  keyOf (v.row.identity a.rootIdentity) v.place.path (v.row.identity v.place.element.elementIdentity)

/-- The keys noted after the visit. -/
def note (a : Activator) (seen : List String) (v : Visit) : List String :=
  if v.isAbsent || seen.contains (v.key a) then seen else v.key a :: seen

/-- Two visits have one key if and only if they agree in the texts of the root's cells, in the text of
the path and in the texts of the element's cells. -/
theorem key_eq_iff {a : Activator} {v v' : Visit} :
    v.key a = v'.key a ↔
      v.row.texts a.rootIdentity = v'.row.texts a.rootIdentity ∧
        pathOf "" v.place.path = pathOf "" v'.place.path ∧ v.element = v'.element := by
  constructor
  · intro h
    obtain ⟨hroot, hpath, hid⟩ := keyOf_parts (v.row.closed_identity _) (v'.row.closed_identity _)
      (v.row.closed_identity _) (v'.row.closed_identity _) h
    exact ⟨Row.identity_inj.mp hroot, hpath, Row.identity_inj.mp hid⟩
  · rintro ⟨hroot, hpath, hid⟩
    have hnames : ∀ root : String, pathOf root v.place.path = pathOf root v'.place.path := by
      intro root
      have hlist := congrArg String.toList hpath
      rw [toList_pathOf, toList_pathOf, List.append_cancel_left_eq] at hlist
      rw [← String.toList_inj, toList_pathOf, toList_pathOf, hlist]
    rw [key, key, Row.identity_inj.mpr hroot, Row.identity_inj.mpr hid, keyOf, keyOf, hnames]

theorem mem_note {a : Activator} {k : String} {v : Visit} {seen : List String} :
    k ∈ note a seen v ↔ k ∈ seen ∨ v.isAbsent = false ∧ v.key a = k := by
  rw [note]
  split
  · rename_i hold
    refine (or_iff_left_of_imp ?_).symm
    rintro ⟨hpresent, rfl⟩
    rw [hpresent, Bool.false_or, List.contains_iff_mem] at hold
    exact hold
  · rename_i hnew
    rw [Bool.or_eq_true, not_or, Bool.not_eq_true] at hnew
    rw [List.mem_cons, or_comm]
    refine or_congr_right ⟨fun hk => ⟨hnew.1, hk.symm⟩, fun hk => hk.2.symm⟩

theorem mem_foldl_note {a : Activator} {k : String} (visits : List Visit) (seen : List String) :
    k ∈ visits.foldl (note a) seen ↔
      k ∈ seen ∨ ∃ v ∈ visits, v.isAbsent = false ∧ v.key a = k := by
  induction visits generalizing seen with
  | nil => simp
  | cons v visits ih =>
    rw [List.foldl_cons, ih, mem_note, or_assoc]
    simp only [List.mem_cons, exists_eq_or_imp]

/-- The visits are for one element of one collection of one root. -/
structure Alike (a : Activator) (v v' : Visit) : Prop where
  root : v.row.texts a.rootIdentity = v'.row.texts a.rootIdentity
  place : v.place = v'.place
  element : v.element = v'.element

theorem key_eq_iff_alike {a : Activator} (hu : a.UniquelyNamed)
    (hs : ∀ p ∈ a.places [], Unslashed p.path) {v v' : Visit} (hv : v.place ∈ a.places [])
    (hv' : v'.place ∈ a.places []) : v.key a = v'.key a ↔ v.Alike a v' := by
  rw [key_eq_iff]
  constructor
  · rintro ⟨hroot, htext, helement⟩
    have hpath : v.place.path = v'.place.path := pathOf_inj (hs _ hv) (hs _ hv') htext
    exact ⟨hroot, place_eq_of_path a [] hu _ hv _ hv' hpath, helement⟩
  · rintro ⟨hroot, hplace, helement⟩
    exact ⟨hroot, by rw [hplace], helement⟩

end Visit

/-! ## The visits of a run -/

mutual

/-- The collections that a row is merged into, given the value so far: those below objects that are
there. -/
def visited (path : List String) : Activator → Json → List Place
  | .object _ _ members, .object fields => visitedMembers path members fields
  | _, _ => []

def visitedMembers (path : List String) :
    List (String × Activator) → List (String × Json) → List Place
  | [], _ => []
  | (n, .collection element) :: ms, fields => ⟨path ++ [n], element⟩ :: visitedMembers path ms fields
  | (n, a) :: ms, fields =>
    match fields.lookup n with
    | some v => visited (path ++ [n]) a v ++ visitedMembers path ms fields
    | none => visitedMembers path ms fields

end

/-- All visits that the reader makes for rows, one after the other. -/
def visits (a : Activator) : List Row → List (String × Json) × List String → List Visit
  | [], _ => []
  | row :: rows, st =>
    (a.visited [] ((st.1.lookup (row.identity a.rootIdentity)).getD (a.build row))).map (Visit.mk row) ++
      visits a rows (a.readRow st row)

mutual

theorem visited_subset : ∀ (a : Activator) (path : List String) (v : Json),
    a.visited path v ⊆ a.places path
  | .cell _, _, _ => List.nil_subset _
  | .collection _, _, _ => List.nil_subset _
  | .object _ _ members, path, v => by
    cases v with
    | object fields => exact visitedMembers_subset members path fields
    | _ => exact List.nil_subset _

theorem visitedMembers_subset : ∀ (ms : List (String × Activator)) (path : List String)
    (fields : List (String × Json)), visitedMembers path ms fields ⊆ memberPlaces path ms
  | [], _, _ => List.nil_subset _
  | (n, a) :: ms, path, fields => by
    have hms := visitedMembers_subset ms path fields
    cases a with
    | collection element => exact List.cons_subset_cons _ hms
    | _ =>
      simp only [visitedMembers]
      split
      · rename_i v _
        intro p hp
        rcases List.mem_append.mp hp with hp | hp
        · exact List.mem_append_left _ (visited_subset _ _ v hp)
        · exact List.mem_append_right _ (hms hp)
      · exact fun p hp => List.mem_append_right _ (hms hp)

end

theorem lookup_updateField_of_ne {n m : String} (h : m ≠ n) (f : Json → Json)
    (fields : List (String × Json)) : (updateField n f fields).lookup m = fields.lookup m := by
  rw [updateField_eq]
  induction fields with
  | nil => rfl
  | cons field fields ih =>
    rw [List.map_cons, List.lookup_cons, List.lookup_cons, ih]
    by_cases hm : m = field.1
    · have hf : (field.1 == n) = false := beq_eq_false_iff_ne.mpr (hm ▸ h)
      rw [hf]
      rfl
    · rw [beq_eq_false_iff_ne.mpr hm]

theorem visitedMembers_updateField {n : String} {ms : List (String × Activator)}
    (hn : n ∉ ms.map (·.1)) (path : List String) (f : Json → Json) (fields : List (String × Json)) :
    visitedMembers path ms (updateField n f fields) = visitedMembers path ms fields := by
  induction ms with
  | nil => rfl
  | cons m ms ih =>
    obtain ⟨n', a⟩ := m
    rw [List.map_cons, List.mem_cons, not_or] at hn
    have hlookup := lookup_updateField_of_ne (Ne.symm hn.1) f fields
    cases a with
    | collection element => simp only [visitedMembers, ih hn.2]
    | _ => simp only [visitedMembers, hlookup, ih hn.2]

section Run

variable (whole : Activator) (row : Row)

theorem gather_seen (path : List String) (n : String) (element : Activator)
    (st : List (String × Json) × List String) :
    (gather row (pathOf (row.identity whole.rootIdentity) path ++ "/" ++ n) n element st).2 =
      Visit.note whole st.2 ⟨row, path ++ [n], element⟩ := by
  rw [← pathOf_append, gather, apply_ite Prod.snd]
  rfl

mutual

theorem merge_seen : ∀ (a : Activator) (path : List String) (st : Json × List String), a.UniquelyNamed →
    (merge row a (pathOf (row.identity whole.rootIdentity) path) st).2 =
      ((a.visited path st.1).map (Visit.mk row)).foldl (Visit.note whole) st.2
  | .cell _, _, _, _ => rfl
  | .collection _, _, _, _ => rfl
  | .object _ _ members, path, st, hu => by
    obtain ⟨v, seen⟩ := st
    cases v with
    | object fields => exact mergeMembers_seen members path fields seen hu.1 hu.2
    | _ => rfl

theorem mergeMembers_seen : ∀ (ms : List (String × Activator)) (path : List String)
    (fields : List (String × Json)) (seen : List String), (ms.map (·.1)).Nodup → AllUniquelyNamed ms →
    (mergeMembers row ms (pathOf (row.identity whole.rootIdentity) path) (fields, seen)).2 =
      ((visitedMembers path ms fields).map (Visit.mk row)).foldl (Visit.note whole) seen
  | [], _, _, _, _, _ => rfl
  | (n, a) :: ms, path, fields, seen, hnodup, hu => by
    obtain ⟨hnew, hnodup⟩ := List.nodup_cons.mp hnodup
    have hrest := fun fields seen => mergeMembers_seen ms path fields seen hnodup hu.2
    have hsame := visitedMembers_updateField hnew path
    cases a with
    | collection element =>
      have hseen := gather_seen whole row path n element (fields, seen)
      have hfields : ∀ p, visitedMembers path ms (gather row p n element (fields, seen)).1 =
          visitedMembers path ms fields := by
        intro p
        rw [gather]
        split
        · rfl
        · exact hsame _ fields
      rw [mergeMembers, visitedMembers, List.map_cons, List.foldl_cons, ← hseen, ← hfields]
      exact hrest _ _
    | _ =>
      cases hlookup : fields.lookup n with
      | none =>
        simp only [mergeMembers, visitedMembers, hlookup]
        exact hrest fields seen
      | some v =>
        have hmember := merge_seen _ (path ++ [n]) (v, seen) hu.1
        simp only [mergeMembers, visitedMembers, hlookup]
        rw [hrest, hsame, ← pathOf_append, hmember, List.map_append, List.foldl_append]

end

theorem readRow_seen (hu : whole.UniquelyNamed) (st : List (String × Json) × List String) :
    (whole.readRow st row).2 =
      ((whole.visited [] ((st.1.lookup (row.identity whole.rootIdentity)).getD (whole.build row))).map
        (Visit.mk row)).foldl (Visit.note whole) st.2 :=
  merge_seen whole row whole [] (_, st.2) hu

theorem foldl_readRow_seen (hu : whole.UniquelyNamed) (rows : List Row)
    (st : List (String × Json) × List String) :
    (rows.foldl whole.readRow st).2 = (whole.visits rows st).foldl (Visit.note whole) st.2 := by
  induction rows generalizing st with
  | nil => rfl
  | cons row rows ih =>
    rw [List.foldl_cons, ih, visits, List.foldl_append, readRow_seen whole row hu]

theorem place_of_mem_visits {rows : List Row} {st : List (String × Json) × List String} {v : Visit}
    (hv : v ∈ whole.visits rows st) : v.place ∈ whole.places [] := by
  induction rows generalizing st with
  | nil => cases hv
  | cons row rows ih =>
    rcases List.mem_append.mp hv with hv | hv
    · obtain ⟨p, hp, rfl⟩ := List.mem_map.mp hv
      exact visited_subset whole [] _ hp
    · exact ih hv

end Run

/-- **Keys tell elements apart**, provided that no name on the way to a collection has a slash in it:
two visits have one key only if they are for one element of one collection of one root. So when the
reader comes to a collection and leaves an element out as seen, an earlier visit has brought that
element to the same collection of the same root. -/
theorem keys_tell_apart {a : Activator} (hu : a.UniquelyNamed)
    (hs : ∀ p ∈ a.places [], Unslashed p.path) :
    (∀ v v' : Visit, v.place ∈ a.places [] → v'.place ∈ a.places [] →
      (v.key a = v'.key a ↔ v.Alike a v')) ∧
    ∀ rows : List Row,
      (rows.foldl a.readRow ([], [])).2 = (a.visits rows ([], [])).foldl (Visit.note a) [] ∧
      ∀ before v after, a.visits rows ([], []) = before ++ v :: after →
        (v.key a ∈ before.foldl (Visit.note a) [] ↔
          ∃ v' ∈ before, v'.isAbsent = false ∧ v'.Alike a v) := by
  have hkeys : ∀ v v' : Visit, v.place ∈ a.places [] → v'.place ∈ a.places [] →
      (v.key a = v'.key a ↔ v.Alike a v') := fun v v' => Visit.key_eq_iff_alike hu hs
  refine ⟨hkeys, fun rows => ⟨foldl_readRow_seen a hu rows ([], []), ?_⟩⟩
  intro before v after hvisits
  have hplace : ∀ v' ∈ before ++ v :: after, v'.place ∈ a.places [] := by
    intro v' hv'
    exact place_of_mem_visits a (hvisits ▸ hv')
  have hv : v.place ∈ a.places [] := hplace v (List.mem_append_right _ (List.mem_cons_self ..))
  rw [Visit.mem_foldl_note, or_iff_right List.not_mem_nil]
  refine exists_congr fun v' => and_congr_right fun hv' => and_congr_right fun _ => ?_
  exact hkeys v' v (hplace v' (List.mem_append_left _ hv')) hv

end Activator

namespace Sample

/-- Two collections, and the name of one is that of the other with a hash and an identity after it. -/
def hashed : Activator :=
  .object none [] [("id", .cell 0), ("a", .collection (.cell 1)), ("a#1", .collection (.cell 2))]

/-- A member of two names with a slash between them, beside an object and its member. -/
def slashed : Activator :=
  .object none [] [("id", .cell 0), ("a/b", .collection (.cell 1)),
    ("a", .object none [] [("b", .collection (.cell 2))])]

end Sample

namespace Activator

theorem keys_tell_apart_hashed :
    Sample.hashed.UniquelyNamed ∧ (∀ p ∈ Sample.hashed.places [], Unslashed p.path) ∧
      ∀ row row' : Row, Visit.key Sample.hashed ⟨row, ["a"], .cell 1⟩ ≠
        Visit.key Sample.hashed ⟨row', ["a#1"], .cell 2⟩ := by
  have hu : Sample.hashed.UniquelyNamed := by
    simp only [Sample.hashed, UniquelyNamed, AllUniquelyNamed]
    decide
  have hs : ∀ p ∈ Sample.hashed.places [], Unslashed p.path := by
    simp only [Sample.hashed, places, memberPlaces, Unslashed]
    decide
  refine ⟨hu, hs, fun row row' hkey => ?_⟩
  have halike := ((keys_tell_apart hu hs).1 _ _ (List.mem_cons_self ..)
    (List.mem_cons_of_mem _ (List.mem_cons_self ..))).mp hkey
  have hpath : ["a"] = ["a#1"] := congrArg Place.path halike.place
  exact absurd hpath (by decide)

/-- With a slash in a name, two collections of one root can have a key in common, and then one of
them misses its element. -/
theorem slash_shares_keys :
    Sample.slashed.UniquelyNamed ∧
      (∃ v v' : Visit, v.place ∈ Sample.slashed.places [] ∧ v'.place ∈ Sample.slashed.places [] ∧
        v.place.path ≠ v'.place.path ∧ v.key Sample.slashed = v'.key Sample.slashed) ∧
      (Sample.slashed.read [[.int 1, .int 10, .int 10]]).map Json.compact =
        [.object [("a", .object [("b", .list [])]), ("a/b", .list [.int 10]), ("id", .int 1)]].map
          Json.compact := by
  refine ⟨?_, ⟨⟨[.int 1, .int 10, .int 10], ["a/b"], .cell 1⟩,
    ⟨[.int 1, .int 10, .int 10], ["a", "b"], .cell 2⟩, ?_, ?_, by decide, by decide +kernel⟩,
    by decide +kernel⟩
  · simp only [Sample.slashed, UniquelyNamed, AllUniquelyNamed]
    decide
  · exact List.mem_cons_self ..
  · exact List.mem_cons_of_mem _ (List.mem_cons_self ..)

end Activator

end EntityQuery
