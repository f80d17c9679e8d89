import EntityQuery.Proofs.Correctness
import EntityQuery.Proofs.Gathering
import EntityQuery.Proofs.Loading

/-! # Eager loading

Chains of navigations are loaded by left joins, which repeat the rows of an entity and mix those of
its collections, and the reader has to undo this. What comes out are the entity's rows in order, each
once, with the related rows that the chains ask for. -/

namespace EntityQuery
set_option autoImplicit false

variable {I : Interpretation} {db : Database} {env : Env}

/-! ## Keys of entities -/

theorem Catalog.WellFormed.target {catalog : Catalog} (h : catalog.WellFormed) {e : Entity}
    {name : String} {link : Draft.Link} (hl : e.link? catalog name = some link) :
    link.target.WellFormed := by
  obtain ⟨-, target, -, -, -, -, -, htarget⟩ := Entity.link?_eq_some.mp hl
  exact h.entities _ _ htarget

theorem Database.keyed_target {catalog : Catalog} (h : ∀ n e, catalog.entity? n = some e → db.Keyed e)
    {e : Entity} {name : String} {link : Draft.Link} (hl : e.link? catalog name = some link) :
    db.Keyed link.target := by
  obtain ⟨-, target, -, -, -, -, -, htarget⟩ := Entity.link?_eq_some.mp hl
  exact h _ _ htarget

theorem Entity.keyValues_ne_nil {e : Entity} (h : e.WellFormed) (row : String → Json) :
    e.keyValues row ≠ [] := by
  obtain ⟨k, key, hkey⟩ := List.exists_cons_of_ne_nil h.keyed
  obtain ⟨p, hp, -⟩ := property?_of_key h.key (k := k) (by rw [hkey]; exact List.mem_cons_self ..)
  rw [keyValues, hkey, List.filterMap_cons, hp]
  exact List.cons_ne_nil _ _

/-! ## Recipes of entities -/

namespace Activator

variable {P : Nat → Sql.Expr → Prop}

theorem ReadsMembers.names {as : List (String × Activator)} {ms : List (String × Shape)}
    (h : ReadsMembers P as ms) : as.map (·.1) = ms.map (·.1) := by
  induction as generalizing ms with
  | nil =>
    cases ms with
    | nil => rfl
    | cons m ms => exact h.elim
  | cons a as ih =>
    cases ms with
    | nil => exact h.elim
    | cons m ms =>
      obtain ⟨hn, -, hrest⟩ := h
      rw [List.map_cons, List.map_cons, ih hrest, hn]

theorem ReadsMembers.append {as : List (String × Activator)} {ms inner : List (String × Shape)}
    (h : ReadsMembers P as (ms ++ inner)) :
    ∃ as₁ as₂, as = as₁ ++ as₂ ∧ ReadsMembers P as₁ ms ∧ ReadsMembers P as₂ inner := by
  induction ms generalizing as with
  | nil => exact ⟨[], as, rfl, trivial, h⟩
  | cons m ms ih =>
    cases as with
    | nil => exact h.elim
    | cons a as =>
      obtain ⟨hn, ha, hrest⟩ := h
      obtain ⟨as₁, as₂, rfl, h₁, h₂⟩ := ih hrest
      exact ⟨a :: as₁, as₂, rfl, ⟨hn, ha, h₁⟩, h₂⟩

/-- The recipes of the columns of an entity under a label. -/
def Columns (P : Nat → Sql.Expr → Prop) (e : Entity) (l : String) (cols : List (String × Activator)) :
    Prop :=
  List.Forall₂ (fun c p => ∃ i, c = (p.name, .cell i) ∧ P i (.column ⟨l, p.columnName⟩)) cols
    e.primitives

/-- The recipe builds the object of an entity under a label, with navigations besides the columns. -/
def Builds (P : Nat → Sql.Expr → Prop) (e : Entity) (l : String) (navs : List (String × Activator))
    (a : Activator) : Prop :=
  ∃ n cols, a = .object n (Shape.identityCells e.key (cols ++ navs)) (cols ++ navs) ∧ Columns P e l cols

theorem columns_of_reads {e : Entity} {l : String} (hw : e.WellFormed) {cols : List (String × Activator)}
    (h : ReadsMembers P cols (ObjectOf.ofEntity e l).members) : Columns P e l cols := by
  rw [ObjectOf.members_of_wellFormed hw] at h
  unfold Columns
  generalize e.primitives = ps at h ⊢
  induction ps generalizing cols with
  | nil =>
    match cols, h with
    | [], _ => exact .nil
  | cons p ps ih =>
    match cols, h with
    | (_, .cell i) :: cols, ⟨hn, hi, hrest⟩ => exact .cons ⟨i, by rw [hn], hi⟩ (ih hrest)

theorem builds_of_reads {e : Entity} {l : String} (hw : e.WellFormed) {a : Activator}
    {o : ObjectOf Shape} {inner : List (String × Shape)} (hkey : o.key = e.key)
    (hm : o.members = (ObjectOf.ofEntity e l).members ++ inner) (ha : a.Reads P (.object o)) :
    ∃ navs, a.Builds P e l navs ∧ ReadsMembers P navs inner := by
  match a, ha with
  | .object n ids as, ⟨hids, h⟩ =>
    rw [hm] at h
    obtain ⟨cols, navs, rfl, hcols, hnavs⟩ := h.append
    exact ⟨navs, ⟨n, cols, by rw [hids, hkey], columns_of_reads hw hcols⟩, hnavs⟩

end Activator

/-- The recipes of the navigations of a tree. -/
inductive Placed.Recipes (P : Nat → Sql.Expr → Prop) (catalog : Catalog) :
    Placed → Entity → List (String × Activator) → Prop
  | nil {e : Entity} : Recipes P catalog .nil e []
  | one {step : NavigationStep} {link : Draft.Link} {label : String} {below rest : Placed} {e : Entity}
      {a : Activator} {navs as : List (String × Activator)} :
    e.link? catalog step.property = some link → step.property ∉ as.map (·.1) → link.many = false →
    a.Builds P link.target label navs → Recipes P catalog below link.target navs →
    Recipes P catalog rest e as →
      Recipes P catalog (.cons step link label below rest) e ((step.property, a) :: as)
  | many {step : NavigationStep} {link : Draft.Link} {label : String} {below rest : Placed} {e : Entity}
      {a : Activator} {navs as : List (String × Activator)} :
    e.link? catalog step.property = some link → step.property ∉ as.map (·.1) → link.many = true →
    a.Builds P link.target label navs → Recipes P catalog below link.target navs →
    Recipes P catalog rest e as →
      Recipes P catalog (.cons step link label below rest) e ((step.property, .collection a) :: as)

namespace Placed

variable {P : Nat → Sql.Expr → Prop} {catalog : Catalog} {t : Placed} {e : Entity} {l : String}

theorem notMem_of_find {ms : List (String × Shape)} {name : String} (h : t.Forms ms)
    (hf : t.find? name = none) : name ∉ ms.map (·.1) := by
  induction t generalizing ms with
  | nil =>
    cases h
    exact List.not_mem_nil
  | cons step link label below rest _ ih =>
    obtain ⟨s, ms, rfl, -, -, hrest⟩ := h
    rw [find?] at hf
    split at hf
    · cases hf
    · rename_i hn
      rw [List.map_cons, List.mem_cons, not_or]
      exact ⟨Ne.symm hn, ih hrest hf⟩

theorem recipes_of_forms {inner : List (String × Shape)} {as : List (String × Activator)}
    (hcat : catalog.WellFormed) (ht : t.Linked catalog e) (hforms : t.Forms inner)
    (has : Activator.ReadsMembers P as inner) :
    t.Recipes P catalog e as := by
  induction t generalizing e inner as with
  | nil =>
    cases hforms
    match as, has with
    | [], _ => exact .nil
  | cons step link label below rest ihb ihr =>
    obtain ⟨hlink, hnew, htb, htr⟩ := ht
    obtain ⟨s, ms, rfl, hcoll, ⟨o, inner, ho, -, hkey, hm, hformsb⟩, hformsr⟩ := hforms
    have hw := hcat.target hlink
    match as, has with
    | (n, a) :: as, ⟨hname, ha, hrest⟩ =>
      obtain rfl : n = step.property := hname
      have hr := ihr htr hformsr hrest
      have hnotMem : step.property ∉ as.map (·.1) := by
        rw [hrest.names]
        exact notMem_of_find hformsr hnew
      match s, ho, a, ha with
      | .object o, rfl, a, ha =>
        obtain ⟨navs, hbuilds, hnavs⟩ := Activator.builds_of_reads hw hkey hm ha
        exact .one hlink hnotMem hcoll.symm hbuilds (ihb htb hformsb hnavs) hr
      | .collection (.object o) _ _, rfl, .collection a, ha =>
        obtain ⟨navs, hbuilds, hnavs⟩ := Activator.builds_of_reads hw hkey hm ha
        exact .many hlink hnotMem hcoll.symm hbuilds (ihb htb hformsb hnavs) hr

end Placed

/-! ## Columns and keys -/

/-- The cell holds the value of the expression, whatever the row is made of. -/
def Sql.Expr.InCell (I : Interpretation) (cells : Sql.Valuation → Row) (i : Nat) (e : Sql.Expr) : Prop :=
  ∀ v, (cells v).cell i = e.eval I [v]

namespace Activator

variable {P : Nat → Sql.Expr → Prop} {cells : Sql.Valuation → Row} {cols navs : List (String × Activator)}
  {e : Entity} {l : String}

namespace Columns

theorem names (h : Columns P e l cols) : cols.map (·.1) = e.primitives.map (·.name) := by
  unfold Columns at h
  generalize e.primitives = ps at h ⊢
  induction h with
  | nil => rfl
  | cons hc _ ih =>
    obtain ⟨i, rfl, -⟩ := hc
    rw [List.map_cons, List.map_cons, ih]

theorem cell_of_mem (h : Columns P e l cols) {p : Property} (hp : p ∈ e.primitives) :
    ∃ i, (p.name, .cell i) ∈ cols ∧ P i (.column ⟨l, p.columnName⟩) := by
  unfold Columns at h
  generalize e.primitives = ps at h hp
  induction h with
  | nil => cases hp
  | cons hc _ ih =>
    rcases List.mem_cons.mp hp with rfl | hp
    · obtain ⟨i, rfl, hi⟩ := hc
      exact ⟨i, List.mem_cons_self .., hi⟩
    · obtain ⟨i, hmem, hi⟩ := ih hp
      exact ⟨i, List.mem_cons_of_mem _ hmem, hi⟩

theorem gathered (h : Columns (Sql.Expr.InCell I cells) e l cols) (v : Sql.Valuation) (rows : List Row) :
    gatheredMembers (cells v) rows cols = e.columns (v.row l) := by
  unfold Columns at h
  rw [Entity.columns]
  generalize e.primitives = ps at h ⊢
  induction h with
  | nil => rfl
  | cons hc _ ih =>
    obtain ⟨i, rfl, hi⟩ := hc
    rw [gatheredMembers, ih, Activator.gathered, hi v]
    rfl

theorem lookup_key (hw : e.WellFormed) (h : Columns P e l cols) (navs : List (String × Activator))
    {k : String} (hk : k ∈ e.key) :
    ∃ i p, (cols ++ navs).lookup k = some (.cell i) ∧ e.property? k = some p ∧
      P i (.column ⟨l, p.columnName⟩) := by
  obtain ⟨p, hp, hkind⟩ := Entity.property?_of_key hw.key hk
  have hmem := Entries.mem_of_lookup hp
  obtain ⟨i, hi, hcell⟩ := h.cell_of_mem
    (List.mem_filter.mpr ⟨List.mem_map_of_mem hmem, decide_eq_true hkind⟩)
  have hlookup := Entries.lookup_of_mem (h.names ▸ e.nodup_primitives hw) hi
  refine ⟨i, p, ?_, hp, hcell⟩
  have hname : k = p.name := hw.named _ hmem
  rw [List.lookup_append, hname, hlookup]
  rfl

end Columns

section Key

variable (hw : e.WellFormed) (h : Columns (Sql.Expr.InCell I cells) e l cols)

include hw h

theorem map_cell_identity (navs : List (String × Activator)) (v : Sql.Valuation) :
    (Shape.identityCells e.key (cols ++ navs)).map (cells v).cell = e.keyValues (v.row l) := by
  unfold Shape.identityCells Entity.keyValues
  rw [List.map_filterMap]
  refine List.filterMap_congr fun k hk => ?_
  obtain ⟨i, p, hlookup, hp, hi⟩ := h.lookup_key hw navs hk
  rw [hlookup, hp]
  exact congrArg some (hi v)

theorem identityCells_ne_nil (navs : List (String × Activator)) :
    Shape.identityCells e.key (cols ++ navs) ≠ [] := by
  intro hnil
  have hmap := map_cell_identity hw h navs .null
  rw [hnil] at hmap
  exact e.keyValues_ne_nil hw _ hmap.symm

theorem isAbsent_identity (v : Sql.Valuation) :
    (cells v).isAbsent (Shape.identityCells e.key (cols ++ navs)) = !e.present (v.row l) := by
  rw [Row.isAbsent_eq, map_cell_identity hw h navs v, Entity.present,
    List.isEmpty_eq_false_iff.mpr (e.keyValues_ne_nil hw _), List.not_any_eq_all_not]
  simp

theorem alike_identity (navs : List (String × Activator)) (v w : Sql.Valuation) :
    Row.alike (Shape.identityCells e.key (cols ++ navs)) (cells v) (cells w) =
      e.alike (v.row l) (w.row l) := by
  have htexts : ∀ v, (cells v).texts (Shape.identityCells e.key (cols ++ navs)) =
      e.keyTexts (v.row l) := by
    intro v
    rw [Entity.keyTexts, ← map_cell_identity hw h navs v, List.map_map]
    rfl
  rw [Row.alike, htexts, htexts, Entity.alike]

end Key

/-! ## Objects of a block -/

namespace Builds

variable {a : Activator} {rows : List Row} {v w : Sql.Valuation} (hw : e.WellFormed)
  (h : a.Builds (Sql.Expr.InCell I cells) e l navs)

include hw h

theorem gathered_present (hrow : e.present (v.row l) = true) :
    gathered (cells v) rows a =
      Json.ofFields (e.columns (v.row l) ++ gatheredMembers (cells v) rows navs) := by
  obtain ⟨n, cols, rfl, hcols⟩ := h
  rw [gathered, isAbsent_identity hw hcols v, hrow, Bool.not_true, if_neg Bool.false_ne_true,
    gatheredMembers_append, hcols.gathered]

theorem gathered_absent (hrow : e.present (v.row l) = false) : gathered (cells v) rows a = .null := by
  obtain ⟨n, cols, rfl, hcols⟩ := h
  rw [gathered, isAbsent_identity hw hcols v, hrow, Bool.not_false, if_pos rfl]

/-- The elements of a collection are found in the rows that are the first ones of their key. -/
theorem elements_eq (vs : List Sql.Valuation) :
    ∃ ws ⊆ vs, a.elements (vs.map cells) = ws.map cells ∧
      ws.map (·.row l) = firsts e.alike ((vs.map (·.row l)).filter e.present) := by
  obtain ⟨n, cols, rfl, hcols⟩ := h
  have hidentity : (object n (Shape.identityCells e.key (cols ++ navs)) (cols ++ navs)).elementIdentity =
      Shape.identityCells e.key (cols ++ navs) := by
    obtain ⟨i, is, his⟩ := List.exists_cons_of_ne_nil (identityCells_ne_nil hw hcols navs)
    rw [his]
    rfl
  have hfilter : (vs.map cells).filter
      (fun row => !row.isAbsent (Shape.identityCells e.key (cols ++ navs))) =
        (vs.filter fun v => e.present (v.row l)).map cells := by
    rw [List.filter_map]
    congr 1
    refine List.filter_congr fun v _ => ?_
    rw [Function.comp_apply, isAbsent_identity hw hcols v, Bool.not_not]
  refine ⟨firsts (fun v w => e.alike (v.row l) (w.row l)) (vs.filter fun v => e.present (v.row l)),
    fun w hw => (List.mem_filter.mp (mem_of_mem_firsts hw)).1, ?_, ?_⟩
  · rw [elements, hidentity, hfilter, firsts_map,
      firsts_congr fun v _ w _ => alike_identity hw hcols navs v w]
  · rw [List.filter_map, firsts_map]
    rfl

end Builds

end Activator

namespace Block

variable {label : String} {ns : List Placed.Node} {x : String → Json} {vs : List Sql.Valuation}
  {cells : Sql.Valuation → Row}

section Member

variable {n : Placed.Node} {a : Activator} {navs : List (String × Activator)}
  {fields : (String → Json) → List (String × Json)} {v : Sql.Valuation}
  (hb : Block I db label ns x vs) (hn : n ∈ ns) (hw : n.link.target.WellFormed)
  (hkeyed : db.Keyed n.link.target)
  (ha : a.Builds (Sql.Expr.InCell I cells) n.link.target n.label navs) (hv : v ∈ vs)

include hb hn hw hkeyed ha hv

theorem gathered_one (hone : (n.related I db v).length ≤ 1) {rows : List Row}
    (hfields : v.row n.label ∈ db n.link.target.table →
      Activator.gatheredMembers (cells v) rows navs = fields (v.row n.label)) :
    Activator.gathered (cells v) rows a = ((n.related I db v).map fun r =>
      Json.ofFields (n.link.target.columns r ++ fields r)).headD .null := by
  rcases hb.bound n hn v hv with hrow | ⟨hnone, hrow⟩
  · have hmem := Placed.Node.mem_table_of_related hrow
    have hrelated : n.related I db v = [v.row n.label] := by
      obtain ⟨r, hr⟩ := List.length_eq_one_iff.mp
        (Nat.le_antisymm hone (List.length_pos_iff.mpr (List.ne_nil_of_mem hrow)))
      rw [hr] at hrow
      rw [hr, List.mem_singleton.mp hrow]
    rw [hrelated, ha.gathered_present hw (Entity.present_of_mem hkeyed hmem), hfields hmem]
    rfl
  · rw [hnone, ha.gathered_absent hw]
    · rfl
    · rw [hrow, Entity.present_nullRow]

theorem gathered_many (houter : n.outer = true) (hmany : n.link.many = true)
    (hfields : ∀ w ∈ vs, w.row n.label ∈ db n.link.target.table →
      Activator.gatheredMembers (cells w) [] navs = fields (w.row n.label)) :
    Activator.gathered (cells v) (vs.map cells) (.collection a) = .list ((n.related I db v).map fun r =>
      Json.ofFields (n.link.target.columns r ++ fields r)) := by
  obtain ⟨ws, hsub, helements, hrows⟩ := ha.elements_eq hw vs
  rw [hb.gathered n hn houter hmany v hv] at hrows
  rw [Activator.gathered, helements, ← hrows, List.map_map, List.map_map]
  congr 1
  refine List.map_congr_left fun w hmem => ?_
  have hrow : w.row n.label ∈ n.related I db v := hrows ▸ List.mem_map_of_mem hmem
  have htable := Placed.Node.mem_table_of_related hrow
  rw [Function.comp_apply, ← Activator.gathered_nil,
    ha.gathered_present hw (Entity.present_of_mem hkeyed htable), hfields w (hsub hmem) htable]
  rfl

end Member

variable {catalog : Catalog} {t : Placed} {e : Entity} {l : String} {as : List (String × Activator)}

/-- The navigations of a row hold what they lead to. The rows of the block count only outside
collections, where all of them are about the same row. -/
theorem gathered_fields (hcat : catalog.WellFormed)
    (hdb : ∀ n e, catalog.entity? n = some e → db.Keyed e) (hb : Block I db label ns x vs)
    (hnested : ∀ n ∈ ns, n.outer = false → n.link.many = false)
    (h : t.Recipes (Sql.Expr.InCell I cells) catalog e as) {outer : Bool}
    (hn : t.nodes e l outer ⊆ ns) (hsingle : t.loads.Single I db catalog e) {v : Sql.Valuation}
    (hv : v ∈ vs) (hrow : v.row l ∈ db e.table) :
    Activator.gatheredMembers (cells v) (if outer then vs.map cells else []) as =
      t.loads.fields I db catalog e (v.row l) := by
  induction h generalizing l outer v with
  | nil => rfl
  | @one step link label' below rest e a navs as hlink _ hmany ha _ _ ihb ihr =>
    rw [Placed.nodes, List.cons_subset, List.append_subset] at hn
    obtain ⟨hnode, hnb, hnr⟩ := hn
    rw [hmany, Bool.not_false, Bool.and_true] at hnb
    have hmember := hb.gathered_one hnode (hcat.target hlink) (Database.keyed_target hdb hlink) ha hv
      ((hsingle.1 link hlink).1 hmany _ hrow) fun hr => ihb hnb (hsingle.1 link hlink).2 hv hr
    rw [Activator.gatheredMembers, ihr hnr hsingle.2 hv hrow, hmember]
    simp only [Placed.loads, Loads.fields, hlink, hmany, Bool.false_eq_true, if_false]
    rfl
  | @many step link label' below rest e a navs as hlink _ hmany ha _ _ ihb ihr =>
    rw [Placed.nodes, List.cons_subset, List.append_subset] at hn
    obtain ⟨hnode, hnb, hnr⟩ := hn
    rw [hmany, Bool.not_true, Bool.and_false] at hnb
    cases outer with
    | false =>
      -- No collection is loaded below another one.
      have hone := hnested _ hnode rfl
      rw [hmany] at hone
      cases hone
    | true =>
      have hmember := hb.gathered_many hnode (hcat.target hlink) (Database.keyed_target hdb hlink) ha hv rfl
        hmany
        fun w hw hr => ihb hnb (hsingle.1 link hlink).2 hw hr
      rw [Activator.gatheredMembers, ihr hnr hsingle.2 hv hrow, if_pos rfl, hmember]
      simp only [Placed.loads, Loads.fields, hlink, hmany, if_true]
      rfl

end Block

/-! ## Groups of rows -/

namespace Activator

theorem mem_rootIdentity {a : Activator} {i : Nat} : i ∈ a.rootIdentity ↔ i ∈ a.outerCells := by
  have hfold : ∀ is seen : List Nat, i ∈ is.foldl addNew seen ↔ i ∈ seen ∨ i ∈ is := by
    intro is
    induction is with
    | nil => intro seen; simp
    | cons j is ih =>
      intro seen
      rw [List.foldl_cons, ih, addNew]
      split
      · rename_i hj
        have hmem : i = j → i ∈ seen := fun hij => hij ▸ List.contains_iff_mem.mp hj
        rw [List.mem_cons]
        tauto
      · simp [or_assoc]
  rw [rootIdentity, hfold]
  simp

theorem memberCells_append (as₁ as₂ : List (String × Activator)) :
    memberCells (as₁ ++ as₂) = memberCells as₁ ++ memberCells as₂ := by
  induction as₁ with
  | nil => rfl
  | cons a as₁ ih => rw [List.cons_append, memberCells, memberCells, ih, List.append_assoc]

theorem identityCells_subset (key : List String) (as : List (String × Activator)) :
    Shape.identityCells key as ⊆ memberCells as := by
  intro i hi
  obtain ⟨k, -, hk⟩ := List.mem_filterMap.mp hi
  split at hk
  · rename_i j hj
    cases hk
    obtain ⟨as₁, as₂, rfl, -⟩ := List.lookup_eq_some_iff.mp hj
    rw [memberCells_append, memberCells, outerCells]
    simp
  · cases hk

variable {cells : Sql.Valuation → Row} {cols navs : List (String × Activator)} {a : Activator}
  {e : Entity} {l : String} {v w : Sql.Valuation}

theorem Columns.cell_eq (h : Columns (Sql.Expr.InCell I cells) e l cols) (hrow : v.row l = w.row l) :
    ∀ i ∈ memberCells cols, (cells v).cell i = (cells w).cell i := by
  unfold Columns at h
  generalize e.primitives = ps at h
  induction h with
  | nil => exact fun i hi => absurd hi List.not_mem_nil
  | cons hc _ ih =>
    obtain ⟨i, rfl, hi⟩ := hc
    intro j hj
    rcases List.mem_cons.mp hj with rfl | hj
    · rw [hi v, hi w]
      exact congrFun hrow _
    · exact ih j hj

namespace Builds

variable (h : a.Builds (Sql.Expr.InCell I cells) e l navs)

include h

theorem cell_eq (hrow : v.row l = w.row l)
    (hnavs : ∀ i ∈ memberCells navs, (cells v).cell i = (cells w).cell i) :
    ∀ i ∈ a.outerCells, (cells v).cell i = (cells w).cell i := by
  obtain ⟨n, cols, rfl, hcols⟩ := h
  intro i hi
  rw [outerCells, memberCells_append, List.mem_append] at hi
  exact hi.elim (hcols.cell_eq hrow i) (hnavs i)

theorem alike_of_rootIdentity (hw : e.WellFormed)
    (hroot : Row.alike a.rootIdentity (cells v) (cells w) = true) :
    e.alike (v.row l) (w.row l) = true := by
  obtain ⟨n, cols, rfl, hcols⟩ := h
  rw [← alike_identity hw hcols navs v w, Row.alike, beq_iff_eq]
  rw [Row.alike, beq_iff_eq] at hroot
  refine List.map_congr_left fun i hi => ?_
  exact List.map_inj_left.mp hroot i (mem_rootIdentity.mpr (identityCells_subset _ _ hi))

end Builds

end Activator

theorem Block.cell_eq {label : String} {ns : List Placed.Node} {x : String → Json}
    {vs : List Sql.Valuation} {cells : Sql.Valuation → Row} {catalog : Catalog} {t : Placed} {e : Entity}
    {l : String} {as : List (String × Activator)} (hb : Block I db label ns x vs)
    (h : t.Recipes (Sql.Expr.InCell I cells) catalog e as) (hn : t.nodes e l true ⊆ ns)
    {v w : Sql.Valuation} (hv : v ∈ vs) (hw : w ∈ vs) :
    ∀ i ∈ Activator.memberCells as, (cells v).cell i = (cells w).cell i := by
  induction h generalizing l with
  | nil => exact fun i hi => absurd hi List.not_mem_nil
  | one _ _ hmany ha _ _ ihb ihr =>
    rw [Placed.nodes, List.cons_subset, List.append_subset] at hn
    obtain ⟨hnode, hnb, hnr⟩ := hn
    rw [hmany] at hnb
    intro i hi
    rcases List.mem_append.mp hi with hi | hi
    · exact ha.cell_eq (hb.fixed _ hnode rfl hmany v hv w hw) (ihb hnb) i hi
    · exact ihr hnr i hi
  | many _ _ _ _ _ _ _ ihr =>
    rw [Placed.nodes, List.cons_subset, List.append_subset] at hn
    exact ihr hn.2.2

/-! ## Names -/

namespace Activator

variable {P : Nat → Sql.Expr → Prop} {cols navs : List (String × Activator)} {a : Activator}
  {e : Entity} {l : String}

theorem allWellNamed_append {as₁ as₂ : List (String × Activator)} (h₁ : AllWellNamed as₁)
    (h₂ : AllWellNamed as₂) : AllWellNamed (as₁ ++ as₂) := by
  induction as₁ with
  | nil => exact h₂
  | cons a as₁ ih => exact ⟨h₁.1, ih h₁.2⟩

theorem anyCollection_append (as₁ as₂ : List (String × Activator)) :
    anyCollection (as₁ ++ as₂) = (anyCollection as₁ || anyCollection as₂) := by
  induction as₁ with
  | nil => rfl
  | cons a as₁ ih => rw [List.cons_append, anyCollection, anyCollection, ih, Bool.or_assoc]

theorem Columns.allWellNamed (h : Columns P e l cols) : AllWellNamed cols := by
  unfold Columns at h
  generalize e.primitives = ps at h
  induction h with
  | nil => trivial
  | cons hc _ ih =>
    obtain ⟨i, rfl, -⟩ := hc
    exact ⟨trivial, ih⟩

end Activator

theorem Entity.mem_primitives {e : Entity} {p : Property} :
    p ∈ e.primitives ↔ (∃ q ∈ e.properties, q.2 = p) ∧ p.kind = .primitive := by
  rw [primitives, List.mem_filter, List.mem_map, decide_eq_true_iff]

namespace Placed.Recipes

variable {P : Nat → Sql.Expr → Prop} {catalog : Catalog} {t : Placed} {e : Entity}
  {as : List (String × Activator)}

theorem link_of_mem (h : t.Recipes P catalog e as) {name : String} (hn : name ∈ as.map (·.1)) :
    ∃ link, e.link? catalog name = some link := by
  induction h with
  | nil => cases hn
  | one hlink _ _ _ _ _ _ ihr | many hlink _ _ _ _ _ _ ihr =>
    rcases List.mem_cons.mp hn with rfl | hn
    · exact ⟨_, hlink⟩
    · exact ihr hn

theorem nodup_names (h : t.Recipes P catalog e as) : (as.map (·.1)).Nodup := by
  induction h with
  | nil => exact List.nodup_nil
  | one _ hnew _ _ _ _ _ ihr | many _ hnew _ _ _ _ _ ihr => exact List.nodup_cons.mpr ⟨hnew, ihr⟩

theorem wellNamed_object (hw : e.WellFormed) (h : t.Recipes P catalog e as)
    (hall : Activator.AllWellNamed as) {l : String} {a : Activator} (ha : a.Builds P e l as) :
    a.WellNamed := by
  obtain ⟨n, cols, rfl, hcols⟩ := ha
  have hnavigation : ∀ name ∈ as.map (·.1), ∃ p, e.property? name = some p ∧
      p.kind.isNavigation = true := by
    intro name hn
    obtain ⟨link, hlink⟩ := h.link_of_mem hn
    obtain ⟨p, -, hp, hnav, -⟩ := Entity.link?_eq_some.mp hlink
    exact ⟨p, hp, hnav⟩
  refine ⟨?_, ?_, Activator.allWellNamed_append hcols.allWellNamed hall⟩
  · rw [List.map_append, hcols.names]
    refine List.nodup_append.mpr ⟨e.nodup_primitives hw, h.nodup_names, ?_⟩
    rintro _ hcol name hn rfl
    obtain ⟨p, hp, hnav⟩ := hnavigation _ hn
    obtain ⟨_, hp', rfl⟩ := List.mem_map.mp hcol
    obtain ⟨⟨q, hq, rfl⟩, hkind⟩ := Entity.mem_primitives.mp hp'
    rw [Entity.property?_of_mem hw hq, Option.some.injEq] at hp
    rw [← hp, hkind] at hnav
    cases hnav
  · rw [List.map_append, hcols.names]
    refine Activator.Unslashed.append (fun name hn => ?_) fun name hn => ?_
    · obtain ⟨p, hp, rfl⟩ := List.mem_map.mp hn
      obtain ⟨⟨q, hq, rfl⟩, -⟩ := Entity.mem_primitives.mp hp
      rw [← hw.named q hq]
      exact hw.unslashed q hq
    · obtain ⟨p, hp, -⟩ := hnavigation name hn
      exact hw.unslashed _ (Entries.mem_of_lookup hp)

theorem allWellNamed (hcat : catalog.WellFormed) (h : t.Recipes P catalog e as) :
    Activator.AllWellNamed as := by
  induction h with
  | nil => trivial
  | one hlink _ _ ha hb _ ihb ihr => exact ⟨hb.wellNamed_object (hcat.target hlink) ihb ha, ihr⟩
  | many _ _ _ _ _ _ _ ihr => exact ⟨trivial, ihr⟩

theorem toOne (h : t.Recipes P catalog e as) (hc : Activator.anyCollection as = false) {l : String}
    {outer : Bool} : ∀ n ∈ t.nodes e l outer, n.link.many = false := by
  induction h generalizing l outer with
  | nil => exact fun n hn => absurd hn List.not_mem_nil
  | one _ _ hmany ha _ _ ihb ihr =>
    rw [Activator.anyCollection, Bool.or_eq_false_iff] at hc
    obtain ⟨_, cols, rfl, -⟩ := ha
    rw [Activator.hasCollection, Activator.anyCollection_append, Bool.or_eq_false_iff] at hc
    intro n hn
    rw [Placed.nodes, List.mem_cons, List.mem_append] at hn
    rcases hn with rfl | hn | hn
    · exact hmany
    · exact ihb hc.1.2 n hn
    · exact ihr hc.2 n hn
  | many => cases hc

end Placed.Recipes

/-! ## What is read -/

/-- The rows of blocks are read root by root. -/
theorem Activator.read_blocks {a : Activator} {cells : Sql.Valuation → Row} {xs : List (String → Json)}
    {block : (String → Json) → List Sql.Valuation} {object : (String → Json) → Json}
    (ha : ∀ element, a ≠ .collection element) (hnamed : a.WellNamed) (hne : ∀ x ∈ xs, block x ≠ [])
    (hsame : ∀ x ∈ xs, ∀ v ∈ block x, ∀ w ∈ block x,
      Row.alike a.rootIdentity (cells v) (cells w) = true)
    (hapart : xs.Pairwise fun x y => ∀ v ∈ block x, ∀ w ∈ block y,
      Row.alike a.rootIdentity (cells v) (cells w) = false)
    (hone : a.hasCollection = false → ∀ x ∈ xs, (block x).length = 1)
    (hobject : ∀ x ∈ xs, ∀ v ∈ block x, a.gathered (cells v) ((block x).map cells) = object x) :
    a.read ((xs.flatMap block).map cells) = xs.map object := by
  rw [List.map_flatMap]
  cases hc : a.hasCollection with
  | false =>
    -- Every row is read for itself, and each block has just one.
    rw [read, hc, if_neg Bool.false_ne_true, List.map_flatMap, List.map_eq_flatMap (l := xs)]
    refine List.flatMap_congr fun x hx => ?_
    obtain ⟨v, hv⟩ := List.length_eq_one_iff.mp (hone hc x hx)
    have hbuild := hobject x hx v (by rw [hv]; exact List.mem_singleton_self v)
    rw [gathered_flat _ _ _ hc] at hbuild
    rw [hv, List.map_singleton, List.map_singleton, hbuild]
  | true =>
    -- Each block leaves its first row, and all rows of the block are gathered there.
    have hhead : ∀ x ∈ xs, ∃ rest, block x = (block x).headD .null :: rest := by
      intro x hx
      obtain ⟨v, rest, hv⟩ := List.exists_cons_of_ne_nil (hne x hx)
      exact ⟨rest, by rw [hv]; rfl⟩
    have hmem : ∀ x ∈ xs, (block x).headD .null ∈ block x := by
      intro x hx
      obtain ⟨rest, hrest⟩ := hhead x hx
      rw [hrest]
      exact List.mem_cons_self ..
    have hfirsts : firsts (Row.alike a.rootIdentity) (xs.flatMap fun x => (block x).map cells) =
        xs.map fun x => cells ((block x).headD .null) := by
      refine firsts_flatMap_blocks (fun x hx => ?_) (hapart.imp_of_mem fun hx hy h r hr => ?_)
      · obtain ⟨rest, hrest⟩ := hhead x hx
        refine ⟨rest.map cells, ?_, fun r hr => ?_⟩
        · rw [← List.map_cons, ← hrest]
        · obtain ⟨w, hw, rfl⟩ := List.mem_map.mp hr
          exact hsame x hx _ (hmem x hx) w (by rw [hrest]; exact List.mem_cons_of_mem _ hw)
      · obtain ⟨w, hw, rfl⟩ := List.mem_map.mp hr
        exact h _ (hmem _ hx) w hw
    rw [read_eq hc ha hnamed, hfirsts, List.map_map]
    refine List.map_congr_left fun x hx => ?_
    have hfilter : (xs.flatMap fun x => (block x).map cells).filter
        (Row.alike a.rootIdentity (cells ((block x).headD .null))) = (block x).map cells := by
      refine filter_flatMap_blocks (f := fun x => (block x).map cells) (Row.alike_comm a.rootIdentity)
        (fun y hy => ?_) (hapart.imp fun h => ?_) hx (List.mem_map_of_mem (hmem x hx))
      · simp only [List.forall_mem_map]
        exact hsame y hy
      · simp only [List.forall_mem_map]
        exact h
    rw [Function.comp_apply, hfilter, hobject x hx _ (hmem x hx)]

namespace Query.Loading

variable {root : Entity} {label : String} {t : Placed} {q : Query} {ns : List Placed.Node}

theorem scalars_of_forms {inner : List (String × Shape)} (h : t.Forms inner) :
    ∀ e ∈ Shape.memberScalars inner, ∃ c, e = .column c := by
  induction t generalizing inner with
  | nil =>
    cases h
    exact fun e he => absurd he List.not_mem_nil
  | cons step link label below rest ihb ihr =>
    obtain ⟨s, ms, rfl, -, ⟨o, inner, ho, -, -, hm, hformsb⟩, hformsr⟩ := h
    intro e he
    rw [Shape.memberScalars, Shape.scalars_owner ho, hm, Scope.memberScalars_append, List.mem_append,
      List.mem_append] at he
    rcases he with (he | he) | he
    · obtain ⟨p, -, rfl⟩ := Shape.scalars_ofEntity he
      exact ⟨_, rfl⟩
    · exact ihb hformsb e he
    · exact ihr hformsr e he

theorem rows_eq (h : Query.Loading I db env root label t q ns) :
    (Mapping.ofQuery env q).statement.rows I db = (q.draft.sources.valuations I db).map
      fun v => Query.cells I (Mapping.ofQuery env q).statement.columns [v] := by
  have hloaded := h.place.loaded
  obtain ⟨o, inner, ho, -, -, hm, hforms⟩ := h.place.stands
  have hplain : ∀ e ∈ q.draft.result.scalars, e.hasAggregate = false := by
    intro e he
    rw [Shape.scalars_owner ho, hm, Scope.memberScalars_append, List.mem_append] at he
    rcases he with he | he
    · obtain ⟨p, -, rfl⟩ := Shape.scalars_ofEntity he
      rfl
    · obtain ⟨c, rfl⟩ := scalars_of_forms hforms e he
      rfl
  rw [widens_ofQuery.clauses, rows_eq_window hloaded.groupBy hloaded.having hloaded.orderings,
    collapses_eq_false hloaded.having selects_ofQuery hplain, if_neg Bool.false_ne_true,
    Draft.kept_of_none hloaded.condition, List.map_map]
  unfold statement
  rw [h.stage]
  rfl

/-- **What is loaded is read**: an object for each row of the root's table, in order, with all that
its navigations lead to. -/
theorem read_eq (hI : I.Lawful) (hcat : env.catalog.WellFormed)
    (hdb : ∀ n e, env.catalog.entity? n = some e → db.Keyed e)
    (h : Query.Loading I db env root label t q ns) (hsingle : t.loads.Single I db env.catalog root) :
    (Mapping.ofQuery env q).read ((Mapping.ofQuery env q).statement.rows I db) =
      (db root.table).map (t.loads.object I db env.catalog root) := by
  have hw := hcat.entities _ _ h.place.entity
  have hkeyed := hdb _ _ h.place.entity
  obtain ⟨block, hvaluations, hblocks⟩ := h.place.loaded.blocks
  have hreads : (Mapping.ofQuery env q).activator.Reads (Sql.Expr.InCell I
      fun v => Query.cells I (Mapping.ofQuery env q).statement.columns [v]) q.draft.result :=
    (Shape.activator_reads env.settings.columnStem q.draft.result none q.statement
      (List.prefix_refl _)).mono (fun i e hc v =>
        Row.cell_map (fun a b hab => Sql.Expr.eval_congr hI hab [v]) hc) _ _
  obtain ⟨o, inner, ho, -, hkey, hm, hforms⟩ := h.place.stands
  have hresult : q.draft.result = .object o := by
    have hobject := h.object
    match q.draft.result, hobject, ho with
    | .object _, _, rfl => rfl
  rw [hresult] at hreads
  obtain ⟨navs, hbuilds, hnavs⟩ := Activator.builds_of_reads hw hkey hm hreads
  have hrecipes := Placed.recipes_of_forms hcat h.place.linked hforms hnavs
  rw [Mapping.read, h.rows_eq, hvaluations]
  refine Activator.read_blocks ?_ (hrecipes.wellNamed_object hw (hrecipes.allWellNamed hcat) hbuilds)
    (fun x hx => (hblocks x hx).nonempty) ?_ ?_ ?_ ?_
  · intro element heq
    obtain ⟨n, cols, ha, -⟩ := hbuilds
    exact Activator.noConfusion (ha.symm.trans heq)
  · -- Rows of one block agree in all that is read outside collections.
    intro x hx v hv w hw
    have hrow : v.row label = w.row label := by
      rw [(hblocks x hx).root v hv, (hblocks x hx).root w hw]
    have hcells := hbuilds.cell_eq hrow ((hblocks x hx).cell_eq hrecipes h.place.nodes hv hw)
    rw [Row.alike, beq_iff_eq]
    refine List.map_congr_left fun i hi => ?_
    rw [hcells i (Activator.mem_rootIdentity.mp hi)]
  · -- Among what is read outside collections is the key, which tells two rows of the table apart.
    refine (Entity.pairwise_alike hkeyed).imp_of_mem fun {x y} hx hy hne v hv w hv' => ?_
    by_contra hroot
    have halike := hbuilds.alike_of_rootIdentity hw (Bool.of_not_eq_false hroot)
    rw [(hblocks x hx).root v hv, (hblocks y hy).root w hv', hne] at halike
    cases halike
  · intro hc x hx
    refine (hblocks x hx).single fun n hn => hrecipes.toOne ?_ n (h.all hn)
    obtain ⟨n, cols, ha, -⟩ := hbuilds
    rw [ha, Activator.hasCollection, Activator.anyCollection_append, Bool.or_eq_false_iff] at hc
    exact hc.2
  · intro x hx v hv
    have hrow := (hblocks x hx).root v hv
    have hmem : v.row label ∈ db root.table := hrow ▸ hx
    have hfields := (hblocks x hx).gathered_fields hcat hdb h.place.loaded.nested hrecipes h.place.nodes
      hsingle hv hmem
    rw [if_pos rfl] at hfields
    rw [hbuilds.gathered_present hw (Entity.present_of_mem hkeyed hmem), hfields, hrow]
    rfl

end Query.Loading

/-- **Eager loading is correct.** The statement of any chains of navigations, executed by nested left
joins and read back, gives one object for each row of the entity's table, in order: its columns, for
each loaded navigation to one the object of the related row or null, and for each one to many the
objects of all related rows in the order of their table, and so on below. -/
theorem compile_loads (hI : I.Lawful) (hnull : ∀ v, I.compare .eq .null v ≠ some true)
    (hcat : env.catalog.WellFormed) (hdb : ∀ n e, env.catalog.entity? n = some e → db.Keyed e)
    {entity : String} {chains : List NavigationChain} {m : Mapping}
    (hfree : ∀ c ∈ chains, ∀ step ∈ c.steps, step.AggregateFree)
    (hsingle : ∀ e, env.catalog.entity? entity = some e →
      (Loads.ofChains chains).Single I db env.catalog e)
    (h : compile env entity (chains.map .load) = .ok m) :
    ∃ e, env.catalog.entity? entity = some e ∧ (Loads.ofChains chains).Known env.catalog e ∧
      m.read (m.statement.rows I db) =
        (db e.table).map ((Loads.ofChains chains).object I db env.catalog e) := by
  obtain ⟨q, hq, rfl⟩ := compile_eq_ok.mp h
  obtain ⟨q₀, hq₀, ha⟩ := bind_eq_ok.mp hq
  obtain ⟨e, label, he, h₀⟩ := Query.Loading.of_root hcat hq₀
  obtain ⟨t, ns, hloads, hl⟩ := h₀.acceptAll hI hnull hcat hdb hfree (hsingle e he) ha
  have hchains : t.loads = Loads.ofChains chains := hloads
  refine ⟨e, he, hchains ▸ Placed.known_loads hl.place.linked, ?_⟩
  rw [hl.read_eq hI hcat hdb (hchains ▸ hsingle e he), hchains]

/-! ## A sample run -/

namespace Sample

theorem catalog_wellFormed : catalog.WellFormed :=
  have hentity : user.WellFormed ∧ city.WellFormed ∧ order.WellFormed := by
    refine ⟨?_, ?_, ?_⟩ <;>
      exact ⟨by decide, by decide, by decide, by decide, by decide⟩
  ((Catalog.wellFormed_empty.withEntity hentity.1).withEntity hentity.2.1).withEntity hentity.2.2

/-- The city of users, and their paid orders with the user that they belong to. -/
def withOrders : List NavigationChain :=
  [⟨[{ property := "city" }]⟩,
    ⟨[{ property := "orders", filter := some ⟨[x], .member (.param x) "paid"⟩ }, { property := "user" }]⟩]

theorem database_keyed {n : String} {e : Entity} (h : catalog.entity? n = some e) :
    database.Keyed e := by
  have hmem : (n, e) ∈ catalog.entities := Entries.mem_of_lookup h
  have hkeyed : ∀ q ∈ catalog.entities, ∀ row ∈ database q.2.table,
      ∃ v ∈ q.2.keyValues row, Row.isNull v = false := by
    simp [catalog, database, user, city, order, Entity.keyValues, Entity.property?, Property.ofColumn,
      Property.columnName, Row.isNull]
  have hdistinct : ∀ q ∈ catalog.entities, ((database q.2.table).map q.2.keyTexts).Nodup := by
    decide +kernel
  exact ⟨hkeyed _ hmem, hdistinct _ hmem⟩

theorem withOrders_single : (Loads.ofChains withOrders).Single interpretation database catalog user := by
  have hcity : ((database user.table).all fun row => decide
      ((NavigationStep.related interpretation database { property := "city" } user
        ⟨false, city, ⟨"city_id", "id"⟩⟩ row).length ≤ 1)) = true := by decide +kernel
  have huser : ((database order.table).all fun row => decide
      ((NavigationStep.related interpretation database { property := "user" } order
        ⟨false, user, ⟨"user_id", "id"⟩⟩ row).length ≤ 1)) = true := by decide +kernel
  simp only [List.all_eq_true, decide_eq_true_iff] at hcity huser
  refine ⟨fun link hl => ?_, fun link hl => ?_, trivial⟩
  · obtain rfl := Option.some.inj hl
    exact ⟨fun _ => hcity, trivial⟩
  · obtain rfl := Option.some.inj hl
    refine ⟨fun hmany => absurd hmany (by decide), fun link hl => ?_, trivial⟩
    obtain rfl := Option.some.inj hl
    exact ⟨fun _ => huser, trivial⟩

/-- A paid order of the first user, with the user. -/
def paidOrder (id : Int) : Json :=
  .object [("amount", .null), ("id", .int id), ("paid", .bool true),
    ("user", .object [("age", .int 30), ("city_id", .int 5), ("id", .int 1), ("name", .text "ann")]),
    ("user_id", .int 1)]

/-- The users with what is loaded. -/
def usersWithOrders : List Json :=
  [.object [("age", .int 30), ("city", .object [("id", .int 5), ("name", .text "oslo")]),
      ("city_id", .int 5), ("id", .int 1), ("name", .text "ann"),
      ("orders", .list [paidOrder 7, paidOrder 8])],
    .object [("age", .int 40), ("city", .null), ("city_id", .null), ("id", .int 2),
      ("name", .text "bob"), ("orders", .list [])],
    .object [("age", .int 9), ("city", .null), ("city_id", .null), ("id", .int 3),
      ("name", .text "cid"), ("orders", .list [])]]

end Sample

theorem compile_loads_orders : ∃ m,
    compile Sample.env "User" (Sample.withOrders.map .load) = .ok m ∧
      m.statement.sources.joins.length = 3 ∧
      (m.read (m.statement.rows Sample.interpretation Sample.database)).map Json.compact =
        Sample.usersWithOrders.map Json.compact := by
  have h : (do
      let m ← compile Sample.env "User" (Sample.withOrders.map .load)
      pure m.statement.sources.joins.length : Except CompileError Nat) = .ok 3 :=
        ok_of_toOption (by decide +kernel)
  simp only [bind_eq_ok, pure_eq_ok] at h
  obtain ⟨m, hm, hn⟩ := h
  refine ⟨m, hm, hn, ?_⟩
  have hnull : ∀ v, Sample.interpretation.compare .eq .null v ≠ some true := by
    intro v htrue
    cases v <;> cases htrue
  have hfree : ∀ c ∈ Sample.withOrders, ∀ step ∈ c.steps, step.AggregateFree := by
    simp [Sample.withOrders, NavigationStep.AggregateFree]
    decide
  obtain ⟨e, he, -, hread⟩ := compile_loads Sample.interpretation_lawful hnull Sample.catalog_wellFormed
    (fun n e => Sample.database_keyed) hfree (fun e he => Option.some.inj he ▸ Sample.withOrders_single) hm
  rw [hread, ← Option.some.inj he]
  decide +kernel

end EntityQuery
