import EntityQuery.Proofs.Placement

/-! # The rows of chained left joins

The tables of loaded navigations are joined one after the other, in the order of the chains. Each
row of the entity's table becomes a block of rows. In a block, the rows of navigations outside
collections are all the same, and the rows of a collection, each kept once, are the related ones in
the order of their table: further joins only repeat what is there. -/

namespace EntityQuery
set_option autoImplicit false

variable {I : Interpretation} {db : Database}

/-! ## Rows by label -/

/-- The row of an outer join where nothing matches. -/
def nullRow : String → Json := fun _ => .null

namespace Sql.Valuation

/-- The row that is visible under a label. -/
def row (v : Valuation) (label : String) : String → Json := fun name => v ⟨label, name⟩

@[simp] theorem row_bind_self (v : Valuation) (label : String) (r : String → Json) :
    (v.bind label r).row label = r := by
  funext name
  simp [row, bind]

theorem row_bind_of_ne (v : Valuation) {l label : String} (h : l ≠ label) (r : String → Json) :
    (v.bind label r).row l = v.row l := by
  funext name
  simp [row, bind, h]

end Sql.Valuation

/-! ## Keys -/

namespace Entity

/-- Whether the key of a row is not all null. -/
def present (e : Entity) (row : String → Json) : Bool := (e.keyValues row).any fun v => !Row.isNull v

/-- Whether two rows have the same key. -/
def alike (e : Entity) (row row' : String → Json) : Bool := e.keyTexts row == e.keyTexts row'

theorem alike_refl (e : Entity) (row : String → Json) : e.alike row row = true := beq_self_eq_true _

theorem present_nullRow (e : Entity) : e.present nullRow = false := by
  rw [present, List.any_eq_false]
  intro v hv
  obtain ⟨k, -, hk⟩ := List.mem_filterMap.mp hv
  obtain ⟨p, -, rfl⟩ := Option.map_eq_some_iff.mp hk
  simp [nullRow, Row.isNull]

theorem present_of_mem {e : Entity} (h : db.Keyed e) {row : String → Json} (hr : row ∈ db e.table) :
    e.present row = true := by
  obtain ⟨v, hv, hnull⟩ := h.present row hr
  exact List.any_eq_true.mpr ⟨v, hv, by rw [hnull]; rfl⟩

theorem pairwise_alike {e : Entity} (h : db.Keyed e) :
    (db e.table).Pairwise fun row row' => e.alike row row' = false := by
  refine (List.pairwise_map.mp h.distinct).imp fun hne => ?_
  exact beq_eq_false_iff_ne.mpr hne

end Entity

/-! ## Navigations in a row -/

namespace Placed.Node

variable (I db) in
/-- The rows that the navigation leads to. -/
def related (n : Node) (v : Sql.Valuation) : List (String → Json) :=
  n.step.related I db n.owner n.link (v.row n.ownerLabel)

variable (I db) in
/-- The row of the navigation is a related one, or the null row if there is none. -/
def Bound (n : Node) (v : Sql.Valuation) : Prop :=
  v.row n.label ∈ n.related I db v ∨ n.related I db v = [] ∧ v.row n.label = nullRow

variable (I db) in
/-- What a left join makes of a row. -/
def extend (n : Node) (v : Sql.Valuation) : List Sql.Valuation :=
  if (n.related I db v).isEmpty then [v.bind n.label nullRow]
  else (n.related I db v).map (v.bind n.label)

variable {n : Node} {v w : Sql.Valuation}

theorem mem_table_of_related {r : String → Json} (h : r ∈ n.related I db v) :
    r ∈ db n.link.target.table := (List.mem_filter.mp h).1

theorem extend_ne_nil : n.extend I db v ≠ [] := by
  unfold extend
  split
  · simp
  · rename_i h
    simpa using h

theorem mem_extend (h : w ∈ n.extend I db v) : ∃ r, w = v.bind n.label r ∧
    (r ∈ n.related I db v ∨ n.related I db v = [] ∧ r = nullRow) := by
  unfold extend at h
  split at h
  · rename_i hempty
    exact ⟨nullRow, List.mem_singleton.mp h, .inr ⟨List.isEmpty_iff.mp hempty, rfl⟩⟩
  · obtain ⟨r, hr, rfl⟩ := List.mem_map.mp h
    exact ⟨r, rfl, .inl hr⟩

theorem row_of_mem_extend (h : w ∈ n.extend I db v) {l : String} (hl : l ≠ n.label) :
    w.row l = v.row l := by
  obtain ⟨r, rfl, -⟩ := mem_extend h
  exact v.row_bind_of_ne hl r

theorem related_congr (h : w.row n.ownerLabel = v.row n.ownerLabel) :
    n.related I db w = n.related I db v := by
  rw [related, h, related]

theorem bound_congr (ho : w.row n.ownerLabel = v.row n.ownerLabel) (hl : w.row n.label = v.row n.label)
    (h : n.Bound I db v) : n.Bound I db w := by
  rw [Bound, related_congr ho, hl]
  exact h

theorem bound_of_mem_extend (h : w ∈ n.extend I db v) (hl : n.ownerLabel ≠ n.label) :
    n.Bound I db w := by
  have ho := row_of_mem_extend h hl
  obtain ⟨r, rfl, hr⟩ := mem_extend h
  rwa [Bound, related_congr ho, Sql.Valuation.row_bind_self]

end Placed.Node

/-! ## Blocks -/

open Placed (Node)

/-- The rows that come from one row of the entity's table: what holds of them for each navigation. -/
structure Block (I : Interpretation) (db : Database) (label : String) (ns : List Node)
    (x : String → Json) (vs : List Sql.Valuation) : Prop where
  nonempty : vs ≠ []
  root : ∀ v ∈ vs, v.row label = x
  bound : ∀ n ∈ ns, ∀ v ∈ vs, n.Bound I db v
  fixed : ∀ n ∈ ns, n.outer = true → n.link.many = false → ∀ v ∈ vs, ∀ w ∈ vs,
    v.row n.label = w.row n.label
  gathered : ∀ n ∈ ns, n.outer = true → n.link.many = true → ∀ v ∈ vs,
    firsts n.link.target.alike ((vs.map (·.row n.label)).filter n.link.target.present) =
      n.related I db v
  single : (∀ n ∈ ns, n.link.many = false) → vs.length = 1

namespace Block

variable {label : String} {ns : List Node} {x : String → Json} {vs : List Sql.Valuation} {n : Node}

theorem base (label : String) (x : String → Json) :
    Block I db label [] x [Sql.Valuation.null.bind label x] where
  nonempty := by simp
  root v hv := by rw [List.mem_singleton.mp hv, Sql.Valuation.row_bind_self]
  bound _ hn := absurd hn List.not_mem_nil
  fixed _ hn := absurd hn List.not_mem_nil
  gathered _ hn := absurd hn List.not_mem_nil
  single _ := rfl

/-- In the rows of a new navigation outside collections, each kept once, there are the related ones. -/
theorem gathered_new (h : Block I db label ns x vs) (hkeyed : db.Keyed n.link.target)
    (hsame : ∀ v ∈ vs, ∀ w ∈ vs, v.row n.ownerLabel = w.row n.ownerLabel) {v : Sql.Valuation}
    (hv : v ∈ vs) :
    firsts n.link.target.alike
        (((vs.flatMap (n.extend I db)).map (·.row n.label)).filter n.link.target.present) =
      n.related I db v := by
  have hpresent : (n.related I db v).filter n.link.target.present = n.related I db v :=
    List.filter_eq_self.mpr fun r hr => Entity.present_of_mem hkeyed (Node.mem_table_of_related hr)
  have hrows : ∀ w ∈ vs, ((n.extend I db w).map (·.row n.label)).filter n.link.target.present =
      n.related I db v := by
    intro w hw
    rw [← Node.related_congr (hsame w hw v hv)] at hpresent ⊢
    unfold Node.extend
    split
    · rename_i hempty
      rw [List.isEmpty_iff.mp hempty]
      simp [Entity.present_nullRow]
    · rw [List.map_map]
      simpa [Function.comp_def] using hpresent
  rw [List.map_flatMap, List.filter_flatMap, List.flatMap_congr hrows]
  refine firsts_flatMap_const n.link.target.alike_refl h.nonempty ?_
  exact (Entity.pairwise_alike hkeyed).sublist List.filter_sublist

theorem extend (h : Block I db label ns x vs) (hroot : label ≠ n.label)
    (howner : n.ownerLabel ≠ n.label)
    (hfresh : ∀ m ∈ ns, m.label ≠ n.label ∧ m.ownerLabel ≠ n.label)
    (hkeyed : db.Keyed n.link.target)
    (hsame : n.outer = true → ∀ v ∈ vs, ∀ w ∈ vs, v.row n.ownerLabel = w.row n.ownerLabel)
    (hone : n.link.many = false → ∀ v ∈ vs, (n.related I db v).length ≤ 1) :
    Block I db label (n :: ns) x (vs.flatMap (n.extend I db)) := by
  constructor
  case nonempty =>
    obtain ⟨v, vs, rfl⟩ := List.exists_cons_of_ne_nil h.nonempty
    rw [List.flatMap_cons]
    exact fun hnil => Node.extend_ne_nil (List.append_eq_nil_iff.mp hnil).1
  case root =>
    intro w hw
    obtain ⟨v, hv, hw⟩ := List.mem_flatMap.mp hw
    rw [Node.row_of_mem_extend hw hroot, h.root v hv]
  case bound =>
    intro m hm w hw
    obtain ⟨v, hv, hw⟩ := List.mem_flatMap.mp hw
    rcases List.mem_cons.mp hm with rfl | hm
    · exact Node.bound_of_mem_extend hw howner
    · exact Node.bound_congr (Node.row_of_mem_extend hw (hfresh m hm).2)
        (Node.row_of_mem_extend hw (hfresh m hm).1) (h.bound m hm v hv)
  case fixed =>
    intro m hm hout hmany w hw w' hw'
    obtain ⟨v, hv, hw⟩ := List.mem_flatMap.mp hw
    obtain ⟨v', hv', hw'⟩ := List.mem_flatMap.mp hw'
    rcases List.mem_cons.mp hm with rfl | hm
    -- At most one row is related, and to both it is the same one.
    · obtain ⟨r, rfl, hr⟩ := Node.mem_extend hw
      obtain ⟨r', rfl, hr'⟩ := Node.mem_extend hw'
      rw [Node.related_congr (hsame hout v' hv' v hv)] at hr'
      rw [Sql.Valuation.row_bind_self, Sql.Valuation.row_bind_self]
      have hlen := hone hmany v hv
      match hrel : m.related I db v with
      | [] => simp_all
      | [r₀] => simp_all
      | _ :: _ :: _ => simp [hrel] at hlen
    · rw [Node.row_of_mem_extend hw (hfresh m hm).1, Node.row_of_mem_extend hw' (hfresh m hm).1]
      exact h.fixed m hm hout hmany v hv v' hv'
  case gathered =>
    intro m hm hout hmany w hw
    obtain ⟨v, hv, hw⟩ := List.mem_flatMap.mp hw
    rcases List.mem_cons.mp hm with rfl | hm
    · rw [Node.related_congr (Node.row_of_mem_extend hw howner)]
      exact h.gathered_new hkeyed (hsame hout) hv
    -- The rows of an earlier collection are only repeated.
    · rw [Node.related_congr (Node.row_of_mem_extend hw (hfresh m hm).2),
        ← h.gathered m hm hout hmany v hv, List.map_flatMap]
      refine firsts_flatMap_self m.link.target.alike_refl _ fun v' _ => ⟨?_, ?_⟩
      · simpa using Node.extend_ne_nil
      · intro r hr
        obtain ⟨w', hw', rfl⟩ := List.mem_map.mp hr
        exact Node.row_of_mem_extend hw' (hfresh m hm).1
  case single =>
    intro hall
    obtain ⟨v, rfl⟩ := List.length_eq_one_iff.mp
      (h.single fun m hm => hall m (List.mem_cons_of_mem _ hm))
    have hlen := hone (hall n (List.mem_cons_self ..)) v (List.mem_singleton.mpr rfl)
    rw [List.flatMap_singleton]
    unfold Node.extend
    split
    · rfl
    · rename_i hne
      rw [List.length_map]
      have hpos := List.length_pos_iff.mpr (by simpa using hne)
      omega

end Block

/-! ## All rows -/

/-- The rows are blocks, one for each row of the entity's table. -/
def Blocks (I : Interpretation) (db : Database) (e : Entity) (label : String) (ns : List Node)
    (vs : List Sql.Valuation) : Prop :=
  ∃ block : (String → Json) → List Sql.Valuation, vs = (db e.table).flatMap block ∧
    ∀ x ∈ db e.table, Block I db label ns x (block x)

theorem Sql.Sources.valuations_join (ss : Sql.Sources) (kind : Sql.JoinKind) (source : Sql.Source)
    (on : Sql.Expr) :
    (ss.join ⟨kind, source, on⟩).valuations I db =
      kind.pairs (fun v row => on.truth I [v.bind source.label row] = some true)
        (fun v row => v.bind source.label row) .null (fun _ => .null) (ss.valuations I db)
        (source.rows I db) := by
  obtain ⟨first, joins⟩ := ss
  have hextend : ∀ (js : List Sql.Join) (vs : List Sql.Valuation),
      Sql.Join.extend I db (js ++ [⟨kind, source, on⟩]) vs =
        kind.pairs (fun v row => on.truth I [v.bind source.label row] = some true)
          (fun v row => v.bind source.label row) .null (fun _ => .null) (Sql.Join.extend I db js vs)
          (source.rows I db) := by
    intro js
    induction js with
    | nil => intro vs; rfl
    | cons j js ih => intro vs; cases j; exact ih _
  exact hextend joins _

/-- The table of a navigation, joined under a condition that says which rows are related. -/
theorem Sql.Sources.valuations_linked (ss : Sql.Sources) (n : Node) (on : Sql.Expr)
    (hon : ∀ v ∈ ss.valuations I db, ∀ r ∈ db n.link.target.table,
      on.truth I [v.bind n.label r] = some true ↔ r ∈ n.related I db v) :
    (ss.join ⟨.left, .table n.link.target.table n.label, on⟩).valuations I db =
      (ss.valuations I db).flatMap (n.extend I db) := by
  rw [valuations_join, Sql.JoinKind.pairs, if_neg (by simp [Sql.JoinKind.keepsRight]),
    List.append_nil]
  refine List.flatMap_congr fun v hv => ?_
  have hfilter : ((db n.link.target.table).filter fun r =>
      decide (on.truth I [v.bind n.label r] = some true)) = n.related I db v := by
    refine List.filter_congr fun r hr => ?_
    rw [Bool.eq_iff_iff, decide_eq_true_iff, hon v hv r hr, Placed.Node.related,
      NavigationStep.related, List.mem_filter]
    exact and_iff_right hr
  have hkeeps : Sql.JoinKind.keepsLeft .left = true := rfl
  rw [Placed.Node.extend, ← hfilter]
  simp only [Sql.Source.rows, Sql.Source.label, hkeeps, Bool.and_true]
  rfl

theorem Blocks.linked {e : Entity} {label : String} {ns : List Node} {ss : Sql.Sources} {n : Node}
    (h : Blocks I db e label ns (ss.valuations I db)) {on : Sql.Expr}
    (hon : ∀ v ∈ ss.valuations I db, ∀ r ∈ db n.link.target.table,
      on.truth I [v.bind n.label r] = some true ↔ r ∈ n.related I db v)
    (hblock : ∀ x ∈ db e.table, ∀ vs, Block I db label ns x vs →
      Block I db label (n :: ns) x (vs.flatMap (n.extend I db))) :
    Blocks I db e label (n :: ns)
      ((ss.join ⟨.left, .table n.link.target.table n.label, on⟩).valuations I db) := by
  obtain ⟨block, hvs, hall⟩ := h
  refine ⟨fun x => (block x).flatMap (n.extend I db), ?_, fun x hx => hblock x hx _ (hall x hx)⟩
  rw [ss.valuations_linked n on hon, hvs, List.flatMap_assoc]

end EntityQuery
