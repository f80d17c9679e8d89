import EntityQuery.Catalog.Document
import EntityQuery.Proofs.Loading
import EntityQuery.Proofs.Materialization

/-! # What identifies the objects of an entity

A catalog document gives each property twice a name: the one it is declared under, and its own. Keys
are checked against the first, and objects hold their columns under the second. So the columns that
identify an object are those that the key declares exactly if, for every key, the two names lead to
one column. -/

namespace EntityQuery
set_option autoImplicit false

/-! ## Entries written one after the other -/

namespace Entries

variable {κ β : Type} [BEq κ]

theorem ofList_concat (es : List (κ × β)) (e : κ × β) :
    ofList (es ++ [e]) = put e.1 e.2 (ofList es) := by
  rw [ofList, List.foldl_append]
  rfl

theorem lookup_ofList [LawfulBEq κ] (es : List (κ × β)) (k : κ) :
    (ofList es).lookup k = es.reverse.lookup k := by
  induction es using List.reverseRecOn with
  | nil => rfl
  | append_singleton es e ih =>
    rw [ofList_concat, List.reverse_concat, List.lookup_cons]
    cases h : k == e.1 with
    | true =>
      rw [eq_of_beq h]
      exact lookup_put_self e.1 e.2 _
    | false => rw [lookup_put_of_ne h, ih]

theorem nodup_put [LawfulBEq κ] {es : List (κ × β)} (h : (es.map (·.1)).Nodup) (k : κ) (v : β) :
    ((put k v es).map (·.1)).Nodup := by
  cases hk : has k es with
  | true => rwa [map_fst_put_of_has hk]
  | false =>
    have hnew : k ∉ es.map (·.1) := by
      intro hmem
      obtain ⟨e, he, rfl⟩ := List.mem_map.mp hmem
      rw [has, lookup_of_mem h he] at hk
      cases hk
    rw [put_of_not_has hk, List.map_append]
    exact List.nodup_append_comm.mp (List.nodup_cons.mpr ⟨hnew, h⟩)

theorem nodup_ofList [LawfulBEq κ] (es : List (κ × β)) : ((ofList es).map (·.1)).Nodup := by
  induction es using List.reverseRecOn with
  | nil => exact List.nodup_nil
  | append_singleton es e ih =>
    rw [ofList_concat]
    exact nodup_put ih e.1 e.2

end Entries

/-! ## Catalogs that are read -/

theorem Json.Document.read_of_listOf {α : Type} {read : Document → Option α} {items : List Document}
    {as : List α} (h : listOf? read (.list items) = some as) {a : α} (ha : a ∈ as) :
    ∃ d, read d = some a := by
  rw [listOf?] at h
  induction items generalizing as with
  | nil =>
    cases h
    cases ha
  | cons d items ih =>
    simp only [List.mapM_cons, Option.bind_eq_bind, Option.bind_eq_some_iff, Option.pure_def,
      Option.some.injEq] at h
    obtain ⟨b, hb, bs, hbs, rfl⟩ := h
    rcases List.mem_cons.mp ha with rfl | ha
    · exact ⟨d, hb⟩
    · exact ih hbs ha

/-- What reading a document ensures of an entity. -/
structure Entity.Checked (e : Entity) : Prop where
  distinct : (e.properties.map (·.1)).Nodup
  key : e.badKey? = none

theorem Entity.distinct_ofDocument {d : Json.Document} {e : Entity} (h : ofDocument? d = some e) :
    (e.properties.map (·.1)).Nodup := by
  simp only [ofDocument?, Option.bind_eq_bind, Option.bind_eq_some_iff] at h
  obtain ⟨fields, -, h⟩ := h
  split at h
  · simp only [Option.bind_eq_some_iff, Option.some.injEq] at h
    obtain ⟨_, -, _, -, _, -, properties, -, rfl⟩ := h
    exact Entries.nodup_ofList properties
  · cases h

namespace Catalog

theorem distinct_of_entitiesOf {d : Json.Document} {es : List Entity} (h : entitiesOf? d = some es) :
    ∀ e ∈ es, (e.properties.map (·.1)).Nodup := by
  simp only [entitiesOf?, Option.bind_eq_bind, Option.bind_eq_some_iff] at h
  obtain ⟨fields, -, h⟩ := h
  split at h
  · obtain ⟨doc, -, h⟩ := Option.bind_eq_some_iff.mp h
    cases doc with
    | list items =>
      intro e he
      obtain ⟨item, hitem⟩ := Json.Document.read_of_listOf h he
      exact Entity.distinct_ofDocument hitem
    | _ => cases h
  · cases h

theorem declare_eq_ok {c c' : Catalog} {e : Entity} :
    c.declare e = .ok c' ↔ e.badKey? = none ∧ c' = c.withEntity e := by
  unfold declare
  cases e.badKey? with
  | none => simp [eq_comm]
  | some k => simp

theorem checked_of_declares {es : List Entity} {c c' : Catalog}
    (hc : ∀ n e, c.entity? n = some e → e.Checked) (hes : ∀ e ∈ es, (e.properties.map (·.1)).Nodup)
    (h : es.foldlM declare c = .ok c') : ∀ n e, c'.entity? n = some e → e.Checked := by
  induction es generalizing c with
  | nil =>
    rw [List.foldlM_nil, pure_eq_ok] at h
    rwa [← h]
  | cons e es ih =>
    rw [List.foldlM_cons, bind_eq_ok] at h
    obtain ⟨c₁, hdeclare, h⟩ := h
    obtain ⟨hkey, rfl⟩ := declare_eq_ok.mp hdeclare
    refine ih ?_ (fun e' he' => hes e' (List.mem_cons_of_mem e he')) h
    intro n e' he'
    rcases Entries.lookup_put_cases he' with rfl | hold
    · exact ⟨hes _ (List.mem_cons_self ..), hkey⟩
    · exact hc n e' hold

theorem checked_of_parse {text : String} {c : Catalog} (h : parse text = .ok c) :
    ∀ n e, c.entity? n = some e → e.Checked := by
  unfold parse at h
  cases hes : Json.Document.parse? text >>= entitiesOf? with
  | none =>
    rw [hes] at h
    cases h
  | some es =>
    rw [hes] at h
    obtain ⟨d, -, hd⟩ := Option.bind_eq_some_iff.mp hes
    exact checked_of_declares (fun n e he => by cases he) (distinct_of_entitiesOf hd) h

end Catalog

/-! ## Keys and members -/

namespace Entity

/-- The property that objects hold under a name: of the column properties with that name of their
own, the last. -/
def member? (e : Entity) (name : String) : Option Property :=
  e.primitives.reverse.find? fun p => name == p.name

/-- Under every key, objects hold the column of the property that is declared under it. -/
def KeyAgrees (e : Entity) : Prop :=
  ∀ k ∈ e.key, (e.member? k).map (·.columnName) = (e.property? k).map (·.columnName)

instance (e : Entity) : Decidable e.KeyAgrees := inferInstanceAs (Decidable (∀ k ∈ e.key, _))

/-- The positions of the members under the keys, if there are such, among columns of a table. -/
def positions (e : Entity) (label : String) (columns : List Sql.Projected) : List Nat :=
  e.key.filterMap fun k => (e.member? k).map fun p =>
    (columns.map (·.expr)).idxOf (.column ⟨label, p.columnName⟩)

/-- The positions, one for each key and in order, select under the label the columns of the
properties declared under the keys. -/
def Identified (e : Entity) (label : String) (columns : List Sql.Projected) (identity : List Nat) :
    Prop :=
  List.Forall₂ (fun k i => ∃ p c, e.property? k = some p ∧ columns[i]? = some c ∧
    c.expr = .column ⟨label, p.columnName⟩) e.key identity

/-- If column properties stand under their own names, keys lead to the same columns either way. -/
theorem Checked.keyAgrees {e : Entity} (h : e.Checked)
    (hnames : ∀ q ∈ e.properties, q.2.kind = .primitive → q.2.name = q.1) : e.KeyAgrees := by
  intro k hk
  obtain ⟨p, hp, hkind⟩ := property?_of_key h.key hk
  have hmem : (k, p) ∈ e.properties := Entries.mem_of_lookup hp
  have hprimitive : p ∈ e.primitives :=
    List.mem_filter.mpr ⟨List.mem_map.mpr ⟨(k, p), hmem, rfl⟩, decide_eq_true hkind⟩
  cases hm : e.member? k with
  | none =>
    have hne := List.find?_eq_none.mp hm p (List.mem_reverse.mpr hprimitive)
    rw [hnames _ hmem hkind, beq_self_eq_true] at hne
    exact absurd rfl hne
  | some p' =>
    rw [member?] at hm
    have hname : k = p'.name := by simpa using List.find?_some hm
    have hp' := List.mem_reverse.mp (List.mem_of_find?_eq_some hm)
    obtain ⟨hp', hkind'⟩ := List.mem_filter.mp hp'
    obtain ⟨⟨n, q⟩, hq, rfl⟩ := List.mem_map.mp hp'
    have hn : n = k := ((hnames _ hq (of_decide_eq_true hkind')).symm.trans hname.symm)
    have hlookup : e.property? k = some q := hn ▸ Entries.lookup_of_mem h.distinct hq
    rw [hlookup]

end Entity

/-! ## Roots -/

theorem Sql.Expr.eq_column_of_beq {x : Sql.Expr} {c : Sql.Column} (h : (x == .column c) = true) :
    x = .column c := by
  cases x with
  | column c' => exact congrArg _ (eq_of_beq (α := Sql.Column) h)
  | _ => cases h

theorem forall₂_filterMap_iff {α β : Type} {R : α → β → Prop} {f : α → Option β} {xs : List α} :
    List.Forall₂ R xs (xs.filterMap f) ↔ ∀ x ∈ xs, ∃ y, f x = some y ∧ R x y := by
  constructor
  · intro h
    have hall : ∀ x ∈ xs, (f x).isSome := List.filterMap_length_eq_length.mp h.length_eq.symm
    induction xs with
    | nil => intro x hx; cases hx
    | cons x xs ih =>
      obtain ⟨y, hy⟩ := Option.isSome_iff_exists.mp (hall x (List.mem_cons_self ..))
      rw [List.filterMap_cons_some hy] at h
      obtain ⟨hhead, htail⟩ := List.forall₂_cons.mp h
      intro z hz
      rcases List.mem_cons.mp hz with rfl | hz
      · exact ⟨y, hy, hhead⟩
      · exact ih htail (fun w hw => hall w (List.mem_cons_of_mem x hw)) z hz
  · intro h
    induction xs with
    | nil => exact .nil
    | cons x xs ih =>
      obtain ⟨y, hy, hR⟩ := h x (List.mem_cons_self ..)
      rw [List.filterMap_cons_some hy]
      exact .cons hR (ih fun z hz => h z (List.mem_cons_of_mem x hz))

theorem ObjectOf.lookup_ofEntity (e : Entity) (label k : String) :
    (ObjectOf.ofEntity e label).members.lookup k =
      (e.member? k).map fun p => .scalar (.column ⟨label, p.columnName⟩) := by
  rw [(members_ofEntity e label).1, Entries.lookup_ofList, ← List.map_reverse, Entity.member?]
  induction e.primitives.reverse with
  | nil => rfl
  | cons p ps ih =>
    rw [List.map_cons, List.lookup_cons, List.find?_cons, ih]
    cases k == p.name <;> rfl

theorem Shape.recipe_ofEntity (columns : List Sql.Projected) (e : Entity) (label : String) :
    (Shape.object (.ofEntity e label)).recipe (columns.map (·.expr)) =
      .object (some e.name) (e.positions label columns)
        (memberRecipes (columns.map (·.expr)) (ObjectOf.ofEntity e label).members) := by
  have hrecipe : ∀ o : ObjectOf Shape, (Shape.object o).recipe (columns.map (·.expr)) =
      .object o.entity (keyPositions (columns.map (·.expr)) o.key o.members)
        (memberRecipes (columns.map (·.expr)) o.members) := fun _ => rfl
  have hpositions : keyPositions (columns.map (·.expr)) e.key (ObjectOf.ofEntity e label).members =
      e.positions label columns := by
    rw [keyPositions, List.map_filterMap, Entity.positions]
    refine List.filterMap_congr fun k _ => ?_
    rw [ObjectOf.lookup_ofEntity]
    cases e.member? k <;> rfl
  rw [hrecipe, ObjectOf.entity_ofEntity, (ObjectOf.members_ofEntity e label).2, hpositions]

theorem Mapping.column_of_member (env : Env) {q : Query} {e : Entity} {label k : String} {p : Property}
    (hresult : q.draft.result = .object (.ofEntity e label)) (hp : e.member? k = some p) :
    ∃ c, (ofQuery env q).statement.columns[
        ((ofQuery env q).statement.columns.map (·.expr)).idxOf (.column ⟨label, p.columnName⟩)]? =
          some c ∧
      c.expr = .column ⟨label, p.columnName⟩ := by
  have hlookup : (ObjectOf.ofEntity e label).members.lookup k =
      some (.scalar (.column ⟨label, p.columnName⟩)) := by
    rw [ObjectOf.lookup_ofEntity, hp]
    rfl
  have hscalar : Sql.Expr.column ⟨label, p.columnName⟩ ∈ q.draft.result.scalars := by
    rw [hresult]
    exact Shape.scalars_of_lookup hlookup _ (List.mem_singleton_self _)
  obtain ⟨c, hc, heq⟩ := column_of_scalar env q hscalar
  exact ⟨c, hc, Sql.Expr.eq_column_of_beq heq⟩

theorem Mapping.identified_iff (env : Env) {q : Query} {e : Entity} {label : String}
    (hresult : q.draft.result = .object (.ofEntity e label)) (he : e.Checked) :
    e.Identified label (ofQuery env q).statement.columns
        (e.positions label (ofQuery env q).statement.columns) ↔
      e.KeyAgrees := by
  rw [Entity.Identified, Entity.positions, forall₂_filterMap_iff]
  refine forall₂_congr fun k hk => ?_
  obtain ⟨p, hp, -⟩ := Entity.property?_of_key he.key hk
  rw [hp]
  cases hm : e.member? k with
  | none => simp
  | some p' =>
    obtain ⟨c, hc, hexpr⟩ := column_of_member env hresult hm
    simp [hc, hexpr]

theorem Query.recipe_root (env : Env) {name : String} {e : Entity}
    (he : env.catalog.entity? name = some e) :
    ∃ q label members, Query.root env name = .ok q ∧
      q.draft.result = .object (.ofEntity e label) ∧
      (Mapping.ofQuery env q).statement.sources = ⟨.table e.table label, []⟩ ∧
      (Mapping.ofQuery env q).activator =
        .object (some e.name) (e.positions label (Mapping.ofQuery env q).statement.columns) members := by
  obtain ⟨q, hroot⟩ : ∃ q, Query.root env name = .ok q := ⟨_, root_eq_ok.mpr ⟨e, he, rfl⟩⟩
  obtain ⟨e', he', hq⟩ := root_eq_ok.mp hroot
  obtain rfl : e = e' := Option.some.inj (he.symm.trans he')
  have hresult : q.draft.result = .object (.ofEntity e (({} : Aliases).fresh e.table)) := by rw [hq]
  have hsources : (Mapping.ofQuery env q).statement.sources =
      ⟨.table e.table (({} : Aliases).fresh e.table), []⟩ := by
    rw [(gives_ofQuery q env).sources, hq]
  have hactivator := Mapping.activator_ofQuery env q
  rw [hresult, Shape.recipe_ofEntity] at hactivator
  exact ⟨q, _, _, hroot, hresult, hsources, hactivator⟩

namespace Sample

/-- Lines of orders, written with lists for records. They have a key of two columns, in another order
than that of the properties. -/
def lines : String :=
  "[[[\"Line\",\"lines\",[\"order_id\",\"no\"],\x7b\"no\":[\"no\",\"Primitive\",\"line_no\"]," ++
    "\"order_id\":[\"order_id\",\"Primitive\"]," ++
    "\"order\":[\"order\",\"Complex\",null,\"Order\",[\"order_id\",\"id\"]]\x7d]]]"

/-- Users whose key is declared under one name and calls itself another. -/
def renamedKey : String :=
  "\x7b\"entities\":[\x7b\"name\":\"User\",\"table\":\"users\",\"key\":[\"id\"]," ++
    "\"properties\":\x7b\"id\":\x7b\"name\":\"uid\",\"kind\":\"Primitive\",\"column\":\"id\"\x7d\x7d\x7d]\x7d"

/-- Users with a second property that calls itself by the name of the key. -/
def shadowedKey : String :=
  "\x7b\"entities\":[\x7b\"name\":\"User\",\"table\":\"users\",\"key\":[\"id\"]," ++
    "\"properties\":\x7b\"id\":\x7b\"name\":\"id\",\"kind\":\"Primitive\"\x7d," ++
    "\"legacy\":\x7b\"name\":\"id\",\"kind\":\"Primitive\",\"column\":\"old_id\"\x7d\x7d\x7d]\x7d"

end Sample

namespace Catalog

/-- **Identity of roots.** A catalog that was read can query each of its entities, and the recipe
builds an object of the entity. Its identity selects, for every key in order, the column of the
property declared under the key exactly if the keys agree with the members, as they do wherever
column properties stand under their own names. -/
theorem root_identified_iff (settings : Settings) {text name : String} {catalog : Catalog} {e : Entity}
    (hparse : parse text = .ok catalog) (he : catalog.entity? name = some e) :
    ∃ q label identity members, Query.root { catalog, settings } name = .ok q ∧
      (Mapping.ofQuery { catalog, settings } q).statement.sources = ⟨.table e.table label, []⟩ ∧
      (Mapping.ofQuery { catalog, settings } q).activator = .object (some e.name) identity members ∧
      (e.Identified label (Mapping.ofQuery { catalog, settings } q).statement.columns identity ↔
        e.KeyAgrees) ∧
      ((∀ p ∈ e.properties, p.2.kind = .primitive → p.2.name = p.1) →
        e.Identified label (Mapping.ofQuery { catalog, settings } q).statement.columns identity) := by
  have hchecked := checked_of_parse hparse name e he
  obtain ⟨q, label, members, hroot, hresult, hsources, hactivator⟩ :=
    Query.recipe_root { catalog, settings } he
  have hidentified := Mapping.identified_iff { catalog, settings } hresult hchecked
  exact ⟨q, label, _, members, hroot, hsources, hactivator, hidentified,
    fun hnames => hidentified.mpr (hchecked.keyAgrees hnames)⟩

theorem root_identified_lines : ∃ catalog e q label identity members,
    parse Sample.lines = .ok catalog ∧ catalog.entity? "Line" = some e ∧
      e.key = ["order_id", "no"] ∧ Query.root { catalog } "Line" = .ok q ∧
      (Mapping.ofQuery { catalog } q).statement.sources = ⟨.table "lines" label, []⟩ ∧
      (Mapping.ofQuery { catalog } q).activator = .object (some "Line") identity members ∧
      e.Identified label (Mapping.ofQuery { catalog } q).statement.columns identity := by
  have h : (do let c ← parse Sample.lines; pure (c.entity? "Line") : Except CatalogError (Option Entity)) =
      .ok (some {
        name := "Line"
        table := "lines"
        key := ["order_id", "no"]
        properties := [("no", .ofColumn "no" "line_no"),
          ("order_id", { name := "order_id", kind := .primitive }),
          ("order", .toOne "order" "Order" ⟨"order_id", "id"⟩)] }) :=
    ok_of_toOption (by decide +kernel)
  simp only [bind_eq_ok, pure_eq_ok] at h
  obtain ⟨catalog, hparse, he⟩ := h
  obtain ⟨q, label, identity, members, hroot, hsources, hactivator, -, hnamed⟩ :=
    root_identified_iff {} hparse he
  exact ⟨catalog, _, q, label, identity, members, hparse, he, rfl, hroot, hsources, hactivator,
    hnamed (by decide)⟩

/-- The text is read, and the recipe of an entity in it has an identity other than the key declares. -/
def Misidentifies (text name : String) : Prop :=
  ∃ catalog e q label identity members, parse text = .ok catalog ∧ catalog.entity? name = some e ∧
    Query.root { catalog } name = .ok q ∧
    (Mapping.ofQuery { catalog } q).statement.sources = ⟨.table e.table label, []⟩ ∧
    (Mapping.ofQuery { catalog } q).activator = .object (some e.name) identity members ∧
    ¬ e.Identified label (Mapping.ofQuery { catalog } q).statement.columns identity

theorem misidentifies_of_disagrees {text name : String}
    (h : ((parse text).toOption.bind (·.entity? name)).any (fun e => !decide e.KeyAgrees) = true) :
    Misidentifies text name := by
  obtain ⟨e, hentity, hkey⟩ := (Option.any_eq_true _ _).mp h
  obtain ⟨catalog, hcatalog, he⟩ := Option.bind_eq_some_iff.mp hentity
  have hparse := ok_of_toOption hcatalog
  obtain ⟨q, label, members, hroot, hresult, hsources, hactivator⟩ := Query.recipe_root { catalog } he
  have hidentified := Mapping.identified_iff { catalog } hresult (checked_of_parse hparse name e he)
  refine ⟨catalog, e, q, label, _, members, hparse, he, hroot, hsources, hactivator, ?_⟩
  rw [hidentified]
  simpa using hkey

/-- In the one the identity misses the key, in the other it takes another column for it. -/
theorem root_unidentified :
    Misidentifies Sample.renamedKey "User" ∧ Misidentifies Sample.shadowedKey "User" :=
  ⟨misidentifies_of_disagrees (by decide +kernel), misidentifies_of_disagrees (by decide +kernel)⟩

end Catalog

end EntityQuery
