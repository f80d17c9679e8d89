import EntityQuery.Proofs.Grafting
import EntityQuery.Proofs.GroupKeys
import EntityQuery.Proofs.Predicates
import EntityQuery.Proofs.Stages

/-! # When grouped statements have keys

A query at the grouping stage groups by the scalars that its key selectors select. There may be none:
a record without members has no scalars, nor has the object of an entity without columns. Where no
selector builds such a record and every entity has a column, every part of every result holds a
scalar, and so every grouped statement has keys. -/

namespace EntityQuery
set_option autoImplicit false

/-! ## Shapes with scalars in all parts -/

namespace Shape

/-- Every part that is no collection holds a scalar. -/
def Filled (s : Shape) : Prop :=
  ∀ path part, s.partAt? path = some part → part.isCollection = false → part.leaves ≠ []

variable {s s' m m' : Shape} {o o' : ObjectOf Shape} {name : String}

theorem isCollection_of_flat (h : s.hasCollection = false) : s.isCollection = false := by
  cases s with
  | collection _ _ _ => cases h
  | _ => rfl

theorem leaves_of_isCollection (h : s.isCollection = true) : s.leaves = [] := by
  cases s with
  | collection _ _ _ => rfl
  | _ => cases h

theorem Filled.leaves (h : s.Filled) (hs : s.isCollection = false) : s.leaves ≠ [] := h [] s rfl hs

theorem Filled.down (h : s.Filled) (way : Way) (hm : s.down? way = some m) : m.Filled := by
  intro path part hpart
  exact h (way :: path) part (Option.bind_eq_some_iff.mpr ⟨m, hm, hpart⟩)

theorem Filled.of_down (h : s.isCollection = false → s.leaves ≠ [])
    (hdown : ∀ way m, s.down? way = some m → m.Filled) : s.Filled := by
  intro path part hpart
  cases path with
  | nil =>
    cases hpart
    exact h
  | cons way path =>
    obtain ⟨m, hm, hpart⟩ := Option.bind_eq_some_iff.mp hpart
    exact hdown way m hm path part hpart

theorem filled_scalar (e : Sql.Expr) : (Shape.scalar e).Filled := by
  refine .of_down (fun _ => List.cons_ne_nil e []) ?_
  intro way m hm
  cases way <;> cases hm

theorem filled_object (hleaves : memberLeaves o.members ≠ [])
    (hmembers : ∀ name m, o.members.lookup name = some m → m.Filled) : (Shape.object o).Filled := by
  refine .of_down (fun _ => hleaves) ?_
  intro way m hm
  cases way with
  | member name => exact hmembers name m hm
  | element => cases hm

theorem Filled.lookup (h : (Shape.object o).Filled) (hm : o.members.lookup name = some m) : m.Filled :=
  h.down (.member name) hm

theorem filled_of_members {members : List (String × Shape)} (hne : members ≠ [])
    (h : ∀ m ∈ members, m.2.Filled ∧ m.2.isCollection = false) :
    (Shape.object { members }).Filled := by
  refine filled_object ?_ ?_
  · obtain ⟨⟨name, m⟩, rest, rfl⟩ := List.exists_cons_of_ne_nil hne
    obtain ⟨hm, hsingle⟩ := h (name, m) (List.mem_cons_self ..)
    exact List.append_ne_nil_of_left_ne_nil (hm.leaves hsingle) _
  · intro name m hm
    exact (h (name, m) (Entries.mem_of_lookup hm)).1

/-! ### Members put in place -/

theorem memberLeaves_put (hm : m.leaves ≠ []) (ms : List (String × Shape)) :
    memberLeaves (Entries.put name m ms) ≠ [] := by
  induction ms with
  | nil => exact List.append_ne_nil_of_left_ne_nil hm _
  | cons x ms ih =>
    rw [Entries.put]
    split
    · exact List.append_ne_nil_of_left_ne_nil hm _
    · exact List.append_ne_nil_of_right_ne_nil _ ih

theorem memberLeaves_put_of_lookup {ms : List (String × Shape)} (h : ms.lookup name = some m)
    (hm : m'.leaves = m.leaves) : memberLeaves (Entries.put name m' ms) = memberLeaves ms := by
  induction ms with
  | nil => cases h
  | cons x ms ih =>
    by_cases hx : name == x.1
    · rw [List.lookup_cons, hx] at h
      cases h
      rw [Entries.put, if_pos hx, memberLeaves, memberLeaves, hm]
    · rw [List.lookup_cons, Bool.of_not_eq_true hx] at h
      rw [Entries.put, if_neg hx, memberLeaves, memberLeaves, ih h]

theorem Filled.withMember (ho : (Shape.object o).Filled) (hm : m'.Filled)
    (hsame : ∀ m, o.members.lookup name = some m → m'.isCollection = m.isCollection) :
    (Shape.object (o.withMember name m')).Filled := by
  refine filled_object ?_ ?_
  · change memberLeaves (Entries.put name m' o.members) ≠ []
    have hleaves : memberLeaves o.members ≠ [] := ho.leaves rfl
    cases hm' : m'.isCollection with
    | false => exact memberLeaves_put (hm.leaves hm') _
    | true =>
      -- A collection has no scalars of its own, and takes the place of a collection at most.
      cases hlookup : o.members.lookup name with
      | none =>
        have hhas : Entries.has name o.members = false := by rw [Entries.has, hlookup]; rfl
        rw [Entries.put_of_not_has hhas, memberLeaves_append]
        exact List.append_ne_nil_of_left_ne_nil hleaves _
      | some m =>
        have hboth := leaves_of_isCollection ((hsame m hlookup).symm.trans hm')
        rwa [memberLeaves_put_of_lookup hlookup ((leaves_of_isCollection hm').trans hboth.symm)]
  · intro other m hlookup
    rcases Entries.lookup_put_cases hlookup with rfl | hlookup
    · exact hm
    · exact ho.lookup hlookup

theorem Filled.owner (h : s.Filled) (ho : s.owner? = some o) : (Shape.object o).Filled := by
  unfold owner? at ho
  split at ho
  · cases ho
    exact h
  · cases ho
    exact h.down .element rfl
  · cases ho

theorem Filled.withOwner (h : (Shape.object o').Filled) (s : Shape) : (s.withOwner o').Filled := by
  unfold Shape.withOwner
  split
  · refine .of_down (fun hc => by cases hc) ?_
    intro way m hm
    cases way with
    | member name => cases hm
    | element =>
      cases hm
      exact h
  · exact h

theorem filled_ofEntity {e : Entity} {label : String} (he : e.primitives ≠ [])
    (hm : o.members = (ObjectOf.ofEntity e label).members) : (Shape.object o).Filled := by
  refine filled_object ?_ ?_
  · obtain ⟨ps, p, hps⟩ := (List.eq_nil_or_concat e.primitives).resolve_left he
    rw [hm, (ObjectOf.members_ofEntity e label).1, hps, List.concat_eq_append, List.map_append,
      List.map_singleton, Entries.ofList_concat]
    exact memberLeaves_put ((filled_scalar _).leaves rfl) _
  · intro other m hlookup
    rw [hm, ObjectOf.lookup_ofEntity] at hlookup
    obtain ⟨p, -, rfl⟩ := Option.map_eq_some_iff.mp hlookup
    exact filled_scalar _

/-! ### Related shapes -/

section Rel

variable {R : Sql.Expr → Sql.Expr → Prop}

mutual

theorem Rel.length_leaves : ∀ s s' : Shape, s.Rel R s' → s.leaves.length = s'.leaves.length
  | .scalar _, .scalar _, _ => rfl
  | .object ⟨_, _, ms, _, _⟩, .object ⟨_, _, ms', _, _⟩, h => RelMembers.length_leaves ms ms' h.2.2
  | .collection .., .collection .., _ => rfl

theorem RelMembers.length_leaves : ∀ ms ms' : List (String × Shape), RelMembers R ms ms' →
    (memberLeaves ms).length = (memberLeaves ms').length
  | [], [], _ => rfl
  | (_, s) :: ms, (_, s') :: ms', h => by
    rw [memberLeaves, memberLeaves, List.length_append, List.length_append,
      Rel.length_leaves s s' h.2.1, RelMembers.length_leaves ms ms' h.2.2]

end

theorem Rel.isCollection (h : s.Rel R s') : s.isCollection = s'.isCollection := by
  cases s <;> cases s' <;> first | rfl | cases h

theorem Rel.down? (h : s.Rel R s') (way : Way) (hm : s.down? way = some m) :
    ∃ m', s'.down? way = some m' ∧ m.Rel R m' := by
  cases way with
  | element =>
    cases s with
    | collection element c f =>
      cases s' with
      | collection element' c' f' =>
        cases hm
        exact ⟨element', rfl, h⟩
      | _ => cases h
    | _ => cases hm
  | member name =>
    have hmember : Option.Rel (Shape.Rel R) (s.member? name) (s'.member? name) := Bindings.rel_member? h
    have hm' : s.member? name = some m := by
      cases s with
      | object o => exact hm
      | _ => cases hm
    rw [hm'] at hmember
    cases hlookup : s'.member? name with
    | none =>
      rw [hlookup] at hmember
      cases hmember
    | some m' =>
      rw [hlookup] at hmember
      cases hmember with
      | some hrel =>
        refine ⟨m', ?_, hrel⟩
        cases s' with
        | object o => exact hlookup
        | _ => cases hlookup

theorem Filled.of_rel (h : s.Rel R s') (hs : s'.Filled) : s.Filled := by
  intro path part hpart hsingle
  induction path generalizing s s' with
  | nil =>
    cases hpart
    have hlength := Rel.length_leaves _ _ h
    have hne := hs.leaves (h.isCollection.symm.trans hsingle)
    intro hnil
    rw [hnil, List.length_nil] at hlength
    exact hne (List.length_eq_zero_iff.mp hlength.symm)
  | cons way path ih =>
    obtain ⟨m, hm, hpart⟩ := Option.bind_eq_some_iff.mp hpart
    obtain ⟨m', hm', hrel⟩ := h.down? way hm
    exact ih hrel (hs.down way hm') hpart

end Rel

end Shape

/-! ## Selectors -/

namespace Term

mutual

/-- Whether every record that the term makes has members. -/
def filled : Term → Bool
  | .record ms => !ms.isEmpty && filledAll ms
  | _ => true

def filledAll : List (String × Term) → Bool
  | [] => true
  | (_, t) :: ms => filled t && filledAll ms

end

end Term

/-- The parameters stand for filled shapes. -/
def Bindings.Filled (b : Bindings) : Prop := ∀ p shape, b.get? p = some shape → shape.Filled

namespace Bindings

variable {b : Bindings}

theorem filled_empty : ({} : Bindings).Filled := by
  intro p shape h
  cases h

theorem Filled.bind (h : b.Filled) {s : Shape} (hs : s.Filled) (p : Param) : (b.bind p s).Filled := by
  intro p' shape hshape
  rcases Entries.lookup_put_cases hshape with rfl | hshape
  · exact hs
  · exact h p' shape hshape

theorem Filled.shape? (h : b.Filled) : ∀ {t : Term} {shape : Shape}, b.shape? t = some shape → shape.Filled
  | .param p, shape, ht => h p shape ht
  | .member t name, shape, ht => by
    obtain ⟨owner, howner, hm⟩ := Option.bind_eq_some_iff.mp ht
    cases owner with
    | object o => exact (h.shape? howner).lookup hm
    | _ => cases hm

end Bindings

namespace Scope

variable {s : Scope}

mutual

/-- What a selector makes of filled shapes is filled, if it makes no record without members. -/
theorem shape_filled (hflat : s.Flat) (hb : s.bindings.Filled) : ∀ (t : Term) (depth : Nat) (shape : Shape),
    t.filled = true → s.shape t depth = .ok shape → shape.Filled
  | t, depth, shape, ht, h => by
    cases t with
    | record ms =>
      rw [Term.filled, Bool.and_eq_true, Bool.not_eq_true', List.isEmpty_eq_false_iff] at ht
      simp only [Scope.shape, bind_eq_ok, pure_eq_ok] at h
      obtain ⟨d, -, members, hm, rfl⟩ := h
      obtain ⟨hlength, hmembers⟩ := shapes_filled hflat hb ms d [] members ht.2 (fun m hm => by cases hm) hm
      refine Shape.filled_of_members ?_ hmembers
      have hpositive := List.length_pos_iff.mpr ht.1
      rw [← List.length_pos_iff, hlength, List.length_nil]
      omega
    | _ =>
      rcases shape_eq_ok_cases h with ⟨ms, hrecord⟩ | hsome | ⟨-, d, e, -, rfl⟩
      · cases hrecord
      · exact hb.shape? hsome
      · exact Shape.filled_scalar e

theorem shapes_filled (hflat : s.Flat) (hb : s.bindings.Filled) : ∀ (ms : List (String × Term)) (depth : Nat)
    (done members : List (String × Shape)), Term.filledAll ms = true →
      (∀ m ∈ done, m.2.Filled ∧ m.2.isCollection = false) → s.shapes ms depth done = .ok members →
      members.length = done.length + ms.length ∧ ∀ m ∈ members, m.2.Filled ∧ m.2.isCollection = false
  | [], depth, done, members, _, hd, h => by
    cases h
    exact ⟨rfl, hd⟩
  | (name, t) :: ms, depth, done, members, hms, hd, h => by
    rw [Term.filledAll, Bool.and_eq_true] at hms
    simp only [shapes] at h
    split at h
    · cases h
    · obtain ⟨shape, hs, h⟩ := bind_eq_ok.mp h
      have hshape := shape_filled hflat hb t depth shape hms.1 hs
      have hsingle := Shape.isCollection_of_flat (shape_flat hflat t depth shape hs)
      have hdone : ∀ m ∈ done ++ [(name, shape)], m.2.Filled ∧ m.2.isCollection = false := by
        intro m hm
        rcases List.mem_append.mp hm with hm | hm
        · exact hd m hm
        · rw [List.mem_singleton.mp hm]
          exact ⟨hshape, hsingle⟩
      obtain ⟨hlength, hmembers⟩ := shapes_filled hflat hb ms depth _ members hms.2 hdone h
      refine ⟨?_, hmembers⟩
      rw [hlength, List.length_append, List.length_singleton, List.length_cons]
      omega

end

end Scope

/-! ## Drafts -/

/-- Every entity has a column. -/
def Catalog.Columned (c : Catalog) : Prop := ∀ e ∈ c.entities, e.2.primitives ≠ []

theorem Catalog.Columned.entity? {c : Catalog} (h : c.Columned) {name : String} {e : Entity}
    (he : c.entity? name = some e) : e.primitives ≠ [] :=
  h (name, e) (Entries.mem_of_lookup he)

namespace Draft

variable {env : Env} {d d' : Draft}

theorem filled_selection {p : Param} {f : Lambda} {shape result : Shape} {aliases : Aliases} {limit : Nat}
    (hc : shape.hasCollection = false) (hs : shape.Filled) (hf : f.body.filled = true)
    (h : Scope.selection ⟨Bindings.bind {} p shape, aliases, limit⟩ f = .ok result) :
    result.Filled ∧ result.hasCollection = false :=
  ⟨Scope.shape_filled (Scope.flat_bind hc) (Bindings.filled_empty.bind hs p) f.body 0 result hf h,
    Scope.shape_flat (Scope.flat_bind hc) f.body 0 result h⟩

theorem filled_select (hb : d.bindings = {}) (hd : d.result.Filled) {f : Lambda}
    (hf : f.body.filled = true) (h : d.select env f = .ok d') : d'.result.Filled := by
  obtain ⟨hc, p, result, -, hr, rfl⟩ := select_eq_ok.mp h
  rw [hb] at hr
  exact (filled_selection hc hd hf hr).1

theorem mem_itemMembers {k : Nat} {shapes : List Shape} {m : String × Shape} (h : m ∈ itemMembers k shapes) :
    m.2 ∈ shapes := by
  induction shapes generalizing k with
  | nil => cases h
  | cons shape shapes ih =>
    rcases List.mem_cons.mp h with rfl | h
    · exact List.mem_cons_self ..
    · exact List.mem_cons_of_mem _ (ih h)

theorem Selects.ne_nil {fs : List Lambda} {shapes : List Shape} (h : d.Selects env fs shapes)
    (hne : fs ≠ []) : shapes ≠ [] := by
  rintro rfl
  exact hne (List.forall₂_nil_right_iff.mp h)

theorem filled_keys (hb : d.bindings = {}) (hc : d.result.hasCollection = false) (hd : d.result.Filled)
    {fs : List Lambda} {shapes : List Shape} (h : d.Selects env fs shapes)
    (hfs : ∀ f ∈ fs, f.body.filled = true) :
    ∀ shape ∈ shapes, shape.Filled ∧ shape.hasCollection = false := by
  intro shape hshape
  obtain ⟨f, hf, s, hs, hselection⟩ := exists_of_mem_right h shape hshape
  obtain ⟨p, -, rfl⟩ := scopeOf_eq_ok.mp hs
  rw [hb] at hselection
  exact filled_selection hc hd (hfs f hf) hselection

theorem exists_key (hb : d.bindings = {}) (hc : d.result.hasCollection = false) (hd : d.result.Filled)
    {fs : List Lambda} {shapes : List Shape} (h : d.Selects env fs shapes) (hne : fs ≠ [])
    (hfs : ∀ f ∈ fs, f.body.filled = true) : ∃ shape ∈ shapes, shape.leaves ≠ [] := by
  obtain ⟨shape, hshape⟩ := List.exists_mem_of_ne_nil shapes (h.ne_nil hne)
  obtain ⟨hfilled, hflat⟩ := filled_keys hb hc hd h hfs shape hshape
  exact ⟨shape, hshape, hfilled.leaves (Shape.isCollection_of_flat hflat)⟩

theorem filled_groupShape {shapes : List Shape} {elements : Shape} (hne : shapes ≠ [])
    (hs : ∀ s ∈ shapes, s.Filled ∧ s.hasCollection = false) (he : elements.Filled)
    (hc : elements.hasCollection = false) : (groupShape (keyShape shapes) elements).Filled := by
  have hkey : (keyShape shapes).Filled ∧ (keyShape shapes).isCollection = false := by
    unfold keyShape
    split
    · obtain ⟨hfilled, hflat⟩ := hs _ (List.mem_singleton_self _)
      exact ⟨hfilled, Shape.isCollection_of_flat hflat⟩
    · refine ⟨Shape.filled_of_members ?_ ?_, rfl⟩
      · obtain ⟨shape, rest, rfl⟩ := List.exists_cons_of_ne_nil hne
        exact List.cons_ne_nil _ _
      · intro m hm
        obtain ⟨hfilled, hflat⟩ := hs m.2 (mem_itemMembers hm)
        exact ⟨hfilled, Shape.isCollection_of_flat hflat⟩
  refine Shape.filled_of_members (List.cons_ne_nil _ _) ?_
  intro m hm
  rcases List.mem_cons.mp hm with rfl | hm
  · exact hkey
  · rw [List.mem_singleton.mp hm]
    exact ⟨he, Shape.isCollection_of_flat hc⟩

theorem filled_group (hb : d.bindings = {}) (hd : d.result.Filled) {g : Grouping}
    (hg : ∀ f ∈ g.selector :: g.keys, f.body.filled = true) (h : d.group env g = .ok d') :
    d'.result.Filled := by
  obtain ⟨hc, hne, -⟩ := group_eq_ok.mp h
  obtain ⟨shapes, hselects, -, hshows⟩ := group_shows h
  have hkeys := filled_keys hb hc hd hselects fun f hf => hg f (List.mem_cons_of_mem _ hf)
  have hgroup := filled_groupShape (hselects.ne_nil hne) hkeys hd hc
  have hflat := flat_groupShape (fun s hs => (hkeys s hs).2) hc
  obtain ⟨s, hs, hresult⟩ := hshows.result
  obtain ⟨p, -, rfl⟩ := scopeOf_eq_ok.mp hs
  rw [hb] at hresult
  exact (filled_selection hflat hgroup (hg g.selector (List.mem_cons_self ..)) hresult).1

/-! ### Loading -/

theorem filled_walk (hcat : env.catalog.Columned) {steps : List NavigationStep} {below : Bool}
    {shape shape' : Shape} (hs : shape.Filled) (hw : walk env steps below shape d = (shape', d', none)) :
    shape'.Filled := by
  induction steps generalizing below shape shape' d with
  | nil =>
    cases hw
    exact hs
  | cons step steps ih =>
    obtain ⟨owner, d₁, owner', member, many, member', ho, ht, hrest, rfl⟩ := walk_cons_eq_none hw
    have howner := hs.owner ho
    have hreworks := walk_reworks hrest
    rw [takeStep_withMember ht]
    refine .withOwner ?_ shape
    rcases takeStep_eq_ok ht with ⟨-, -, -, hm⟩ | ⟨link, k, k', c, f, hi, -, -, -, -, -, rfl, -⟩
    · refine howner.withMember (ih (howner.lookup hm) hrest) ?_
      intro m hm'
      obtain rfl : member = m := Option.some.inj (hm.symm.trans hm')
      exact hreworks.isCollection
    · obtain ⟨-, -, -, target, -, -, -, -, -, hhas, -, -, -, htarget, -⟩ := inspect_eq_link hi
      have hrelated : (relatedShape link.many
          (.ofEntity link.target (d.aliases.fresh link.target.table)) c f).Filled := by
        unfold relatedShape
        split
        · exact Shape.Filled.withOwner (Shape.filled_ofEntity (hcat.entity? htarget) rfl)
            (.collection (.scalar k) c f)
        · exact Shape.filled_ofEntity (hcat.entity? htarget) rfl
      refine howner.withMember (ih hrelated hrest) ?_
      intro m hm
      rw [Entries.has, hm] at hhas
      cases hhas

end Draft

/-! ## Runs -/

/-- Whether what the operator selects is filled where the query is. -/
def Operator.Fills : Operator → Prop
  | .select f => f.body.filled = true
  | .groupBy g => ∀ f ∈ g.selector :: g.keys, f.body.filled = true
  | .join _ _ _ selector => selector.body.filled = true
  | _ => True

namespace Query

variable {env : Env} {q q' : Query} {op : Operator}

theorem Extends.filled (hcat : env.catalog.Columned) {d : Draft} (hb : d.bindings = {})
    (hd : d.result.Filled) (hop : op.Fills) (h : Extends env d op q') : q'.draft.result.Filled := by
  cases h with
  | filter hf =>
    obtain ⟨p, e, -, -, rfl⟩ := Draft.filter_eq_ok.mp hf
    exact hd
  | orderBy hf =>
    obtain ⟨p, e, -, -, rfl⟩ := Draft.orderBy_eq_ok.mp hf
    split <;> exact hd
  | select hf => exact Draft.filled_select hb hd hop hf
  | skip _ => exact hd
  | take _ => exact hd
  | distinct _ => exact hd
  | aggregate hf =>
    obtain ⟨-, -, es, -, rfl⟩ := Draft.aggregate_eq_ok.mp hf
    exact Shape.filled_scalar _
  | groupBy hg => exact Draft.filled_group hb hd hop hg
  | load hl =>
    obtain ⟨-, result, d₁, hw, rfl⟩ := load_eq_ok.mp hl
    exact Draft.filled_walk hcat hd hw

theorem filled_wrap (hq : q.draft.result.Filled) (env : Env) (table : String) :
    (q.wrap env table).result.Filled :=
  .of_rel (q.wrap_exposes env table) hq

theorem filled_host (hq : q.draft.result.Filled) (env : Env) (op : Operator) :
    (q.host env op).draft.result.Filled := by
  unfold host
  split
  · exact filled_wrap hq env _
  · exact hq

theorem Tidy.host_bindings (hq : q.Tidy) (env : Env) (op : Operator) :
    (q.host env op).draft.bindings = {} := by
  unfold host
  split
  · exact (hq.promoted env).bindings
  · exact hq.bindings

theorem Adds.filled (hcat : env.catalog.Columned) (hb : q.draft.bindings = {}) (hq : q.draft.result.Filled)
    (hflat : op.isJoin = true → q.draft.result.hasCollection = false) (hop : op.Fills)
    (hinner : ∀ kind inner condition selector, op = .join kind inner condition selector →
      inner.draft.result.Filled)
    (h : Adds env q op q') : q'.draft.result.Filled := by
  cases h with
  | extend _ he => exact he.filled hcat hb hq hop
  | move _ => exact hq
  | select _ hf => exact Draft.filled_select hb hq hop hf
  | @join kind inner condition selector _ _ r r' _ result _ hi _ _ _ hr =>
    have hside := filled_wrap (hinner kind inner condition selector rfl) env (joinedLabel q.draft env)
    have hsideFlat := (inner.hasCollection_wrap env (joinedLabel q.draft env)).trans hi
    rw [hb] at hr
    exact Scope.shape_filled (((Scope.flat_empty _ _).bind (hflat rfl) r).bind hsideFlat r')
      ((Bindings.filled_empty.bind hq r).bind hside r') selector.body 0 result hop hr

theorem Chain.filled (hcat : env.catalog.Columned) {ops : List Operator}
    (h : Chain env Operator.Fills ops q) : q.draft.result.Filled := by
  induction h with
  | root hr =>
    obtain ⟨e, he, rfl⟩ := root_eq_ok.mp hr
    exact Shape.filled_ofEntity (hcat.entity? he) rfl
  | @accept ops innerOps q q' op hq hop _ ha ih hinner =>
    obtain ⟨hflat, hadds, -⟩ := adds_of_accept ha
    have hbindings := hq.reachable.tidy.host_bindings env op
    refine hadds.filled hcat hbindings (filled_host ih env op) ?_ hop hinner
    intro hjoin
    cases op with
    | join kind inner condition selector =>
      have hp : q.stage.promotes (.join kind inner condition selector) = true := rfl
      rw [host_of_promotes hp]
      exact (q.hasCollection_wrap env _).trans (hflat hp)
    | _ => cases hjoin

end Query

/-! ## The grouping of a run -/

theorem Stage.next_eq_grouping {s : Stage} {op : Operator} (h : s.next op = .grouping) :
    (∃ g, op = .groupBy g) ∨ s = .grouping ∧ ∃ f, op = .select f := by
  cases op with
  | groupBy g => exact .inl ⟨g, rfl⟩
  | select f => cases s <;> first | exact .inr ⟨rfl, f, rfl⟩ | cases h
  | _ => cases s <;> cases h

namespace Query

variable {env : Env} {q q' : Query} {op : Operator} {entity : String} {ops : List Operator}

theorem build_concat : build env entity (ops ++ [op]) = .ok q' ↔
    ∃ q, build env entity ops = .ok q ∧ q.accept env op = .ok q' := by
  simp only [build, acceptAll, List.foldlM_append, List.foldlM_cons, List.foldlM_nil, bind_eq_ok, pure_eq_ok,
    exists_eq_right]
  constructor
  · rintro ⟨r, hr, q, hq, ha⟩
    exact ⟨q, ⟨r, hr, hq⟩, ha⟩
  · rintro ⟨q, ⟨r, hr, hq⟩, ha⟩
    exact ⟨r, hr, q, hq, ha⟩

theorem groupBy_of_select {f : Lambda} (hs : q.stage = .grouping) (h : q.accept env (.select f) = .ok q') :
    q'.draft.groupBy = q.draft.groupBy := by
  have hstays : q.stage.promotes (.select f) ≠ true := by
    rw [hs]
    exact Bool.false_ne_true
  obtain ⟨-, hadds, -⟩ := adds_of_accept h
  rw [host_of_stays hstays] at hadds
  cases hadds with
  | extend hgeneral _ =>
    rw [hs] at hgeneral
    cases hgeneral
  | move hm => rcases hm.operator with ⟨_, hop⟩ | ⟨_, hop⟩ | hop <;> cases hop
  | select _ hf =>
    obtain ⟨-, p, result, -, -, rfl⟩ := Draft.select_eq_ok.mp hf
    rfl

theorem group_of_accept {g : Grouping} (hq : Reachable env q) (h : q.accept env (.groupBy g) = .ok q') :
    (q.host env (.groupBy g)).draft.groupBy = [] ∧
      (q.host env (.groupBy g)).draft.group env g = .ok q'.draft := by
  obtain ⟨-, hadds, -⟩ := adds_of_accept h
  cases hadds with
  | extend hgeneral he =>
    cases he with
    | groupBy hg =>
      refine ⟨?_, hg⟩
      by_cases hp : q.stage.promotes (.groupBy g) = true
      · rw [host_of_promotes hp]
        rfl
      · rw [host_of_stays hp] at hgeneral ⊢
        exact (hq.ungrouped_shallow.1.ungrouped (.inl hgeneral)).1
  | move hm => rcases hm.operator with ⟨_, hop⟩ | ⟨_, hop⟩ | hop <;> cases hop

/-- A run that ends at the grouping stage ends in a grouping and selectors after it. -/
theorem grouping_of_build (hops : ∀ op ∈ ops, op.Built env) (h : build env entity ops = .ok q)
    (hs : q.stage = .grouping) :
    ∃ before g selectors q₀, ops = before ++ .groupBy g :: selectors ∧
      (∀ op ∈ selectors, ∃ f, op = .select f) ∧ build env entity before = .ok q₀ ∧ Reachable env q₀ ∧
      ∃ d, (q₀.host env (.groupBy g)).draft.groupBy = [] ∧
        (q₀.host env (.groupBy g)).draft.group env g = .ok d ∧ q.draft.groupBy = d.groupBy := by
  induction ops using List.reverseRecOn generalizing q with
  | nil =>
    obtain ⟨r, hr, h⟩ := bind_eq_ok.mp h
    obtain ⟨e, -, rfl⟩ := root_eq_ok.mp hr
    cases h
    cases hs
  | append_singleton ops op ih =>
    obtain ⟨q₀, hq₀, ha⟩ := build_concat.mp h
    have hinit : ∀ op ∈ ops, op.Built env := fun op hop => hops op (List.mem_append_left _ hop)
    obtain ⟨-, -, hnext⟩ := adds_of_accept ha
    rcases Stage.next_eq_grouping (hnext.symm.trans hs) with ⟨g, rfl⟩ | ⟨hs₀, f, rfl⟩
    · have hreachable := reachable_of_build hinit hq₀
      obtain ⟨hnone, hg⟩ := group_of_accept hreachable ha
      refine ⟨ops, g, [], q₀, rfl, ?_, hq₀, hreachable, q.draft, hnone, hg, rfl⟩
      intro op hop
      cases hop
    · obtain ⟨before, g, selectors, q₁, rfl, hselectors, hq₁, hreachable, d, hnone, hg, heq⟩ :=
        ih hinit hq₀ hs₀
      refine ⟨before, g, selectors ++ [.select f], q₁, ?_, ?_, hq₁, hreachable, d, hnone, hg, ?_⟩
      · rw [List.append_assoc, List.cons_append]
      · intro op hop
        rcases List.mem_append.mp hop with hop | hop
        · exact hselectors op hop
        · exact ⟨f, List.mem_singleton.mp hop⟩
      · exact (groupBy_of_select hs₀ ha).trans heq

/-- **A grouped statement groups by what its key selectors select.** A query at the grouping stage got
there by a grouping, with nothing but selectors after it, and groups by the scalars of the shapes that
the key selectors select. So it has a key exactly if one of them holds a scalar. That is always so if
every entity has a column and no selector of the run makes a record without members. -/
theorem build_grouping_keys (hops : ∀ op ∈ ops, op.Built env) (h : build env entity ops = .ok q)
    (hs : q.stage = .grouping) :
    ∃ before g selectors q₀ shapes, ops = before ++ .groupBy g :: selectors ∧
      (∀ op ∈ selectors, ∃ f, op = .select f) ∧ build env entity before = .ok q₀ ∧
      (q₀.host env (.groupBy g)).draft.Selects env g.keys shapes ∧
      q.draft.groupBy = shapes.flatMap Shape.leaves ∧
      (Mapping.ofQuery env q).statement.groupBy = q.draft.groupBy ∧
      (q.draft.groupBy ≠ [] ↔ ∃ shape ∈ shapes, shape.leaves ≠ []) ∧
      (env.catalog.Columned → (∀ op ∈ ops, op.BuiltBy env Operator.Fills) → q.draft.groupBy ≠ []) := by
  obtain ⟨before, g, selectors, q₀, rfl, hselectors, hq₀, hreachable, d, hnone, hg, hgroupBy⟩ :=
    grouping_of_build hops h hs
  obtain ⟨hc, hne, -⟩ := Draft.group_eq_ok.mp hg
  obtain ⟨shapes, hselects, hleaves, -⟩ := Draft.group_shows hg
  have hshapes : q.draft.groupBy = shapes.flatMap Shape.leaves := by
    rw [hgroupBy, hleaves, hnone, List.nil_append]
  have hiff : q.draft.groupBy ≠ [] ↔ ∃ shape ∈ shapes, shape.leaves ≠ [] := by
    rw [hshapes, Ne, List.flatMap_eq_nil_iff]
    push Not
    rfl
  refine ⟨before, g, selectors, q₀, _, rfl, hselectors, hq₀, hselects, hshapes,
    (q.gives_ofQuery env).groupBy, hiff, ?_⟩
  intro hcat hfills
  have hchain := chain_of_build (fun op hop => hfills op (List.mem_append_left _ hop)) hq₀
  have hfilled := filled_host (hchain.filled hcat) env (.groupBy g)
  have hbindings := hreachable.tidy.host_bindings env (.groupBy g)
  have hg' : ∀ f ∈ g.selector :: g.keys, f.body.filled = true :=
    (hfills (.groupBy g) (List.mem_append_right _ (List.mem_cons_self ..))).1
  refine hiff.mpr (Draft.exists_key hbindings hc hfilled hselects hne ?_)
  exact fun f hf => hg' f (List.mem_cons_of_mem _ hf)

end Query

namespace Sample

/-- Five users with the given orders that are theirs, counted by city and by whether they are paid. -/
def ordersByCity (orders : Query) : List Operator :=
  [.load ⟨[{ property := "city" }]⟩,
    .take 5,
    .join .inner orders
      ⟨[x, y], .binary (.compare .eq) (.member (.param x) "id") (.member (.param y) "user_id")⟩
      ⟨[x, y], .record [("city", .member (.param x) "city"), ("order", .param y)]⟩,
    .groupBy {
      keys := [⟨[x], .member (.param x) "city"⟩,
        ⟨[x], .record [("paid", .member (.member (.param x) "order") "paid")]⟩]
      selector := ⟨[y], .record [("key", .member (.param y) "key"),
        ("orders", .aggregate .count none false)]⟩ },
    .select ⟨[x], .member (.param x) "orders"⟩]

end Sample

namespace Query

theorem build_grouping_keys_orders : ∃ orders q, build Sample.env "Order" Sample.paidOrders = .ok orders ∧
    build Sample.env "User" (Sample.ordersByCity orders) = .ok q ∧ q.stage = .grouping ∧
    q.draft.groupBy.map (·.text) = ["T.id1", "T.name1", "T1.paid"] ∧
    (∃ before g selectors q₀ shapes,
      Sample.ordersByCity orders = before ++ .groupBy g :: selectors ∧
      (∀ op ∈ selectors, ∃ f, op = .select f) ∧ build Sample.env "User" before = .ok q₀ ∧
      (q₀.host Sample.env (.groupBy g)).draft.Selects Sample.env g.keys shapes ∧
      q.draft.groupBy = shapes.flatMap Shape.leaves ∧
      (Mapping.ofQuery Sample.env q).statement.groupBy = q.draft.groupBy ∧
      ∃ shape ∈ shapes, shape.leaves ≠ []) ∧
    Sample.env.catalog.Columned ∧
    (∀ op ∈ Sample.ordersByCity orders, op.BuiltBy Sample.env Operator.Fills) ∧ q.draft.groupBy ≠ [] := by
  have h : (do
      let orders ← build Sample.env "Order" Sample.paidOrders
      let q ← build Sample.env "User" (Sample.ordersByCity orders)
      pure (q.stage, q.draft.groupBy.map (·.text)) : Except CompileError (Stage × List String)) =
      .ok (.grouping, ["T.id1", "T.name1", "T1.paid"]) := ok_of_toOption (by decide +kernel)
  simp only [bind_eq_ok, pure_eq_ok, Prod.mk.injEq] at h
  obtain ⟨orders, horders, q, hq, hstage, htexts⟩ := h
  have hcat : Sample.env.catalog.Columned := by
    unfold Catalog.Columned
    decide +kernel
  have hchain : Chain Sample.env Operator.Fills Sample.paidOrders orders := by
    refine chain_of_build ?_ horders
    simp [Sample.paidOrders, Operator.BuiltBy, Operator.Fills]
  have hfills : ∀ op ∈ Sample.ordersByCity orders, op.BuiltBy Sample.env Operator.Fills := by
    intro op hop
    refine ⟨?_, ?_⟩
    · revert op
      simp [Sample.ordersByCity, Operator.Fills, Term.filled, Term.filledAll]
    · intro kind inner condition selector hjoin
      rw [hjoin] at hop
      simp only [Sample.ordersByCity, List.mem_cons, List.not_mem_nil, reduceCtorEq, false_or, or_false,
        Operator.join.injEq] at hop
      rw [hop.2.1]
      exact ⟨_, hchain⟩
  have hbuilt : ∀ op ∈ Sample.ordersByCity orders, op.Built Sample.env := by
    intro op hop kind inner condition selector hjoin
    obtain ⟨ops, hinner⟩ := (hfills op hop).2 kind inner condition selector hjoin
    exact hinner.reachable
  obtain ⟨before, g, selectors, q₀, shapes, hops, hselectors, hq₀, hselects, hkeys, hstatement, hiff,
    hfilled⟩ := build_grouping_keys hbuilt hq hstage
  have hne := hfilled hcat hfills
  exact ⟨orders, q, horders, hq, hstage, htexts,
    ⟨before, g, selectors, q₀, shapes, hops, hselectors, hq₀, hselects, hkeys, hstatement, hiff.mp hne⟩,
    hcat, hfills, hne⟩

end Query

namespace Sample

/-- Everything in one group, by a key without members. -/
def byNothing : Grouping where
  keys := [⟨[x], .record []⟩]
  selector := ⟨[y], .const (.int 1)⟩

/-- Marks have no columns. -/
def mark : Entity where
  name := "Mark"
  table := "marks"

/-- Groups of equal objects. -/
def byItself : Grouping where
  keys := [⟨[x], .param x⟩]
  selector := ⟨[y], .aggregate .count none false⟩

end Sample

/-- A record without members groups by nothing, and so does the object of an entity without columns. -/
theorem Query.grouping_without_keys :
    (∃ q, build Sample.env "User" [.groupBy Sample.byNothing] = .ok q ∧ q.stage = .grouping ∧
      q.draft.groupBy = [] ∧ (Mapping.ofQuery Sample.env q).statement.groupBy = []) ∧
    ∃ q, build { catalog := ⟨[("Mark", Sample.mark)]⟩ } "Mark" [.groupBy Sample.byItself] = .ok q ∧
      q.stage = .grouping ∧ q.draft.groupBy = [] ∧
      (Mapping.ofQuery { catalog := ⟨[("Mark", Sample.mark)]⟩ } q).statement.groupBy = [] := by
  have h : ∀ env entity g, (do
      let q ← build env entity [.groupBy g]
      pure (q.stage, q.draft.groupBy.isEmpty) : Except CompileError (Stage × Bool)) = .ok (.grouping, true) →
      ∃ q, build env entity [.groupBy g] = .ok q ∧ q.stage = .grouping ∧ q.draft.groupBy = [] ∧
        (Mapping.ofQuery env q).statement.groupBy = [] := by
    intro env entity g h
    simp only [bind_eq_ok, pure_eq_ok, Prod.mk.injEq, List.isEmpty_iff] at h
    obtain ⟨q, hq, hstage, hnone⟩ := h
    exact ⟨q, hq, hstage, hnone, (q.gives_ofQuery env).groupBy.trans hnone⟩
  exact ⟨h _ _ _ (ok_of_toOption (by decide +kernel)), h _ _ _ (ok_of_toOption (by decide +kernel))⟩

end EntityQuery
