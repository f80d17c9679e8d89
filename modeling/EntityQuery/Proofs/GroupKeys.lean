import EntityQuery.Proofs.Acceptance
import EntityQuery.Proofs.Reachable
import EntityQuery.Proofs.Renaming

/-! # Group keys and the key of a group

A key selector is read twice: once for the expressions to group by, once for the shape that a group
shows as its key. The two readings count nesting differently, and only one of them goes below one
level of records. Where both succeed, the expressions are the scalars of the shape, so no chain of
members from the key of a group leads to a scalar that is not grouped by. -/

namespace EntityQuery
set_option autoImplicit false

theorem Shape.memberLeaves_append (ms ms' : List (String × Shape)) :
    memberLeaves (ms ++ ms') = memberLeaves ms ++ memberLeaves ms' := by
  induction ms with
  | nil => rfl
  | cons m ms ih => rw [List.cons_append, memberLeaves, memberLeaves, ih, List.append_assoc]

/-! ## Depth -/

namespace Scope

variable {s : Scope}

theorem resolve_eq_shape? : ∀ {t : Term} {depth : Nat} {o : Option Shape},
    s.resolve t depth = .ok o → s.bindings.shape? t = o
  | .param p, depth, o, h => by
    simp only [resolve, bind_eq_ok, pure_eq_ok, lookup_eq_ok] at h
    obtain ⟨-, -, shape, hp, rfl⟩ := h
    exact hp
  | .member t name, depth, o, h => by
    simp only [resolve, bind_eq_ok] at h
    obtain ⟨d, -, owner, howner, h⟩ := h
    rw [Bindings.shape?, resolve_eq_shape? howner]
    cases owner with
    | none =>
      cases h
      rfl
    | some shape =>
      simp only [bind_eq_ok, pure_eq_ok, memberOf_eq_ok] at h
      obtain ⟨m, hm, rfl⟩ := h
      exact hm
  | .const _, depth, o, h | .binary .., depth, o, h | .not _, depth, o, h | .negate _, depth, o, h
  | .call .., depth, o, h | .isIn .., depth, o, h | .aggregate .., depth, o, h
  | .record _, depth, o, h => by
    simp only [resolve, bind_eq_ok, pure_eq_ok] at h
    obtain ⟨-, -, rfl⟩ := h
    rfl

theorem scalarMember_agree {t : Term} {d d' : Nat} {e e' : Sql.Expr} (h : s.scalarMember t d = .ok e)
    (h' : s.scalarMember t d' = .ok e') : e = e' := by
  have hshape := (scalarMember_eq_ok.mp h).2.1
  have hshape' := (scalarMember_eq_ok.mp h').2.1
  rw [hshape, Option.some.injEq, Shape.scalar.injEq] at hshape'
  exact hshape'

mutual

theorem scalar_agree : ∀ (t : Term) {d d' : Nat} {e e' : Sql.Expr}, s.scalar t d = .ok e →
    s.scalar t d' = .ok e' → e = e'
  | .param p, _, _, _, _, h, h' => by
    simp only [scalar, bind_eq_ok] at h h'
    obtain ⟨_, -, h⟩ := h
    obtain ⟨_, -, h'⟩ := h'
    exact scalarMember_agree h h'
  | .member t name, _, _, _, _, h, h' => by
    simp only [scalar, bind_eq_ok] at h h'
    obtain ⟨_, -, h⟩ := h
    obtain ⟨_, -, h'⟩ := h'
    exact scalarMember_agree h h'
  | .const v, _, _, _, _, h, h' => by
    simp only [scalar, bind_eq_ok, pure_eq_ok] at h h'
    obtain ⟨_, -, rfl⟩ := h
    obtain ⟨_, -, rfl⟩ := h'
    rfl
  | .binary op l r, _, _, _, _, h, h' => by
    simp only [scalar, bind_eq_ok] at h h'
    obtain ⟨_, -, a, ha, b, hb, h⟩ := h
    obtain ⟨_, -, a', ha', b', hb', h'⟩ := h'
    rw [scalar_agree l ha ha', scalar_agree r hb hb', h', Except.ok.injEq] at h
    exact h.symm
  | .not t, _, _, _, _, h, h' => by
    simp only [scalar, bind_eq_ok, pure_eq_ok] at h h'
    obtain ⟨_, -, a, ha, rfl⟩ := h
    obtain ⟨_, -, a', ha', rfl⟩ := h'
    rw [scalar_agree t ha ha']
  | .negate t, _, _, _, _, h, h' => by
    simp only [scalar, bind_eq_ok, pure_eq_ok] at h h'
    obtain ⟨_, -, a, ha, rfl⟩ := h
    obtain ⟨_, -, a', ha', rfl⟩ := h'
    rw [scalar_agree t ha ha']
  | .call f as, _, _, _, _, h, h' => by
    simp only [scalar, bind_eq_ok, pure_eq_ok] at h h'
    obtain ⟨_, -, es, hes, rfl⟩ := h
    obtain ⟨_, -, es', hes', rfl⟩ := h'
    rw [scalars_agree as hes hes']
  | .isIn t is, _, _, _, _, h, h' => by
    simp only [scalar, bind_eq_ok, pure_eq_ok] at h h'
    obtain ⟨_, -, a, ha, es, hes, rfl⟩ := h
    obtain ⟨_, -, a', ha', es', hes', rfl⟩ := h'
    rw [scalar_agree t ha ha', scalars_agree is hes hes']
  | .aggregate f none distinct, _, _, _, _, h, h' => by
    simp only [scalar, bind_eq_ok] at h h'
    obtain ⟨_, -, h⟩ := h
    obtain ⟨_, -, h'⟩ := h'
    rw [h', Except.ok.injEq] at h
    exact h.symm
  | .aggregate f (some t) distinct, _, _, _, _, h, h' => by
    simp only [scalar, bind_eq_ok, pure_eq_ok] at h h'
    obtain ⟨_, -, a, ha, rfl⟩ := h
    obtain ⟨_, -, a', ha', rfl⟩ := h'
    rw [scalar_agree t ha ha']
  | .record _, _, _, _, _, h, _ => by
    simp only [scalar, bind_eq_ok, reduceCtorEq, and_false, exists_false] at h

theorem scalars_agree : ∀ (ts : List Term) {d d' : Nat} {es es' : List Sql.Expr},
    s.scalars ts d = .ok es → s.scalars ts d' = .ok es' → es = es'
  | [], _, _, _, _, h, h' => by
    rw [scalars, Except.ok.injEq] at h h'
    rw [← h, ← h']
  | t :: ts, _, _, _, _, h, h' => by
    simp only [scalars, bind_eq_ok, pure_eq_ok] at h h'
    obtain ⟨e, he, es, hes, rfl⟩ := h
    obtain ⟨e', he', es', hes', rfl⟩ := h'
    rw [scalar_agree t he he', scalars_agree ts hes hes']

end

/-! ## The two readings of a key selector -/

/-- A term that is no record has the shape that its chain of members stands for, or else is a scalar. -/
theorem shape_eq_ok_cases {t : Term} {depth : Nat} {shape : Shape} (h : s.shape t depth = .ok shape) :
    (∃ ms, t = .record ms) ∨ s.bindings.shape? t = some shape ∨
      s.bindings.shape? t = none ∧ ∃ d e, s.scalar t d = .ok e ∧ shape = .scalar e := by
  have hshapeOf : ∀ {d : Nat}, s.shapeOf t d = .ok shape → s.bindings.shape? t = some shape ∨
      s.bindings.shape? t = none ∧ ∃ d e, s.scalar t d = .ok e ∧ shape = .scalar e := by
    intro d h
    rcases shapeOf_cases h with hchain | ⟨hnone, e, he, rfl⟩
    · exact .inl (resolve_eq_shape? hchain)
    · exact .inr ⟨resolve_eq_shape? hnone, d, e, he, rfl⟩
  cases t with
  | record ms => exact .inl ⟨ms, rfl⟩
  | param p =>
    simp only [Scope.shape, bind_eq_ok] at h
    obtain ⟨d, -, h⟩ := h
    exact .inr (hshapeOf h)
  | member t name =>
    simp only [Scope.shape, bind_eq_ok] at h
    obtain ⟨d, -, h⟩ := h
    exact .inr (hshapeOf h)
  | _ =>
    simp only [Scope.shape, bind_eq_ok, pure_eq_ok] at h
    obtain ⟨d, -, e, he, rfl⟩ := h
    exact .inr (.inr ⟨rfl, d, e, he, rfl⟩)

theorem keysOf_eq_leaves {t : Term} {d d' : Nat} {keys : List Sql.Expr} {shape : Shape}
    (hkeys : s.keysOf t d = .ok keys) (hshape : s.shape t d' = .ok shape) : keys = shape.leaves := by
  rcases keysOf_cases hkeys with ⟨shape', hchain, rfl⟩ | ⟨hchain, e', he', rfl⟩
  · have hsome' := resolve_eq_shape? hchain
    rcases shape_eq_ok_cases hshape with ⟨ms, rfl⟩ | hsome | ⟨hnone, -⟩
    · cases hsome'
    · rw [Option.some.inj (hsome'.symm.trans hsome)]
    · cases hsome'.symm.trans hnone
  · have hnone' := resolve_eq_shape? hchain
    rcases shape_eq_ok_cases hshape with ⟨ms, rfl⟩ | hsome | ⟨-, d₁, e, he, rfl⟩
    · -- A record below a record is no scalar, so it gives no keys.
      simp only [scalar, bind_eq_ok, reduceCtorEq, and_false, exists_false] at he'
    · cases hnone'.symm.trans hsome
    · rw [scalar_agree t he' he]
      rfl

theorem keysOfAll_eq_leaves {d d' : Nat} {ms : List (String × Term)} {done members : List (String × Shape)}
    {keys : List Sql.Expr} (hkeys : s.keysOfAll ms d = .ok keys)
    (hmembers : s.shapes ms d' done = .ok members) :
    Shape.memberLeaves members = Shape.memberLeaves done ++ keys := by
  induction ms generalizing done keys with
  | nil =>
    rw [keysOfAll, Except.ok.injEq] at hkeys
    rw [shapes, Except.ok.injEq] at hmembers
    rw [← hkeys, ← hmembers, List.append_nil]
  | cons m ms ih =>
    simp only [keysOfAll, bind_eq_ok, pure_eq_ok] at hkeys
    obtain ⟨first, hfirst, more, hmore, rfl⟩ := hkeys
    rw [shapes] at hmembers
    split at hmembers
    · cases hmembers
    · obtain ⟨shape, hshape, hmembers⟩ := bind_eq_ok.mp hmembers
      have hhead : first = shape.leaves := keysOf_eq_leaves hfirst hshape
      have hrest := ih hmore hmembers
      rw [hrest, Shape.memberLeaves_append, hhead, Shape.memberLeaves, Shape.memberLeaves,
        List.append_nil, List.append_assoc]

/-- Where a key selector can be read both ways, it groups by the scalars of its shape. -/
theorem groupKeys_eq_leaves {f : Lambda} {keys : List Sql.Expr} {shape : Shape}
    (hkeys : s.groupKeys f = .ok keys) (hshape : s.selection f = .ok shape) : keys = shape.leaves := by
  unfold groupKeys at hkeys
  rw [selection] at hshape
  split at hkeys
  · rename_i ms hbody
    simp only [hbody, Scope.shape, bind_eq_ok, pure_eq_ok] at hkeys hshape
    obtain ⟨d, -, hkeys⟩ := hkeys
    obtain ⟨d', -, members, hmembers, rfl⟩ := hshape
    exact (keysOfAll_eq_leaves hkeys hmembers).symm
  · exact keysOf_eq_leaves hkeys hshape

/-! ## Chains from the key -/

theorem shape?_of_scalar_member {t : Term} {name : String} {depth : Nat} {e : Sql.Expr}
    (h : s.scalar (.member t name) depth = .ok e) :
    s.bindings.shape? (.member t name) = some (.scalar e) := by
  simp only [scalar, bind_eq_ok] at h
  obtain ⟨d, -, h⟩ := h
  exact (scalarMember_eq_ok.mp h).2.1

theorem shape?_of_shape_member {t : Term} {name : String} {depth : Nat} {shape : Shape}
    (h : s.shape (.member t name) depth = .ok shape) :
    s.bindings.shape? (.member t name) = some shape := by
  rcases shape_eq_ok_cases h with ⟨ms, hms⟩ | hsome | ⟨hnone, d, e, he, -⟩
  · cases hms
  · exact hsome
  · rw [shape?_of_scalar_member he] at hnone
    cases hnone

end Scope

namespace Shape

theorem leaves_of_member? {shape m : Shape} {name : String} (h : shape.member? name = some m) :
    ∀ e ∈ m.leaves, e ∈ shape.leaves := by
  intro e he
  cases shape with
  | scalar _ => cases h
  | collection _ _ _ => cases h
  | object o =>
    obtain ⟨before, after, hmembers, -⟩ := List.lookup_eq_some_iff.mp h
    obtain ⟨_, _, members, _, _⟩ := o
    subst hmembers
    rw [leaves, memberLeaves_append, memberLeaves]
    exact List.mem_append_right _ (List.mem_append_left _ he)

theorem leaves_of_atPath? {path : List String} {shape m : Shape} (h : shape.atPath? path = some m) :
    ∀ e ∈ m.leaves, e ∈ shape.leaves := by
  induction path generalizing shape with
  | nil =>
    cases h
    exact fun _ he => he
  | cons name path ih =>
    obtain ⟨owner, howner, h⟩ := Option.bind_eq_some_iff.mp h
    intro e he
    exact leaves_of_member? howner e (ih h e he)

end Shape

/-- The chain of members along a path. -/
def Term.along (t : Term) (path : List String) : Term := path.foldl Term.member t

theorem Term.along_member (t : Term) (name : String) (path : List String) :
    ∃ u last, (t.member name).along path = .member u last := by
  induction path generalizing t name with
  | nil => exact ⟨t, name, rfl⟩
  | cons next path ih => exact ih (t.member name) next

theorem Bindings.shape?_along (b : Bindings) (t : Term) (path : List String) :
    b.shape? (t.along path) = (b.shape? t).bind (·.atPath? path) := by
  induction path generalizing t with
  | nil => cases h : b.shape? t <;> simp [Term.along, Shape.atPath?, h]
  | cons name path ih =>
    rw [Term.along, List.foldl_cons, ← Term.along, ih, shape?, Option.bind_assoc]
    rfl

namespace Draft

theorem leaves_keyShape (shapes : List Shape) : (keyShape shapes).leaves = shapes.flatMap Shape.leaves := by
  have hitems : ∀ (k : Nat) (shapes : List Shape),
      Shape.memberLeaves (itemMembers k shapes) = shapes.flatMap Shape.leaves := by
    intro k shapes
    induction shapes generalizing k with
    | nil => rfl
    | cons shape shapes ih => rw [itemMembers, Shape.memberLeaves, ih, List.flatMap_cons]
  cases shapes with
  | nil => rfl
  | cons shape rest =>
    cases rest with
    | nil => exact (List.append_nil _).symm
    | cons shape' rest => exact hitems 1 (shape :: shape' :: rest)

/-- Where a group's parameter is bound, what a chain from its `key` leads to has scalars of the key. -/
theorem leaves_of_key {b : Bindings} {p p' : Param} (hp : p'.id = p.id) {key elements m : Shape}
    {path : List String}
    (h : (b.bind p (groupShape key elements)).shape? (((Term.param p').member "key").along path) =
      some m) : ∀ e ∈ m.leaves, e ∈ key.leaves := by
  have hsame : (p' == p) = true := by
    rw [show (p' == p) = (p'.id == p.id) from rfl, hp, beq_self_eq_true]
  have hkey : (b.bind p (groupShape key elements)).shape? ((Term.param p').member "key") = some key := by
    rw [Bindings.shape?, Bindings.shape?, Bindings.get?_bind, if_pos hsame]
    rfl
  rw [Bindings.shape?_along, hkey] at h
  exact Shape.leaves_of_atPath? h

/-- The shapes that key selectors select, one for each. -/
def Selects (d : Draft) (env : Env) (fs : List Lambda) (shapes : List Shape) : Prop :=
  List.Forall₂ (fun f shape => ∃ s, d.scopeOf env f d.result = .ok s ∧ s.selection f = .ok shape)
    fs shapes

theorem selects_of_groupKey {d : Draft} {env : Env} {fs : List Lambda}
    {keys : List (List Sql.Expr × Shape)} (h : fs.mapM (d.groupKey env) = .ok keys) :
    d.Selects env fs (keys.map (·.2)) ∧ keys.flatMap (·.1) = (keys.map (·.2)).flatMap Shape.leaves := by
  have hkeys := mapM_eq_ok.mp h
  clear h
  induction hkeys with
  | nil => exact ⟨.nil, rfl⟩
  | cons hkey _ ih =>
    obtain ⟨p, hp, hk, hs⟩ := groupKey_eq_ok.mp hkey
    refine ⟨.cons ⟨_, scopeOf_eq_ok.mpr ⟨p, hp, rfl⟩, hs⟩ ih.1, ?_⟩
    rw [List.flatMap_cons, List.map_cons, List.flatMap_cons, ih.2, Scope.groupKeys_eq_leaves hk hs]

end Draft

/-! ## What is made of the groups -/

/-- The lambdas that see groups. -/
def Grouping.consumers (g : Grouping) : List Lambda := g.having ++ g.orderings.map (·.1) ++ [g.selector]

namespace Draft

/-- What the lambdas of a grouping give where their parameter stands for a group of the given shape:
the conditions that are added, in order, the orderings that replace those before, if there are any,
and the result. -/
structure Shows (d : Draft) (env : Env) (g : Grouping) (group : Shape) (d' : Draft) : Prop where
  having : ∃ es,
    List.Forall₂ (fun f e => ∃ s, d.scopeOf env f group = .ok s ∧ s.predicate f = .ok e) g.having es ∧
    d'.having = es.foldl (fun having e => some (Sql.Expr.andAlso having e)) d.having
  orderings : ∃ os,
    List.Forall₂ (fun o r => ∃ s, d.scopeOf env o.1 group = .ok s ∧ s.expression o.1 = .ok r.expr ∧
      r.direction = o.2) g.orderings os ∧
    d'.orderings = if os.isEmpty then d.orderings else os
  result : ∃ s, d.scopeOf env g.selector group = .ok s ∧ s.selection g.selector = .ok d'.result

theorem having_addHavings (es : List Sql.Expr) (d : Draft) :
    (es.foldl addHaving d).having =
      es.foldl (fun having e => some (Sql.Expr.andAlso having e)) d.having := by
  induction es generalizing d with
  | nil => rfl
  | cons e es ih => rw [List.foldl_cons, ih, List.foldl_cons, addHaving]

/-- A grouping adds the scalars of the shapes that its key selectors select, and what it makes of the
groups is read with these shapes as their key. -/
theorem group_shows {d d' : Draft} {env : Env} {g : Grouping} (h : d.group env g = .ok d') :
    ∃ shapes, d.Selects env g.keys shapes ∧ d'.groupBy = d.groupBy ++ shapes.flatMap Shape.leaves ∧
      d.Shows env g (groupShape (keyShape shapes) d.result) d' := by
  obtain ⟨-, -, keys, having, os, p, result, hkeys, hhaving, hos, hp, hresult, rfl⟩ := group_eq_ok.mp h
  obtain ⟨hselects, hleaves⟩ := selects_of_groupKey hkeys
  refine ⟨keys.map (·.2), hselects, ?_, ⟨having, ?_, ?_⟩, ⟨os, ?_, ?_⟩, ?_⟩
  · rw [setOrderings_eq, addHavings_eq, hleaves]
  · exact (mapM_eq_ok.mp hhaving).imp fun f e he => bind_eq_ok.mp he
  · rw [setOrderings_eq, having_addHavings]
  · refine (mapM_eq_ok.mp hos).imp fun o r hr => ?_
    simp only [groupOrdering, bind_eq_ok, pure_eq_ok] at hr
    obtain ⟨s, hs, e, he, rfl⟩ := hr
    exact ⟨s, hs, he, rfl⟩
  · rw [setOrderings_eq, addHavings_eq]
  · exact ⟨_, scopeOf_eq_ok.mpr ⟨p, hp, rfl⟩, hresult⟩

theorem Shows.scope {d d' : Draft} {env : Env} {g : Grouping} {group : Shape}
    (h : d.Shows env g group d') : ∀ f ∈ g.consumers, ∃ s, d.scopeOf env f group = .ok s := by
  intro f hf
  rw [Grouping.consumers, List.mem_append, List.mem_append, List.mem_singleton] at hf
  rcases hf with (hf | hf) | rfl
  · obtain ⟨es, hes, -⟩ := h.having
    obtain ⟨e, -, s, hs, -⟩ := exists_of_mem_right hes.flip f hf
    exact ⟨s, hs⟩
  · obtain ⟨os, hos, -⟩ := h.orderings
    obtain ⟨o, ho, rfl⟩ := List.mem_map.mp hf
    obtain ⟨r, -, s, hs, -⟩ := exists_of_mem_right hos.flip o ho
    exact ⟨s, hs⟩
  · obtain ⟨s, hs, -⟩ := h.result
    exact ⟨s, hs⟩

/-- **Group keys are the scalars of the key.** An accepted grouping adds, for the key selectors in
order, the scalars of the shape that each selects. Its conditions, its orderings and its result come
of lambdas that see groups with these shapes as their key. So there, no matter how deep, a chain of
members from the key that is a scalar, or that selects anything, gives scalars that are grouped by. -/
theorem group_by_leaves {d d' : Draft} {env : Env} {g : Grouping} (h : d.group env g = .ok d') :
    ∃ shapes,
      d.Selects env g.keys shapes ∧
      d'.groupBy = d.groupBy ++ shapes.flatMap Shape.leaves ∧
      d.Shows env g (groupShape (keyShape shapes) d.result) d' ∧
      ∀ f ∈ g.consumers, ∃ p s, f.params = [p] ∧
        d.scopeOf env f (groupShape (keyShape shapes) d.result) = .ok s ∧
        ∀ (p' : Param) (path : List String) (depth : Nat), p'.id = p.id →
          (∀ e, s.scalar (((Term.param p').member "key").along path) depth = .ok e →
            e ∈ d'.groupBy) ∧
          ∀ shape, s.shape (((Term.param p').member "key").along path) depth = .ok shape →
            ∀ e ∈ shape.leaves, e ∈ d'.groupBy := by
  obtain ⟨shapes, hselects, hgroupBy, hshows⟩ := group_shows h
  refine ⟨shapes, hselects, hgroupBy, hshows, ?_⟩
  intro f hf
  obtain ⟨s, hs⟩ := hshows.scope f hf
  obtain ⟨p, hp, rfl⟩ := scopeOf_eq_ok.mp hs
  refine ⟨p, _, hp, hs, ?_⟩
  intro p' path depth hid
  -- What the chain stands for decides, whichever reader comes upon it.
  have hgrouped : ∀ m, (d.bindings.bind p (groupShape (keyShape shapes) d.result)).shape?
      (((Term.param p').member "key").along path) = some m → ∀ e ∈ m.leaves, e ∈ d'.groupBy := by
    intro m hm e he
    have hkey := leaves_of_key hid hm e he
    rw [leaves_keyShape] at hkey
    rw [hgroupBy]
    exact List.mem_append_right _ hkey
  obtain ⟨u, last, hchain⟩ := Term.along_member (.param p') "key" path
  rw [hchain] at hgrouped ⊢
  constructor
  · intro e he
    exact hgrouped _ (Scope.shape?_of_scalar_member he) e (List.mem_singleton_self e)
  · intro shape hshape
    exact hgrouped shape (Scope.shape?_of_shape_member hshape)

end Draft

namespace Sample

/-- Users by age, by their city's name with the next age, and by city. -/
def byAgeAndCity : Grouping where
  keys :=
    [⟨[x], .member (.param x) "age"⟩,
      ⟨[x], .record [("city", .member (.member (.param x) "city") "name"),
        ("next", .binary (.arithmetic .add) (.member (.param x) "age") (.const (.int 1)))]⟩,
      ⟨[x], .member (.param x) "city"⟩]
  having := [⟨[y], .binary (.compare .gt)
    (.member (.member (.param y) "key") "item1") (.const (.int 17))⟩]
  orderings := [(⟨[y], (Term.member (.param y) "key").along ["item2", "city"]⟩, .asc)]
  selector := ⟨[x], .record [("key", .member (.param x) "key"), ("users", .aggregate .count none false)]⟩

end Sample

namespace Draft

theorem group_by_leaves_users : ∃ q d' shapes,
    Query.build Sample.env "User" [.load ⟨[{ property := "city" }]⟩] = .ok q ∧
      q.draft.groupBy = [] ∧ q.draft.group Sample.env Sample.byAgeAndCity = .ok d' ∧
      d'.groupBy.map (·.text) =
        ["users.age", "cities.name", "(users.age + 1)", "cities.id", "cities.name"] ∧
      d'.having.map (·.text) = some "(users.age > 17)" ∧
      d'.orderings.map (·.expr.text) = ["cities.name"] ∧
      q.draft.Selects Sample.env Sample.byAgeAndCity.keys shapes ∧
      d'.groupBy = shapes.flatMap Shape.leaves ∧
      q.draft.Shows Sample.env Sample.byAgeAndCity (groupShape (keyShape shapes) q.draft.result) d' ∧
      ∃ s, q.draft.scopeOf Sample.env Sample.byAgeAndCity.selector
          (groupShape (keyShape shapes) q.draft.result) = .ok s ∧
        s.selection Sample.byAgeAndCity.selector = .ok d'.result ∧
        ∀ shape, s.shape (.member (.param Sample.x) "key") 1 = .ok shape →
          ∀ e ∈ shape.leaves, e ∈ d'.groupBy := by
  have h : (do
      let q ← Query.build Sample.env "User" [.load ⟨[{ property := "city" }]⟩]
      let d' ← q.draft.group Sample.env Sample.byAgeAndCity
      pure (q.draft.groupBy.isEmpty, d'.groupBy.map (·.text), d'.having.map (·.text),
        d'.orderings.map (·.expr.text)) :
        Except CompileError (Bool × List String × Option String × List String)) =
      .ok (true, ["users.age", "cities.name", "(users.age + 1)", "cities.id", "cities.name"],
        some "(users.age > 17)", ["cities.name"]) := ok_of_toOption (by decide +kernel)
  simp only [bind_eq_ok, pure_eq_ok, Prod.mk.injEq, List.isEmpty_iff] at h
  obtain ⟨q, hq, d', hd', hnone, htexts, hkept, hsorted⟩ := h
  obtain ⟨shapes, hselects, hgroupBy, hshows, hchains⟩ := group_by_leaves hd'
  have hselector : Sample.byAgeAndCity.selector ∈ Sample.byAgeAndCity.consumers :=
    List.mem_append_right _ (List.mem_singleton_self _)
  obtain ⟨p, s, hp, hs, hkey⟩ := hchains _ hselector
  obtain rfl : Sample.x = p := List.head_eq_of_cons_eq hp
  obtain ⟨s', hs', hresult⟩ := hshows.result
  obtain rfl : s' = s := Except.ok.inj (hs'.symm.trans hs)
  refine ⟨q, d', shapes, hq, hnone, hd', htexts, hkept, hsorted, hselects, ?_, hshows, s', hs,
    hresult, ?_⟩
  · rw [hgroupBy, hnone, List.nil_append]
  · exact (hkey Sample.x [] 1 rfl).2

end Draft

end EntityQuery
