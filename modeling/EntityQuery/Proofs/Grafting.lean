import EntityQuery.Proofs.Filters
import EntityQuery.Proofs.Identity
import EntityQuery.Proofs.Reloading

/-! # Loading only adds

A chain that is loaded leaves every clause, every part of the result and every join as it was. What
it adds are joined tables, each with an object of its own on the path of the chain: the object's
columns are those of the table, and the table is joined to the object's owner. -/

namespace EntityQuery
set_option autoImplicit false

/-! ## What shapes keep when they grow -/

namespace Shape

/-- A way down in a shape: to a member of an object, or to the elements of a collection. -/
inductive Way where
  | member (name : String)
  | element

def down? : Shape → Way → Option Shape
  | .object o, .member name => o.members.lookup name
  | .collection element _ _, .element => some element
  | _, _ => none

/-- The part of a shape at the end of a path. -/
def partAt? (s : Shape) (path : List Way) : Option Shape := path.foldlM down? s

/-- What stays of a part, its own parts left aside: a scalar stays as it is, an object keeps its
members in order and may get more behind them. -/
def Continues : Shape → Shape → Prop
  | .scalar e, .scalar e' => e' = e
  | .object o, .object o' => o'.entity = o.entity ∧ o'.key = o.key ∧ o'.condition = o.condition ∧
    o'.filter = o.filter ∧ o.members.map (·.1) <+: o'.members.map (·.1)
  | .collection _ c f, .collection _ c' f' => c' = c ∧ f' = f
  | _, _ => False

/-- Every part is still there at the end of the same path. -/
def Keeps (s t : Shape) : Prop :=
  ∀ path part, s.partAt? path = some part → ∃ part', t.partAt? path = some part' ∧ part.Continues part'

theorem Continues.refl (s : Shape) : s.Continues s := by
  cases s with
  | scalar e => exact rfl
  | object o => exact ⟨rfl, rfl, rfl, rfl, List.prefix_refl _⟩
  | collection s c f => exact ⟨rfl, rfl⟩

theorem Keeps.refl (s : Shape) : s.Keeps s := fun _ part h => ⟨part, h, .refl part⟩

theorem Keeps.of_down {s t : Shape} (h : s.Continues t)
    (hdown : ∀ way m, s.down? way = some m → ∃ m', t.down? way = some m' ∧ m.Keeps m') : s.Keeps t := by
  intro path part hpart
  cases path with
  | nil =>
    cases hpart
    exact ⟨t, rfl, h⟩
  | cons way path =>
    obtain ⟨m, hm, hpart⟩ := Option.bind_eq_some_iff.mp hpart
    obtain ⟨m', hm', hkeeps⟩ := hdown way m hm
    obtain ⟨part', hpart', hcontinues⟩ := hkeeps path part hpart
    exact ⟨part', Option.bind_eq_some_iff.mpr ⟨m', hm', hpart'⟩, hcontinues⟩

theorem Keeps.withMember {o : ObjectOf Shape} {name : String} {m' : Shape}
    (h : ∀ m, o.members.lookup name = some m → m.Keeps m') :
    (Shape.object o).Keeps (.object (o.withMember name m')) := by
  refine .of_down ⟨rfl, rfl, rfl, rfl, ?_⟩ ?_
  · change _ <+: (Entries.put name m' o.members).map (·.1)
    cases hhas : Entries.has name o.members with
    | true => rw [Entries.map_fst_put_of_has hhas]
    | false =>
      rw [Entries.put_of_not_has hhas, List.map_append]
      exact List.prefix_append _ _
  · intro way m hm
    cases way with
    | element => cases hm
    | member other =>
      change o.members.lookup other = some m at hm
      by_cases hname : other = name
      · subst hname
        exact ⟨m', o.lookup_withMember other m', h m hm⟩
      · refine ⟨m, ?_, .refl m⟩
        exact (Entries.lookup_put_of_ne (beq_false_of_ne hname) m' o.members).trans hm

theorem Keeps.withOwner {s : Shape} {o o' : ObjectOf Shape} (ho : s.owner? = some o)
    (h : (Shape.object o).Keeps (.object o')) : s.Keeps (s.withOwner o') := by
  unfold owner? at ho
  split at ho
  · cases ho
    exact h
  · cases ho
    refine .of_down ⟨rfl, rfl⟩ ?_
    intro way m hm
    cases way with
    | member name => cases hm
    | element =>
      cases hm
      exact ⟨.object o', rfl, h⟩
  · cases ho

end Shape

/-! ## The scalars of an object itself -/

theorem Entries.filterMap_put {κ β γ : Type} [BEq κ] {k : κ} {v v' : β} {es : List (κ × β)}
    {f : κ × β → Option γ} (h : es.lookup k = some v) (hf : ∀ j, f (j, v') = f (j, v)) :
    (Entries.put k v' es).filterMap f = es.filterMap f := by
  induction es with
  | nil => cases h
  | cons e es ih =>
    by_cases hk : k == e.1
    · rw [List.lookup_cons, hk] at h
      cases h
      rw [Entries.put, if_pos hk, List.filterMap_cons, List.filterMap_cons, hf]
    · rw [List.lookup_cons, Bool.of_not_eq_true hk] at h
      rw [Entries.put, if_neg hk, List.filterMap_cons, List.filterMap_cons, ih h]

namespace ObjectOf

/-- The members that are scalars, with their names. -/
def leaves (o : ObjectOf Shape) : List (String × Sql.Expr) :=
  o.members.filterMap fun m => m.2.scalar?.map (m.1, ·)

theorem leaves_withMember_of_lookup {o : ObjectOf Shape} {name : String} {m m' : Shape}
    (hm : o.members.lookup name = some m) (h : m.Reworks m') :
    (o.withMember name m').leaves = o.leaves := by
  rcases h with rfl | ⟨p, p', hp, rfl⟩
  · rw [withMember_of_lookup hm]
  · -- Neither the member nor what comes in its place is a scalar.
    have hold : m.scalar? = none := by
      cases m with
      | scalar _ => cases hp
      | _ => rfl
    have hnew : (m.withOwner p').scalar? = none := Shape.Reworks.scalar? (.inr ⟨p, p', hp, rfl⟩) hold
    exact Entries.filterMap_put hm fun _ => by rw [hold, hnew]

theorem leaves_withMember_of_not_has {o : ObjectOf Shape} {name : String} {m : Shape}
    (h : Entries.has name o.members = false) (hm : m.scalar? = none) :
    (o.withMember name m).leaves = o.leaves := by
  simp [leaves, withMember, Entries.put_of_not_has h, hm]

theorem leaves_ofEntity (e : Entity) (label : String) :
    (ObjectOf.ofEntity e label).leaves =
      Entries.ofList (e.primitives.map fun p => (p.name, .column ⟨label, p.columnName⟩)) := by
  have hmembers : (ObjectOf.ofEntity e label).members =
      (Entries.ofList (e.primitives.map fun p => (p.name, Sql.Expr.column ⟨label, p.columnName⟩))).map
        fun m => (m.1, .scalar m.2) := by
    rw [(members_ofEntity e label).1, Entries.map_ofList, List.map_map]
    rfl
  rw [leaves, hmembers, List.filterMap_map]
  exact List.filterMap_some

/-- An object that differs from another at most below members that are no scalars. -/
structure Grows (o o' : ObjectOf Shape) : Prop where
  entity : o'.entity = o.entity
  key : o'.key = o.key
  condition : o'.condition = o.condition
  filter : o'.filter = o.filter
  leaves : o'.leaves = o.leaves

theorem Grows.refl (o : ObjectOf Shape) : o.Grows o := ⟨rfl, rfl, rfl, rfl, rfl⟩

theorem Grows.withMember {o : ObjectOf Shape} {name : String} {m : Shape}
    (h : (o.withMember name m).leaves = o.leaves) : o.Grows (o.withMember name m) :=
  ⟨rfl, rfl, rfl, rfl, h⟩

end ObjectOf

/-! ## Objects on the path of a chain -/

namespace Shape

theorem nodeAt?_withOwner_of_ne {s : Shape} {o : ObjectOf Shape} {name other : String}
    (ho : s.owner? = some o) (h : other ≠ name) (m : Shape) (path : List String) :
    (s.withOwner (o.withMember name m)).nodeAt? (other :: path) = s.nodeAt? (other :: path) := by
  have hlookup : (o.withMember name m).members.lookup other = o.members.lookup other :=
    Entries.lookup_put_of_ne (beq_false_of_ne h) m o.members
  simp only [nodeAt?, owner_withOwner, ho, Option.bind_eq_bind, Option.bind_some, hlookup]

theorem nodeAt?_withOwner_self (s : Shape) (o : ObjectOf Shape) (name : String) (m : Shape)
    (path : List String) : (s.withOwner (o.withMember name m)).nodeAt? (name :: path) = m.nodeAt? path :=
  nodeAt?_cons (s.owner_withOwner _) (o.lookup_withMember name m) path

theorem nodeAt?_of_lookup_none {s : Shape} {o : ObjectOf Shape} {name : String} (ho : s.owner? = some o)
    (h : o.members.lookup name = none) (path : List String) : s.nodeAt? (name :: path) = none := by
  simp [nodeAt?, ho, h]

theorem nodeAt?_ofEntity {s : Shape} {o : ObjectOf Shape} {e : Entity} {label : String}
    (ho : s.owner? = some o) (hm : o.members = (ObjectOf.ofEntity e label).members) (name : String)
    (path : List String) : s.nodeAt? (name :: path) = none := by
  have hlookup := ObjectOf.lookup_ofEntity e label name
  rw [← hm] at hlookup
  cases hp : e.member? name with
  | none =>
    rw [hp] at hlookup
    exact nodeAt?_of_lookup_none ho hlookup path
  | some p =>
    rw [hp] at hlookup
    rw [nodeAt?_cons ho hlookup]
    cases path <;> rfl

end Shape

/-! ## Grafts -/

/-- A table joined for a step of a chain. -/
structure Graft where
  before : List NavigationStep
  step : NavigationStep
  navigation : Property
  association : Association
  target : Entity
  label : String
  owner : ObjectOf Shape
  node : ObjectOf Shape
  ownerKey : Sql.Expr
  -- The property of the target whose column has to be equal to it.
  relatedKey : Property
  condition : Option Sql.Expr
  filter : Option Sql.Expr

/-- What a lambda of a step comes to, its parameter standing for the object of the joined rows. -/
def Lambda.Narrows (env : Env) (bindings : Bindings) (aliases : Aliases) (related : ObjectOf Shape) :
    Option Lambda → Option Sql.Expr → Prop
  | none, none => True
  | some f, some e => ∃ p, f.params = [p] ∧
    Scope.predicate ⟨bindings.bind p (.object related), aliases, env.settings.expressionDepth⟩ f = .ok e
  | _, _ => False

namespace Graft

def path (g : Graft) : List String := (g.before ++ [g.step]).map (·.property)

/-- The keys are equal. -/
def keys (g : Graft) : Sql.Expr :=
  .compare .eq g.ownerKey (.column ⟨g.label, g.relatedKey.columnName⟩)

/-- The keys are equal, and the conjuncts of the condition and then of the filter hold. -/
def on (g : Graft) : Sql.Expr :=
  match g.condition, g.filter with
  | none, none => g.keys
  | condition, filter => .and (g.keys :: (Sql.conjunctsOf condition ++ Sql.conjunctsOf filter))

def join (g : Graft) : Sql.Join := ⟨.left, .table g.target.table g.label, g.on⟩

/-- The graft as seen one step earlier. -/
def under (step : NavigationStep) (g : Graft) : Graft := { g with before := step :: g.before }

/-- How a graft sits in a result, if the given aliases were in use before it. -/
structure Fits (env : Env) (bindings : Bindings) (aliases : Aliases) (result : Shape) (g : Graft) : Prop where
  fresh : g.label = aliases.fresh g.target.table ∧ g.label ∉ aliases.taken
  owner : result.nodeAt? (g.before.map (·.property)) = some g.owner
  node : result.nodeAt? g.path = some g.node
  navigation : env.navigation? g.owner g.step.property = some (g.navigation, g.target)
  association : g.navigation.association = some g.association
  -- The object hangs under its owner, alone or as what a collection is made of.
  member : g.owner.members.lookup g.step.property =
    some (Draft.relatedShape (g.navigation.kind == .collection) g.node g.condition g.filter)
  entity : g.node.entity = some g.target.name ∧ g.node.key = g.target.key
  leaves : g.node.leaves =
    Entries.ofList (g.target.primitives.map fun p => (p.name, .column ⟨g.label, p.columnName⟩))
  ownerKey : g.owner.members.lookup g.association.thisKey = some (.scalar g.ownerKey)
  relatedKey : g.target.member? g.association.otherKey = some g.relatedKey
  condition : Lambda.Narrows env bindings (aliases.register g.label) (.ofEntity g.target g.label)
    g.step.condition g.condition
  filter : Lambda.Narrows env bindings (aliases.register g.label) (.ofEntity g.target g.label)
    g.step.filter g.filter

/-- Grafts that are made one after the other. -/
def FitAll (env : Env) (bindings : Bindings) (result : Shape) : Aliases → List Graft → Prop
  | _, [] => True
  | aliases, g :: gs => g.Fits env bindings aliases result ∧
    FitAll env bindings result (aliases.register g.label) gs

/-- The grafts of a chain are all that makes the new result differ from the old one: each is on the
path of the chain, and there is one for each object that is new. -/
structure Complete (env : Env) (bindings : Bindings) (aliases : Aliases) (steps : List NavigationStep)
    (old new : Shape) (gs : List Graft) : Prop where
  along : ∀ g ∈ gs, g.before ++ [g.step] <+: steps
  distinct : (gs.map path).Nodup
  nodes : ∀ place, place ∈ gs.map path ↔ old.nodeAt? place = none ∧ new.nodeAt? place ≠ none
  fits : FitAll env bindings new aliases gs

variable {env : Env} {bindings : Bindings} {aliases : Aliases} {result : Shape} {g : Graft}
  {gs : List Graft}

theorem on_eq (g : Graft) :
    Draft.linkCondition g.ownerKey (.column ⟨g.label, g.relatedKey.columnName⟩) g.condition g.filter =
      g.on := by
  unfold on keys Draft.linkCondition
  cases g.condition <;> cases g.filter <;>
    simp [Sql.Expr.andAlso, Sql.Expr.conjuncts, Sql.conjunctsOf]

theorem FitAll.labels (h : FitAll env bindings result aliases gs) :
    (gs.map (·.label)).Nodup ∧ (∀ g ∈ gs, g.label ∉ aliases.taken) ∧
      (gs.foldl (fun aliases g => aliases.register g.label) aliases).taken =
        aliases.taken ++ gs.map (·.label) := by
  induction gs generalizing aliases with
  | nil =>
    refine ⟨List.nodup_nil, ?_, (List.append_nil _).symm⟩
    intro g hg
    cases hg
  | cons g gs ih =>
    obtain ⟨hg, hgs⟩ := h
    obtain ⟨hnodup, hnotMem, htaken⟩ := ih hgs
    have hregister : (aliases.register g.label).taken = aliases.taken ++ [g.label] := by
      rw [hg.fresh.1]
      exact (aliases.reserve_fresh g.target.table).2.1
    simp only [hregister, List.mem_append, List.mem_singleton, not_or] at hnotMem
    refine ⟨List.nodup_cons.mpr ⟨?_, hnodup⟩, ?_, ?_⟩
    · intro hmem
      obtain ⟨g', hg', heq⟩ := List.mem_map.mp hmem
      exact (hnotMem g' hg').2 heq
    · intro g' hg'
      rcases List.mem_cons.mp hg' with rfl | hg'
      · exact hg.fresh.2
      · exact (hnotMem g' hg').1
    · rw [List.foldl_cons, htaken, hregister, List.append_assoc]
      rfl

/-! Grafts under a member are grafts of the whole, one step further down. -/

section Under

variable {shape member member' : Shape} {o : ObjectOf Shape} {step : NavigationStep}
  {steps : List NavigationStep}

theorem map_path_under (step : NavigationStep) (gs : List Graft) :
    (gs.map (under step)).map path = (gs.map path).map (step.property :: ·) := by
  rw [List.map_map, List.map_map]
  rfl

theorem Fits.under (h : g.Fits env bindings aliases member') (step : NavigationStep) (shape : Shape)
    (o : ObjectOf Shape) :
    (g.under step).Fits env bindings aliases
      (shape.withOwner (o.withMember step.property member')) where
  fresh := h.fresh
  owner := (shape.nodeAt?_withOwner_self o step.property member' _).trans h.owner
  node := (shape.nodeAt?_withOwner_self o step.property member' _).trans h.node
  navigation := h.navigation
  association := h.association
  member := h.member
  entity := h.entity
  leaves := h.leaves
  ownerKey := h.ownerKey
  relatedKey := h.relatedKey
  condition := h.condition
  filter := h.filter

theorem FitAll.under (h : FitAll env bindings member' aliases gs) (step : NavigationStep) (shape : Shape)
    (o : ObjectOf Shape) :
    FitAll env bindings (shape.withOwner (o.withMember step.property member')) aliases
      (gs.map (Graft.under step)) := by
  induction gs generalizing aliases with
  | nil => exact trivial
  | cons g gs ih => exact ⟨h.1.under step shape o, ih h.2⟩

theorem Complete.along_under (h : Complete env bindings aliases steps member member' gs)
    (step : NavigationStep) : ∀ g ∈ gs.map (Graft.under step), g.before ++ [g.step] <+: step :: steps := by
  intro g hg
  obtain ⟨g', hg', rfl⟩ := List.mem_map.mp hg
  exact List.cons_prefix_cons.mpr ⟨rfl, h.along g' hg'⟩

theorem Complete.through (h : Complete env bindings aliases steps member member' gs)
    (ho : shape.owner? = some o) (hm : o.members.lookup step.property = some member) :
    Complete env bindings aliases (step :: steps) shape
      (shape.withOwner (o.withMember step.property member')) (gs.map (Graft.under step)) := by
  refine ⟨h.along_under step, ?_, ?_, h.fits.under step shape o⟩
  · rw [map_path_under]
    exact h.distinct.map fun _ _ heq => (List.cons.inj heq).2
  · intro place
    rw [map_path_under]
    cases place with
    | nil => simp [Shape.nodeAt?, ho]
    | cons name path =>
      by_cases hname : name = step.property
      · subst hname
        rw [Shape.nodeAt?_cons ho hm, Shape.nodeAt?_withOwner_self, ← h.nodes path]
        simp
      · rw [Shape.nodeAt?_withOwner_of_ne ho hname]
        simp [Ne.symm hname]

theorem Complete.joined
    (hg : g.Fits env bindings aliases (shape.withOwner (o.withMember step.property member')))
    (hstep : g.before = [] ∧ g.step = step)
    (h : Complete env bindings (aliases.register g.label) steps member member' gs)
    (ho : shape.owner? = some o) (hm : o.members.lookup step.property = none)
    (hmember : ∀ name path, member.nodeAt? (name :: path) = none) :
    Complete env bindings aliases (step :: steps) shape
      (shape.withOwner (o.withMember step.property member')) (g :: gs.map (Graft.under step)) := by
  have hpath : g.path = [step.property] := by rw [path, hstep.1, hstep.2]; rfl
  have hnode : member'.nodeAt? [] ≠ none := by
    have hn := hg.node
    rw [hpath, Shape.nodeAt?_withOwner_self] at hn
    rw [hn]
    exact Option.some_ne_none _
  have hbelow : ∀ path, path ∈ gs.map Graft.path → path ≠ [] := by
    intro path hpath
    obtain ⟨g', -, rfl⟩ := List.mem_map.mp hpath
    simp [Graft.path]
  refine ⟨?_, ?_, ?_, hg, h.fits.under step shape o⟩
  · intro g' hg'
    rcases List.mem_cons.mp hg' with rfl | hg'
    · rw [hstep.1, hstep.2]
      exact List.cons_prefix_cons.mpr ⟨rfl, List.nil_prefix⟩
    · exact h.along_under step g' hg'
  · rw [List.map_cons, map_path_under, hpath]
    refine List.nodup_cons.mpr ⟨?_, h.distinct.map fun _ _ heq => (List.cons.inj heq).2⟩
    intro hmem
    obtain ⟨path, hpath, heq⟩ := List.mem_map.mp hmem
    exact hbelow path hpath (List.cons.inj heq).2
  · intro place
    rw [List.map_cons, map_path_under, hpath]
    cases place with
    | nil => simp [Shape.nodeAt?, ho]
    | cons name path =>
      by_cases hname : name = step.property
      · subst hname
        rw [Shape.nodeAt?_withOwner_self, Shape.nodeAt?_of_lookup_none ho hm]
        cases path with
        | nil => simpa using hnode
        | cons name path =>
          have hnodes := h.nodes (name :: path)
          rw [hmember] at hnodes
          simpa using hnodes
      · rw [Shape.nodeAt?_withOwner_of_ne ho hname]
        simp [hname, Ne.symm hname]

end Under

end Graft

/-! ## Walks -/

namespace Draft

/-- The draft with the tables of grafts joined to it, and the result left as it is. -/
def grafted (d : Draft) (gs : List Graft) : Draft :=
  { d with
    aliases := gs.foldl (fun aliases g => aliases.register g.label) d.aliases
    sources := ⟨d.sources.first, d.sources.joins ++ gs.map (·.join)⟩ }

theorem grafted_under (d : Draft) (step : NavigationStep) (gs : List Graft) :
    d.grafted (gs.map (.under step)) = d.grafted gs := by
  simp only [grafted, List.foldl_map, List.map_map]
  rfl

theorem grafted_nil (d : Draft) : d.grafted [] = d := by
  obtain ⟨_, _, ⟨_, _⟩, _, _, _, _, _, _⟩ := d
  simp [grafted]

theorem grafted_append (d : Draft) (gs gs' : List Graft) :
    (d.grafted gs).grafted gs' = d.grafted (gs ++ gs') := by
  simp [grafted]

theorem grafted_singleton (d : Draft) (link : Link) (g : Graft)
    (hlabel : g.label = d.aliases.fresh link.target.table) (htarget : g.target = link.target) :
    d.grafted [g] = d.linked link
      (linkCondition g.ownerKey (.column ⟨g.label, g.relatedKey.columnName⟩) g.condition g.filter) := by
  rw [g.on_eq]
  simp [linked, grafted, Graft.join, Sql.Sources.join, hlabel, htarget]

variable {env : Env} {d d₁ d' : Draft} {owner owner' o : ObjectOf Shape} {step : NavigationStep}
  {below many : Bool} {member member' shape shape' : Shape} {steps : List NavigationStep}

theorem takeStep_withMember (ht : d.takeStep env owner step below = (d₁, .ok (owner', member, many)))
    (m : Shape) : owner'.withMember step.property m = owner.withMember step.property m := by
  rcases takeStep_eq_ok ht with ⟨-, -, rfl, -⟩ | ⟨link, k, k', c, f, -, -, -, -, -, -, -, rfl⟩
  · rfl
  · exact owner.withMember_withMember step.property member m

theorem walk_grows (hw : walk env steps below shape d = (shape', d', none)) (ho : shape.owner? = some o) :
    ∃ o', shape' = shape.withOwner o' ∧ o.Grows o' := by
  cases steps with
  | nil =>
    cases hw
    exact ⟨o, (Shape.withOwner_of_owner ho).symm, .refl o⟩
  | cons step steps =>
    obtain ⟨owner, d₁, owner', member, many, member', ho', ht, hrest, rfl⟩ := walk_cons_eq_none hw
    obtain rfl : o = owner := Option.some.inj (ho.symm.trans ho')
    have hreworks := walk_reworks hrest
    refine ⟨_, congrArg shape.withOwner (takeStep_withMember ht member'), ?_⟩
    rcases takeStep_eq_ok ht with ⟨-, -, -, hm⟩ | ⟨link, k, k', c, f, hi, -, -, -, -, -, rfl, -⟩
    · exact .withMember (ObjectOf.leaves_withMember_of_lookup hm hreworks)
    · obtain ⟨-, -, -, -, -, hhas⟩ := navigation?_of_inspect hi
      have hscalar : member'.scalar? = none := by
        refine hreworks.scalar? ?_
        unfold relatedShape
        split <;> rfl
      exact .withMember (ObjectOf.leaves_withMember_of_not_has hhas hscalar)

theorem narrows_of_stepPredicate {target : Entity} {label : String} {f : Option Lambda} {r : Option Sql.Expr}
    (h : d.stepPredicate env (.object (.ofEntity target label)) f = .ok r) :
    Lambda.Narrows env d.bindings d.aliases (.ofEntity target label) f r := by
  rcases stepPredicate_eq_ok.mp h with ⟨rfl, rfl⟩ | ⟨g, p, e, rfl, hp, he, rfl⟩
  · exact trivial
  · exact ⟨p, hp, Scope.predicate_eq_ok.mpr ⟨e, he, rfl⟩⟩

theorem owner_relatedShape (many : Bool) (element : ObjectOf Shape) (c f : Option Sql.Expr) :
    ∃ o, (relatedShape many element c f).owner? = some o ∧ o.entity = element.entity ∧
      o.key = element.key ∧ o.members = element.members := by
  cases many with
  | true => exact ⟨_, rfl, rfl, rfl, rfl⟩
  | false => exact ⟨_, rfl, rfl, rfl, rfl⟩

theorem relatedShape_withOwner {element node : ObjectOf Shape} {c f : Option Sql.Expr}
    (ho : (relatedShape many element c f).owner? = some o) (h : o.Grows node) :
    (relatedShape many element c f).withOwner node = relatedShape many node c f := by
  cases many with
  | true => rfl
  | false =>
    cases ho
    have hc : node.condition = c := h.condition
    have hf : node.filter = f := h.filter
    obtain ⟨name, key, members, condition, filter⟩ := node
    subst hc hf
    rfl

theorem walk_related {target : Entity} {label : String} {c f : Option Sql.Expr}
    (hw : walk env steps below (relatedShape many (.ofEntity target label) c f) d = (member', d', none)) :
    ∃ node, member' = relatedShape many node c f ∧ member'.owner? = some node ∧
      node.entity = some target.name ∧ node.key = target.key ∧ node.leaves =
        Entries.ofList (target.primitives.map fun p => (p.name, .column ⟨label, p.columnName⟩)) := by
  obtain ⟨o, ho, hentity, hkey, hmembers⟩ := owner_relatedShape many (.ofEntity target label) c f
  obtain ⟨node, rfl, hgrows⟩ := walk_grows hw ho
  refine ⟨node, relatedShape_withOwner ho hgrows, Shape.owner_withOwner _ node, ?_, ?_, ?_⟩
  · rw [hgrows.entity, hentity, ObjectOf.entity_ofEntity]
  · rw [hgrows.key, hkey, (ObjectOf.members_ofEntity target label).2]
  · rw [hgrows.leaves, ← ObjectOf.leaves_ofEntity, ObjectOf.leaves, hmembers, ObjectOf.leaves]

/-- A step finds its member in place, or adds one and joins a table for it. The owner and the object
are described as they are when the steps below have been taken as well. -/
theorem takeStep_grafts (ht : d.takeStep env owner step below = (d₁, .ok (owner', member, many)))
    (hw : walk env steps (below || many) member d₁ = (member', d', none)) (shape : Shape) :
    (owner.members.lookup step.property = some member ∧ d₁ = d) ∨
    ∃ g : Graft, g.before = [] ∧ g.step = step ∧ d₁ = d.grafted [g] ∧
      owner.members.lookup step.property = none ∧ (∀ name path, member.nodeAt? (name :: path) = none) ∧
      g.Fits env d.bindings d.aliases (shape.withOwner (owner.withMember step.property member')) := by
  rcases takeStep_eq_ok ht with ⟨-, rfl, -, hm⟩ |
    ⟨link, k, k', c, f, hi, hk, hk', hc, hf, rfl, rfl, -⟩
  · exact .inl ⟨hm, rfl⟩
  obtain ⟨p, hp, ha, hmany, -, hhas⟩ := navigation?_of_inspect hi
  have hnone : owner.members.lookup step.property = none := by
    rwa [Entries.has, Option.isSome_eq_false_iff, Option.isNone_iff_eq_none] at hhas
  have hbelow : ∀ name path, (relatedShape link.many
      (.ofEntity link.target (d.aliases.fresh link.target.table)) c f).nodeAt? (name :: path) = none := by
    obtain ⟨o, ho, -, -, hmembers⟩ := owner_relatedShape link.many
      (.ofEntity link.target (d.aliases.fresh link.target.table)) c f
    exact Shape.nodeAt?_ofEntity ho hmembers
  obtain ⟨node, rfl, hnode, hentity, hkey, hleaves⟩ := walk_related hw
  obtain ⟨related, hrelated, rfl⟩ : ∃ related,
      link.target.member? link.association.otherKey = some related ∧
        k' = .column ⟨d.aliases.fresh link.target.table, related.columnName⟩ := by
    rw [ObjectOf.lookup_ofEntity, Option.map_eq_some_iff] at hk'
    obtain ⟨related, hrelated, hcolumn⟩ := hk'
    cases hcolumn
    exact ⟨related, hrelated, rfl⟩
  -- The owner's key is a member already and the step's property is not, so the key is still there.
  have hne : link.association.thisKey ≠ step.property := by
    intro heq
    rw [← heq, hk] at hnone
    cases hnone
  refine .inr ⟨{
    before := [], step, navigation := p, association := link.association, target := link.target
    label := d.aliases.fresh link.target.table
    owner := owner.withMember step.property (relatedShape link.many node c f)
    node, ownerKey := k, relatedKey := related, condition := c, filter := f },
    rfl, rfl, ?_, hnone, hbelow, ?_⟩
  · rw [grafted_singleton d link] <;> rfl
  · exact {
      fresh := ⟨rfl, d.aliases.fresh_notMem link.target.table⟩
      owner := shape.owner_withOwner _
      node := (shape.nodeAt?_withOwner_self owner step.property _ []).trans hnode
      navigation := hp
      association := ha
      member := hmany ▸ owner.lookup_withMember step.property _
      entity := ⟨hentity, hkey⟩
      leaves := hleaves
      ownerKey := (Entries.lookup_put_of_ne (beq_false_of_ne hne) _ owner.members).trans hk
      relatedKey := hrelated
      condition := narrows_of_stepPredicate hc
      filter := narrows_of_stepPredicate hf }

theorem walk_grafts (hw : walk env steps below shape d = (shape', d', none)) :
    ∃ gs, d' = d.grafted gs ∧ shape.Keeps shape' ∧
      Graft.Complete env d.bindings d.aliases steps shape shape' gs := by
  induction steps generalizing below shape shape' d with
  | nil =>
    cases hw
    refine ⟨[], d'.grafted_nil.symm, .refl _, ?_, List.nodup_nil, ?_, trivial⟩
    · intro g hg
      cases hg
    · intro place
      simp
  | cons step steps ih =>
    obtain ⟨owner, d₁, owner', member, many, member', ho, ht, hrest, rfl⟩ := walk_cons_eq_none hw
    obtain ⟨gs, rfl, hkeeps, hgs⟩ := ih hrest
    rw [takeStep_withMember ht]
    rcases takeStep_grafts ht hrest shape with ⟨hm, rfl⟩ | ⟨g, hbefore, hstep, rfl, hnone, hbelow, hfits⟩
    · refine ⟨gs.map (.under step), (grafted_under d₁ step gs).symm, .withOwner ho (.withMember ?_),
        hgs.through ho hm⟩
      intro m hm'
      rwa [Option.some.inj (hm'.symm.trans hm)]
    · refine ⟨g :: gs.map (.under step), ?_, .withOwner ho (.withMember ?_),
        .joined hfits ⟨hbefore, hstep⟩ hgs ho hnone hbelow⟩
      · rw [← grafted_under (d.grafted [g]) step gs, grafted_append]
        rfl
      · intro m hm
        rw [hnone] at hm
        cases hm

/-! ## Chains -/

/-- **Loading a chain only adds.** The tables of some grafts are joined after those that are there, and
no other clause changes. Every part of the old result is still at its place, the members of objects in
their order. The grafts stand for the objects that are new, one for each, and all are on the path of
the chain. -/
theorem load_grafts {chain : NavigationChain} (h : d.load env chain = (d', none)) :
    ∃ gs : List Graft, d' = { d.grafted gs with result := d'.result } ∧ d.result.Keeps d'.result ∧
      Graft.Complete env d.bindings d.aliases chain.steps d.result d'.result gs ∧
      (gs.map (·.label)).Nodup ∧ (∀ g ∈ gs, g.label ∉ d.aliases.taken) ∧
      d'.aliases.taken = d.aliases.taken ++ gs.map (·.label) := by
  obtain ⟨-, result, d₁, hw, rfl⟩ := load_eq_none.mp h
  obtain ⟨gs, rfl, hkeeps, hgs⟩ := walk_grafts hw
  exact ⟨gs, rfl, hkeeps, hgs, hgs.fits.labels⟩

theorem load_grafts_orders : ∃ q d' gs, Query.build Sample.env "User" [] = .ok q ∧
    q.draft.load Sample.env Sample.paidOrdersOf = (d', none) ∧
    d' = { q.draft.grafted gs with result := d'.result } ∧ q.draft.result.Keeps d'.result ∧
    Graft.Complete Sample.env q.draft.bindings q.draft.aliases Sample.paidOrdersOf.steps q.draft.result
      d'.result gs ∧
    gs.map (·.label) = ["orders", "users1"] := by
  have h : (do
      let q ← Query.build Sample.env "User" []
      let loaded := q.draft.load Sample.env Sample.paidOrdersOf
      pure (loaded.2.isNone, q.draft.aliases.taken, loaded.1.aliases.taken) :
        Except CompileError (Bool × List String × List String)) =
      .ok (true, ["users"], ["users", "orders", "users1"]) := ok_of_toOption (by decide +kernel)
  simp only [bind_eq_ok, pure_eq_ok, Prod.mk.injEq, Option.isNone_iff_eq_none] at h
  obtain ⟨q, hq, hnone, hbefore, hafter⟩ := h
  have hload : q.draft.load Sample.env Sample.paidOrdersOf =
      ((q.draft.load Sample.env Sample.paidOrdersOf).1, none) := Prod.ext rfl hnone
  obtain ⟨gs, hd, hkeeps, hgs, -, -, htaken⟩ := load_grafts hload
  refine ⟨q, _, gs, hq, hload, hd, hkeeps, hgs, ?_⟩
  rw [hbefore, hafter, List.singleton_append] at htaken
  exact (List.cons.inj htaken).2.symm

end Draft

end EntityQuery
