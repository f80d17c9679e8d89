import EntityQuery.Proofs.Semantics.Loading
import EntityQuery.Proofs.Evaluation

/-! # Where loaded navigations stand

While chains are loaded, each navigation gets a table of its own, visible under a label, and a place
in the shape of the result. A `Placed` tree keeps the two together: it is the tree of what is loaded
with the label of each navigation, and the shape is made of the columns of these labels. -/

namespace EntityQuery
set_option autoImplicit false

/-! ## What is loaded -/

namespace Loads

theorem add_nil (ls : Loads) : ls.add [] = ls := by
  cases ls <;> rfl

theorem nil_add (ss : List NavigationStep) : nil.add ss = ofSteps ss := by
  cases ss <;> rfl

theorem add_singleton_add (ls : Loads) (s : NavigationStep) (ss : List NavigationStep) :
    (ls.add [s]).add (s :: ss) = ls.add (s :: ss) := by
  induction ls with
  | nil =>
    rw [nil_add, nil_add, ofSteps, ofSteps, ofSteps, add, if_pos rfl, nil_add]
  | cons s' below rest _ ih =>
    by_cases h : s'.property = s.property
    · simp only [add, if_pos h, add_nil]
    · simp only [add, if_neg h, ih]

variable {I : Interpretation} {db : Database} {catalog : Catalog}

theorem single_of_add {ls : Loads} {ss : List NavigationStep} {e : Entity}
    (h : (ls.add ss).Single I db catalog e) : ls.Single I db catalog e := by
  induction ls generalizing ss e with
  | nil => trivial
  | cons s below rest ihb ihr =>
    cases ss with
    | nil => exact h
    | cons s' ss =>
      rw [add] at h
      split at h
      · refine ⟨fun link hl => ⟨(h.1 link hl).1, ihb (h.1 link hl).2⟩, h.2⟩
      · exact ⟨h.1, ihr h.2⟩

end Loads

/-! ## Trees with labels -/

/-- Loaded navigations with the labels of their tables. -/
inductive Placed where
  | nil
  | cons (step : NavigationStep) (link : Draft.Link) (label : String) (below rest : Placed)

namespace Placed

/-- What is loaded. -/
def loads : Placed → Loads
  | .nil => .nil
  | .cons step _ _ below rest => .cons step below.loads rest.loads

/-- A navigation with what is loaded below it. -/
structure Branch where
  step : NavigationStep
  link : Draft.Link
  label : String
  below : Placed

/-- The navigation of a name. -/
def find? (name : String) : Placed → Option Branch
  | .nil => none
  | .cons step link label below rest =>
    if step.property = name then some ⟨step, link, label, below⟩ else find? name rest

/-- The navigations are those that the entities have, each once. -/
def Linked (catalog : Catalog) : Placed → Entity → Prop
  | .nil, _ => True
  | .cons step link _ below rest, e =>
    e.link? catalog step.property = some link ∧ rest.find? step.property = none ∧
      Linked catalog below link.target ∧ Linked catalog rest e

/-- A navigation in its place: the entity and the label that it starts from, whether that is outside
all collections, and the step, the link and the label that it leads to. -/
structure Node where
  owner : Entity
  ownerLabel : String
  outer : Bool
  step : NavigationStep
  link : Draft.Link
  label : String

/-- All navigations of a tree that starts from an entity under a label. -/
def nodes : Placed → Entity → String → Bool → List Node
  | .nil, _, _, _ => []
  | .cons step link label below rest, e, l, outer =>
    ⟨e, l, outer, step, link, label⟩ ::
      (nodes below link.target label (outer && !link.many) ++ nodes rest e l outer)

/-- The members are the shapes of the navigations. -/
def Forms : Placed → List (String × Shape) → Prop
  | .nil, ms => ms = []
  | .cons step link label below rest, ms => ∃ s ms', ms = (step.property, s) :: ms' ∧
      s.isCollection = link.many ∧
      (∃ o inner, s.owner? = some o ∧ o.entity = some link.target.name ∧ o.key = link.target.key ∧
        o.members = (ObjectOf.ofEntity link.target label).members ++ inner ∧ Forms below inner) ∧
      Forms rest ms'

/-- The shape is that of an entity under a label with its navigations, or of a collection of it. -/
def Stands (t : Placed) (e : Entity) (label : String) (s : Shape) : Prop :=
  ∃ o inner, s.owner? = some o ∧ o.entity = some e.name ∧ o.key = e.key ∧
    o.members = (ObjectOf.ofEntity e label).members ++ inner ∧ t.Forms inner

theorem known_loads {catalog : Catalog} {t : Placed} {e : Entity} (h : t.Linked catalog e) :
    t.loads.Known catalog e := by
  induction t generalizing e with
  | nil => trivial
  | cons step link label below rest ihb ihr => exact ⟨⟨link, h.1, ihb h.2.2.1⟩, ihr h.2.2.2⟩

/-! ## A navigation that is there -/

/-- Puts another tree below the navigation of a name. -/
def replace (name : String) : Placed → Placed → Placed
  | .nil, _ => .nil
  | .cons step link label below rest, t =>
    if step.property = name then .cons step link label t rest
    else .cons step link label below (replace name rest t)

variable {I : Interpretation} {db : Database} {catalog : Catalog} {t t' : Placed} {e : Entity}
  {ms : List (String × Shape)} {name l : String} {s : Shape} {b : Branch} {outer : Bool}

theorem find_of_lookup (h : t.Forms ms) (hs : ms.lookup name = some s) :
    ∃ b, t.find? name = some b ∧ s.isCollection = b.link.many ∧
      b.below.Stands b.link.target b.label s := by
  induction t generalizing ms with
  | nil =>
    cases h
    cases hs
  | cons step link label below rest _ ih =>
    obtain ⟨s', ms', rfl, hc, hstands, hrest⟩ := h
    rw [List.lookup_cons] at hs
    rw [find?]
    by_cases hn : step.property = name
    · rw [hn, beq_self_eq_true] at hs
      cases hs
      exact ⟨_, if_pos hn, hc, hstands⟩
    · rw [beq_eq_false_iff_ne.mpr (Ne.symm hn)] at hs
      rw [if_neg hn]
      exact ih hrest hs

theorem find_of_lookup_none (h : t.Forms ms) (hs : ms.lookup name = none) : t.find? name = none := by
  induction t generalizing ms with
  | nil => rfl
  | cons step link label below rest _ ih =>
    obtain ⟨s', ms', rfl, -, -, hrest⟩ := h
    rw [List.lookup_cons] at hs
    rw [find?]
    by_cases hn : step.property = name
    · rw [hn, beq_self_eq_true] at hs
      cases hs
    · rw [beq_eq_false_iff_ne.mpr (Ne.symm hn)] at hs
      rw [if_neg hn]
      exact ih hrest hs

theorem forms_replace (h : t.Forms ms) (hb : t.find? name = some b)
    (hc : s.isCollection = b.link.many) (hs : t'.Stands b.link.target b.label s) :
    (t.replace name t').Forms (Entries.put name s ms) := by
  induction t generalizing ms with
  | nil => cases hb
  | cons step link label below rest _ ih =>
    obtain ⟨s', ms', rfl, hc', hstands, hrest⟩ := h
    rw [find?] at hb
    rw [replace, Entries.put]
    by_cases hn : step.property = name
    · rw [if_pos hn] at hb
      cases hb
      rw [if_pos hn, hn, beq_self_eq_true, if_pos rfl]
      exact ⟨s, ms', by rw [hn], hc, hs, hrest⟩
    · rw [if_neg hn] at hb
      rw [if_neg hn, beq_eq_false_iff_ne.mpr (Ne.symm hn), if_neg (by simp)]
      exact ⟨s', _, rfl, hc', hstands, ih hrest hb⟩

theorem linked_find (h : t.Linked catalog e) (hb : t.find? name = some b) :
    e.link? catalog name = some b.link ∧ b.below.Linked catalog b.link.target := by
  induction t with
  | nil => cases hb
  | cons step link label below rest _ ih =>
    rw [find?] at hb
    split at hb
    · rename_i hn
      cases hb
      exact ⟨hn ▸ h.1, h.2.2.1⟩
    · exact ih h.2.2.2 hb

theorem find_replace (name other : String) (h : t.find? other = none) :
    (t.replace name t').find? other = none := by
  induction t with
  | nil => rfl
  | cons step link label below rest _ ih =>
    rw [find?] at h
    split at h
    · cases h
    · rename_i hn
      rw [replace]
      split
      · rw [find?, if_neg hn, h]
      · rw [find?, if_neg hn, ih h]

theorem linked_replace (h : t.Linked catalog e) (hb : t.find? name = some b)
    (h' : t'.Linked catalog b.link.target) : (t.replace name t').Linked catalog e := by
  induction t with
  | nil => cases hb
  | cons step link label below rest _ ih =>
    rw [find?] at hb
    rw [replace]
    by_cases hn : step.property = name
    · rw [if_pos hn] at hb ⊢
      cases hb
      exact ⟨h.1, h.2.1, h', h.2.2.2⟩
    · rw [if_neg hn] at hb ⊢
      exact ⟨h.1, find_replace name _ h.2.1, h.2.2.1, ih h.2.2.2 hb⟩

theorem nodes_find (hb : t.find? name = some b) :
    ⟨e, l, outer, b.step, b.link, b.label⟩ ∈ t.nodes e l outer ∧
      b.below.nodes b.link.target b.label (outer && !b.link.many) ⊆ t.nodes e l outer := by
  induction t with
  | nil => cases hb
  | cons step link label below rest _ ih =>
    rw [find?] at hb
    rw [nodes]
    split at hb
    · cases hb
      exact ⟨List.mem_cons_self .., fun _ hn =>
        List.mem_cons_of_mem _ (List.mem_append_left _ hn)⟩
    · obtain ⟨hmem, hsub⟩ := ih hb
      exact ⟨List.mem_cons_of_mem _ (List.mem_append_right _ hmem), fun _ hn =>
        List.mem_cons_of_mem _ (List.mem_append_right _ (hsub hn))⟩

theorem nodes_replace (hb : t.find? name = some b) {n : Node}
    (hn : n ∈ (t.replace name t').nodes e l outer) :
    n ∈ t.nodes e l outer ∨ n ∈ t'.nodes b.link.target b.label (outer && !b.link.many) := by
  induction t with
  | nil => cases hb
  | cons step link label below rest _ ih =>
    rw [find?] at hb
    rw [replace] at hn
    rw [nodes, List.mem_cons, List.mem_append]
    by_cases hname : step.property = name
    · rw [if_pos hname] at hb hn
      cases hb
      rw [nodes, List.mem_cons, List.mem_append] at hn
      rcases hn with hn | hn | hn
      · exact .inl (.inl hn)
      · exact .inr hn
      · exact .inl (.inr (.inr hn))
    · rw [if_neg hname] at hb hn
      rw [nodes, List.mem_cons, List.mem_append] at hn
      rcases hn with hn | hn | hn
      · exact .inl (.inl hn)
      · exact .inl (.inr (.inl hn))
      · exact (ih hb hn).imp_left fun hn => .inr (.inr hn)

theorem mem_nodes_replace (hb : t.find? name = some b)
    (hsub : b.below.nodes b.link.target b.label (outer && !b.link.many) ⊆
      t'.nodes b.link.target b.label (outer && !b.link.many)) {n : Node}
    (hn : n ∈ t.nodes e l outer ∨ n ∈ t'.nodes b.link.target b.label (outer && !b.link.many)) :
    n ∈ (t.replace name t').nodes e l outer := by
  induction t with
  | nil => cases hb
  | cons step link label below rest _ ih =>
    rw [find?] at hb
    rw [replace]
    rw [nodes, List.mem_cons, List.mem_append] at hn
    by_cases hname : step.property = name
    · rw [if_pos hname] at hb ⊢
      cases hb
      rw [nodes, List.mem_cons, List.mem_append]
      rcases hn with (hn | hn | hn) | hn
      · exact .inl hn
      · exact .inr (.inl (hsub hn))
      · exact .inr (.inr hn)
      · exact .inr (.inl hn)
    · rw [if_neg hname] at hb ⊢
      rw [nodes, List.mem_cons, List.mem_append]
      rcases hn with (hn | hn | hn) | hn
      · exact .inl hn
      · exact .inr (.inl hn)
      · exact .inr (.inr (ih hb (.inl hn)))
      · exact .inr (.inr (ih hb (.inr hn)))

theorem loads_replace {step : NavigationStep} {ss : List NavigationStep}
    (hb : t.find? step.property = some b) (h : t'.loads = b.below.loads.add ss) :
    (t.replace step.property t').loads = t.loads.add (step :: ss) := by
  induction t with
  | nil => cases hb
  | cons step' link label below rest _ ih =>
    rw [find?] at hb
    by_cases hn : step'.property = step.property
    · rw [if_pos hn] at hb
      cases hb
      simp only [replace, loads, Loads.add, if_pos hn, h]
    · rw [if_neg hn] at hb
      simp only [replace, loads, Loads.add, if_neg hn, ih hb]

/-- A navigation that is there is not loaded again. -/
theorem loads_find {step : NavigationStep} (hb : t.find? step.property = some b) :
    t.loads.add [step] = t.loads := by
  induction t with
  | nil => cases hb
  | cons step' link label below rest _ ih =>
    rw [find?] at hb
    by_cases hn : step'.property = step.property
    · simp only [loads, Loads.add, if_pos hn, Loads.add_nil]
    · rw [if_neg hn] at hb
      simp only [loads, Loads.add, if_neg hn, ih hb]

theorem single_find {step : NavigationStep} {ss : List NavigationStep} (h : t.Linked catalog e)
    (hb : t.find? step.property = some b)
    (hs : (t.loads.add (step :: ss)).Single I db catalog e) :
    (b.below.loads.add ss).Single I db catalog b.link.target := by
  induction t with
  | nil => cases hb
  | cons step' link label below rest _ ih =>
    rw [find?] at hb
    rw [loads, Loads.add] at hs
    by_cases hn : step'.property = step.property
    · rw [if_pos hn] at hb hs
      cases hb
      exact (hs.1 link h.1).2
    · rw [if_neg hn] at hb hs
      exact ih h.2.2.2 hb hs.2

/-! ## A new navigation -/

/-- Adds a navigation at the end, with nothing below it. -/
def snoc (step : NavigationStep) (link : Draft.Link) (label : String) : Placed → Placed
  | .nil => .cons step link label .nil .nil
  | .cons step' link' label' below rest => .cons step' link' label' below (snoc step link label rest)

section Snoc

variable {step : NavigationStep} {link : Draft.Link} {label : String}

theorem forms_snoc (h : t.Forms ms) (hc : s.isCollection = link.many)
    (hs : nil.Stands link.target label s) :
    (t.snoc step link label).Forms (ms ++ [(step.property, s)]) := by
  induction t generalizing ms with
  | nil =>
    cases h
    exact ⟨s, [], rfl, hc, hs, rfl⟩
  | cons step' link' label' below rest _ ih =>
    obtain ⟨s', ms', rfl, hc', hstands, hrest⟩ := h
    exact ⟨s', _, rfl, hc', hstands, ih hrest⟩

theorem find_snoc (hb : t.find? step.property = none) :
    (t.snoc step link label).find? step.property = some ⟨step, link, label, nil⟩ := by
  induction t with
  | nil => exact if_pos rfl
  | cons step' link' label' below rest _ ih =>
    rw [find?] at hb
    rw [snoc, find?]
    by_cases hn : step'.property = step.property
    · rw [if_pos hn] at hb
      cases hb
    · rw [if_neg hn] at hb ⊢
      exact ih hb

theorem find_snoc_of_ne {other : String} (hb : t.find? other = none) (hne : step.property ≠ other) :
    (t.snoc step link label).find? other = none := by
  induction t with
  | nil => exact if_neg hne
  | cons step' link' label' below rest _ ih =>
    rw [find?] at hb
    split at hb
    · cases hb
    · rename_i hn
      rw [snoc, find?, if_neg hn, ih hb]

theorem linked_snoc (h : t.Linked catalog e) (hb : t.find? step.property = none)
    (hl : e.link? catalog step.property = some link) : (t.snoc step link label).Linked catalog e := by
  induction t with
  | nil => exact ⟨hl, rfl, trivial, trivial⟩
  | cons step' link' label' below rest _ ih =>
    rw [find?] at hb
    split at hb
    · cases hb
    · rename_i hn
      exact ⟨h.1, find_snoc_of_ne h.2.1 (Ne.symm hn), h.2.2.1, ih h.2.2.2 hb⟩

theorem mem_nodes_snoc {n : Node} : n ∈ (t.snoc step link label).nodes e l outer ↔
    n ∈ t.nodes e l outer ∨ n = ⟨e, l, outer, step, link, label⟩ := by
  induction t with
  | nil => simp [snoc, nodes]
  | cons step' link' label' below rest _ ih =>
    rw [snoc, nodes, nodes, List.mem_cons, List.mem_append, List.mem_cons, List.mem_append, ih,
      or_assoc, or_assoc]

theorem loads_snoc (hb : t.find? step.property = none) :
    (t.snoc step link label).loads = t.loads.add [step] := by
  induction t with
  | nil => rfl
  | cons step' link' label' below rest _ ih =>
    rw [find?] at hb
    by_cases hn : step'.property = step.property
    · rw [if_pos hn] at hb
      cases hb
    · rw [if_neg hn] at hb
      simp only [snoc, loads, Loads.add, if_neg hn, ih hb]

theorem single_new {ss : List NavigationStep} (hb : t.find? step.property = none)
    (hl : e.link? catalog step.property = some link)
    (hs : (t.loads.add (step :: ss)).Single I db catalog e) :
    link.many = false → ∀ row ∈ db e.table, (step.related I db e link row).length ≤ 1 := by
  induction t with
  | nil => exact (hs.1 link hl).1
  | cons step' link' label' below rest _ ih =>
    rw [find?] at hb
    rw [loads, Loads.add] at hs
    by_cases hn : step'.property = step.property
    · rw [if_pos hn] at hb
      cases hb
    · rw [if_neg hn] at hb hs
      exact ih hb hs.2

end Snoc

end Placed

end EntityQuery
