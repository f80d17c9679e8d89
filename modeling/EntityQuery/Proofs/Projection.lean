import EntityQuery.Proofs.Expression
import EntityQuery.Proofs.Freshness
import EntityQuery.Query.Derived

/-! # What projection does to a statement

Selecting an expression leaves every clause of a statement alone and adds at most one column at the
end. Over a whole shape this selects each distinct scalar once, in order of first appearance, and
each scalar of the rebound shape is a column of the derived table that holds an equal expression. -/

namespace EntityQuery
set_option autoImplicit false

namespace Sql

/-- The statement `t` is `s` with more columns at the end. -/
structure Statement.Widens (s t : Statement) : Prop where
  clauses : t = { s with columns := t.columns }
  columns : s.columns <+: t.columns

theorem Statement.Widens.refl (s : Statement) : s.Widens s := ⟨by cases s; rfl, List.prefix_refl _⟩

theorem Statement.Widens.trans {s t u : Statement} (h : s.Widens t) (h' : t.Widens u) :
    s.Widens u := by
  refine ⟨?_, h.columns.trans h'.columns⟩
  rw [h'.clauses, h.clauses]

/-- No two columns have one name, even up to case, and no two select equal expressions. -/
structure Distinguished (columns : List Projected) : Prop where
  labels : columns.Pairwise fun a b => a.label.toLower ≠ b.label.toLower
  exprs : columns.Pairwise fun a b => (a.expr == b.expr) = false

theorem Distinguished.nil : Distinguished [] := ⟨.nil, .nil⟩

/-- Adds an expression that is not there yet. -/
def addExpr (seen : List Expr) (e : Expr) : List Expr :=
  if seen.any (· == e) then seen else seen ++ [e]

/-- Adding expressions one by one, the first of each kind stays. -/
theorem foldl_addExpr (seen es : List Expr) :
    es.foldl addExpr seen = seen ++ (es.filter fun e => !seen.any (· == e)).eraseDups := by
  induction es generalizing seen with
  | nil => simp
  | cons e es ih =>
    rw [List.foldl_cons, ih, List.filter_cons]
    cases h : seen.any (· == e) with
    | true => simp [addExpr, h]
    | false =>
      simp only [addExpr, h, Bool.false_eq_true, if_false, Bool.not_false, if_true]
      rw [List.append_assoc, List.singleton_append, List.eraseDups_cons, List.filter_filter]
      congr 3
      apply List.filter_congr
      intro x _
      rw [List.any_append, List.any_cons, List.any_nil, Bool.or_false, Bool.not_or, Bool.and_comm,
        BEq.comm (a := e)]

theorem mem_of_mem_foldl_addExpr {e : Expr} {seen es : List Expr} (h : e ∈ es.foldl addExpr seen) :
    e ∈ seen ∨ e ∈ es := by
  induction es generalizing seen with
  | nil => exact .inl h
  | cons x es ih =>
    rw [List.mem_cons]
    rcases ih h with h | h
    · unfold addExpr at h
      split at h
      · exact .inl h
      · rcases List.mem_append.mp h with h | h
        · exact .inl h
        · exact .inr (.inl (List.mem_singleton.mp h))
    · exact .inr (.inr h)

theorem foldl_addExpr_nil (es : List Expr) : es.foldl addExpr [] = es.eraseDups := by
  rw [foldl_addExpr]
  simp

namespace Statement

/-! ## One expression -/

theorem find?_eq_none_iff (s : Statement) (e : Expr) :
    s.find? e = none ↔ (s.columns.map (·.expr)).any (· == e) = false := by
  simp [find?, List.findIdx?_eq_none_iff]

theorem project_widens (s : Statement) (e : Expr) (hint : Option String) (base : String) :
    s.Widens (s.project e hint base).1 := by
  unfold project
  split
  · exact .refl s
  · exact ⟨rfl, List.prefix_append _ _⟩

theorem project_exprs (s : Statement) (e : Expr) (hint : Option String) (base : String) :
    (s.project e hint base).1.columns.map (·.expr) = addExpr (s.columns.map (·.expr)) e := by
  unfold project addExpr
  cases h : s.find? e with
  | none => simp only [(find?_eq_none_iff s e).mp h]; simp
  | some i =>
    cases ha : (s.columns.map (·.expr)).any (· == e) with
    | true => simp
    | false => rw [(find?_eq_none_iff s e).mpr ha] at h; cases h

theorem project_distinguished {s : Statement} (h : Distinguished s.columns) (e : Expr)
    (hint : Option String) (base : String) :
    Distinguished (s.project e hint base).1.columns := by
  unfold project
  split
  · exact h
  · rename_i hnone
    have hnew := (find?_eq_none_iff s e).mp hnone
    rw [List.any_map, List.any_eq_false] at hnew
    constructor
    · refine List.pairwise_append.mpr ⟨h.labels, List.pairwise_singleton _ _, ?_⟩
      intro a ha b hb
      rw [List.mem_singleton.mp hb]
      exact freshAlias_free s _ a ha
    · refine List.pairwise_append.mpr ⟨h.exprs, List.pairwise_singleton _ _, ?_⟩
      intro a ha b hb
      rw [List.mem_singleton.mp hb]
      exact Bool.eq_false_iff.mpr (hnew a ha)

theorem project_get (s : Statement) (e : Expr) (hint : Option String) (base : String) :
    ∃ col, (s.project e hint base).1.columns[(s.project e hint base).2]? = some col ∧
      (col.expr == e) = true := by
  unfold project
  cases h : s.find? e with
  | none => exact ⟨_, List.getElem?_concat_length, BEq.rfl⟩
  | some i =>
    obtain ⟨hi, he, -⟩ := List.findIdx?_eq_some_iff_getElem.mp h
    exact ⟨_, List.getElem?_eq_getElem hi, he⟩

/-- Outside, the expression is the column that selects it. -/
def Exposes (table : String) (columns : List Projected) (outside inside : Expr) : Prop :=
  ∃ col ∈ columns, outside = .column ⟨table, col.label⟩ ∧ (col.expr == inside) = true

theorem Exposes.mono {table : String} {cs cs' : List Projected} {e e' : Expr} (hcs : cs <+: cs')
    (h : Exposes table cs e e') : Exposes table cs' e e' := by
  obtain ⟨col, hcol, he, heq⟩ := h
  exact ⟨col, hcs.subset hcol, he, heq⟩

theorem expose_exposes (s : Statement) (e : Expr) (hint : Option String) (base table : String) :
    Exposes table (s.expose e hint base table).1.columns (s.expose e hint base table).2 e := by
  obtain ⟨col, hget, heq⟩ := project_get s e hint base
  refine ⟨col, List.mem_of_getElem? hget, ?_, heq⟩
  simp [expose, label?, hget]

end Statement

end Sql

/-! ## Shapes -/

namespace Shape

mutual

/-- All scalars of a shape, those inside collections included, in order of the members. -/
def scalars : Shape → List Sql.Expr
  | .scalar e => [e]
  | .object ⟨_, _, members, _, _⟩ => memberScalars members
  | .collection element _ _ => scalars element

def memberScalars : List (String × Shape) → List Sql.Expr
  | [] => []
  | (_, s) :: ms => scalars s ++ memberScalars ms

end

mutual

theorem scalars_eq_leaves : ∀ s : Shape, s.hasCollection = false → s.scalars = s.leaves
  | .scalar _, _ => rfl
  | .object ⟨_, _, members, _, _⟩, h => memberScalars_eq_leaves members h
  | .collection .., h => by simp [hasCollection] at h

theorem memberScalars_eq_leaves : ∀ ms : List (String × Shape), anyCollection ms = false →
    memberScalars ms = memberLeaves ms
  | [], _ => rfl
  | (_, s) :: ms, h => by
    rw [anyCollection, Bool.or_eq_false_iff] at h
    rw [memberScalars, memberLeaves, scalars_eq_leaves s h.1, memberScalars_eq_leaves ms h.2]

end

mutual

/-- The two shapes are the same tree with related scalars. What their parts were joined under does
not matter. -/
def Rel (R : Sql.Expr → Sql.Expr → Prop) : Shape → Shape → Prop
  | .scalar e, .scalar e' => R e e'
  | .object ⟨n, k, ms, _, _⟩, .object o => n = o.entity ∧ k = o.key ∧ RelMembers R ms o.members
  | .collection s _ _, .collection s' _ _ => Rel R s s'
  | _, _ => False

/-- The same names in the same order, with related shapes. -/
def RelMembers (R : Sql.Expr → Sql.Expr → Prop) : List (String × Shape) → List (String × Shape) → Prop
  | [], [] => True
  | (n, s) :: ms, (n', s') :: ms' => n = n' ∧ Rel R s s' ∧ RelMembers R ms ms'
  | _, _ => False

end

mutual

theorem Rel.mono {R R' : Sql.Expr → Sql.Expr → Prop} (hR : ∀ e e', R e e' → R' e e') :
    ∀ s t : Shape, Rel R s t → Rel R' s t
  | .scalar e, .scalar e', h => hR e e' h
  | .object ⟨_, _, ms, _, _⟩, .object o, h => ⟨h.1, h.2.1, RelMembers.mono hR ms o.members h.2.2⟩
  | .collection s _ _, .collection s' _ _, h => Rel.mono hR s s' h

theorem RelMembers.mono {R R' : Sql.Expr → Sql.Expr → Prop} (hR : ∀ e e', R e e' → R' e e') :
    ∀ ms ms' : List (String × Shape), RelMembers R ms ms' → RelMembers R' ms ms'
  | [], [], _ => trivial
  | (_, s) :: ms, (_, s') :: ms', h => ⟨h.1, Rel.mono hR s s' h.2.1, RelMembers.mono hR ms ms' h.2.2⟩

end

mutual

theorem Rel.hasCollection {R : Sql.Expr → Sql.Expr → Prop} : ∀ s s' : Shape, s.Rel R s' →
    s.hasCollection = s'.hasCollection
  | .scalar _, .scalar _, _ => rfl
  | .object ⟨_, _, ms, _, _⟩, .object ⟨_, _, ms', _, _⟩, h => RelMembers.anyCollection ms ms' h.2.2
  | .collection .., .collection .., _ => rfl

theorem RelMembers.anyCollection {R : Sql.Expr → Sql.Expr → Prop} :
    ∀ ms ms' : List (String × Shape), RelMembers R ms ms' →
      Shape.anyCollection ms = Shape.anyCollection ms'
  | [], [], _ => rfl
  | (_, s) :: ms, (_, s') :: ms', h => by
    rw [Shape.anyCollection, Shape.anyCollection, Rel.hasCollection s s' h.2.1,
      RelMembers.anyCollection ms ms' h.2.2]

end

mutual

/-- The shape without the conditions and filters that its parts were joined under. -/
def bare : Shape → Shape
  | .scalar e => .scalar e
  | .object ⟨n, k, ms, _, _⟩ => .object { entity := n, key := k, members := bareMembers ms }
  | .collection s _ _ => .collection (bare s) none none

def bareMembers : List (String × Shape) → List (String × Shape)
  | [] => []
  | (n, s) :: ms => (n, bare s) :: bareMembers ms

end

/-! ## Rebinding -/

section
variable (base table : String)

mutual

theorem rebind_bare : ∀ (s : Shape) (hint : Option String) (st : Sql.Statement),
    (rebind base table s hint st).1.bare = (rebind base table s hint st).1
  | .scalar _, _, _ => rfl
  | .object ⟨_, _, ms, _, _⟩, _, st => by
    rw [rebind, bare, rebindMembers_bare ms st]
  | .collection s _ _, _, st => by
    rw [rebind, bare, rebind_bare s none st]

theorem rebindMembers_bare : ∀ (ms : List (String × Shape)) (st : Sql.Statement),
    bareMembers (rebindMembers base table ms st).1 = (rebindMembers base table ms st).1
  | [], _ => rfl
  | (n, s) :: ms, st => by
    rw [rebindMembers, bareMembers, rebind_bare s (some n) st, rebindMembers_bare ms]

end

mutual

theorem rebind_widens : ∀ (s : Shape) (hint : Option String) (st : Sql.Statement),
    st.Widens (rebind base table s hint st).2
  | .scalar e, hint, st => st.project_widens e hint base
  | .object ⟨_, _, ms, _, _⟩, _, st => rebindMembers_widens ms st
  | .collection s _ _, _, st => rebind_widens s none st

theorem rebindMembers_widens : ∀ (ms : List (String × Shape)) (st : Sql.Statement),
    st.Widens (rebindMembers base table ms st).2
  | [], st => .refl st
  | (n, s) :: ms, st => (rebind_widens s (some n) st).trans (rebindMembers_widens ms _)

end

mutual

theorem rebind_distinguished : ∀ (s : Shape) (hint : Option String) (st : Sql.Statement),
    Sql.Distinguished st.columns → Sql.Distinguished (rebind base table s hint st).2.columns
  | .scalar e, hint, _, h => Sql.Statement.project_distinguished h e hint base
  | .object ⟨_, _, ms, _, _⟩, _, st, h => rebindMembers_distinguished ms st h
  | .collection s _ _, _, st, h => rebind_distinguished s none st h

theorem rebindMembers_distinguished : ∀ (ms : List (String × Shape)) (st : Sql.Statement),
    Sql.Distinguished st.columns → Sql.Distinguished (rebindMembers base table ms st).2.columns
  | [], _, h => h
  | (n, s) :: ms, st, h => rebindMembers_distinguished ms _ (rebind_distinguished s (some n) st h)

end

mutual

theorem rebind_exprs : ∀ (s : Shape) (hint : Option String) (st : Sql.Statement),
    (rebind base table s hint st).2.columns.map (·.expr) =
      s.scalars.foldl Sql.addExpr (st.columns.map (·.expr))
  | .scalar e, hint, st => st.project_exprs e hint base
  | .object ⟨_, _, ms, _, _⟩, _, st => rebindMembers_exprs ms st
  | .collection s _ _, _, st => rebind_exprs s none st

theorem rebindMembers_exprs : ∀ (ms : List (String × Shape)) (st : Sql.Statement),
    (rebindMembers base table ms st).2.columns.map (·.expr) =
      (memberScalars ms).foldl Sql.addExpr (st.columns.map (·.expr))
  | [], _ => rfl
  | (n, s) :: ms, st => by
    rw [rebindMembers, rebindMembers_exprs ms, rebind_exprs s, memberScalars, List.foldl_append]

end

mutual

theorem rebind_exposes : ∀ (s : Shape) (hint : Option String) (st : Sql.Statement),
    Rel (Sql.Statement.Exposes table (rebind base table s hint st).2.columns)
      (rebind base table s hint st).1 s
  | .scalar e, hint, st => st.expose_exposes e hint base table
  | .object ⟨_, _, ms, _, _⟩, _, st => ⟨rfl, rfl, rebindMembers_exposes ms st⟩
  | .collection s _ _, _, st => rebind_exposes s none st

theorem rebindMembers_exposes : ∀ (ms : List (String × Shape)) (st : Sql.Statement),
    RelMembers (Sql.Statement.Exposes table (rebindMembers base table ms st).2.columns)
      (rebindMembers base table ms st).1 ms
  | [], _ => trivial
  | (n, s) :: ms, st => by
    have hw := rebindMembers_widens base table ms (rebind base table s (some n) st).2
    refine ⟨rfl, ?_, rebindMembers_exposes ms _⟩
    exact Rel.mono (fun _ _ h => h.mono hw.columns) _ _ (rebind_exposes s (some n) st)

end

/-! ## Recipes -/

mutual

/-- The recipe for a shape selects the same columns as a derived table. -/
theorem activator_snd : ∀ (s : Shape) (hint : Option String) (st : Sql.Statement),
    (activator base s hint st).2 = (rebind base table s hint st).2
  | .scalar _, _, _ => rfl
  | .object ⟨_, _, ms, _, _⟩, _, st => memberActivators_snd ms st
  | .collection s _ _, _, st => activator_snd s none st

theorem memberActivators_snd : ∀ (ms : List (String × Shape)) (st : Sql.Statement),
    (memberActivators base ms st).2 = (rebindMembers base table ms st).2
  | [], _ => rfl
  | (n, s) :: ms, st => by
    rw [memberActivators, rebindMembers, memberActivators_snd ms, activator_snd s]

end

end

end Shape

/-! ## Orderings -/

section
variable (base table : String)

theorem rebindOrderings_widens (os : List Sql.Ordering) (st : Sql.Statement) :
    st.Widens (rebindOrderings base table os st).2 := by
  induction os generalizing st with
  | nil => exact .refl st
  | cons o os ih => exact (st.project_widens o.expr none base).trans (ih _)

theorem rebindOrderings_distinguished (os : List Sql.Ordering) (st : Sql.Statement)
    (h : Sql.Distinguished st.columns) :
    Sql.Distinguished (rebindOrderings base table os st).2.columns := by
  induction os generalizing st with
  | nil => exact h
  | cons o os ih => exact ih _ (Sql.Statement.project_distinguished h o.expr none base)

theorem rebindOrderings_exprs (os : List Sql.Ordering) (st : Sql.Statement) :
    (rebindOrderings base table os st).2.columns.map (·.expr) =
      (os.map (·.expr)).foldl Sql.addExpr (st.columns.map (·.expr)) := by
  induction os generalizing st with
  | nil => rfl
  | cons o os ih =>
    rw [List.map_cons, List.foldl_cons, ← st.project_exprs o.expr none base]
    exact ih _

theorem rebindOrderings_exposes (os : List Sql.Ordering) (st : Sql.Statement) :
    List.Forall₂
      (fun o o' : Sql.Ordering => o.direction = o'.direction ∧
        Sql.Statement.Exposes table (rebindOrderings base table os st).2.columns o.expr o'.expr)
      (rebindOrderings base table os st).1 os := by
  induction os generalizing st with
  | nil => exact .nil
  | cons o os ih =>
    have hw := rebindOrderings_widens base table os (st.expose o.expr none base table).1
    refine .cons ⟨rfl, ?_⟩ (ih _)
    exact (st.expose_exposes o.expr none base table).mono hw.columns

end

end EntityQuery
