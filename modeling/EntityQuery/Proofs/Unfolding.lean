import EntityQuery.Proofs.Columns

/-! # Columns of derived tables, unfolded all the way

A column of a derived table stands for the expression that is selected under its name, which may in
turn mention columns of derived tables. `Sources.unfold` follows columns down to the tables. What an
expression unfolds to does not change when more sources are joined, nor when the statement it
belongs to is wrapped and the expression is replaced by the column that selects it. -/

namespace EntityQuery
set_option autoImplicit false

namespace Sql

/-! ## Replacement -/

namespace Expr

variable {f f' : Column → Expr} {g g' : Literal → Expr}

mutual

theorem replace_replace : ∀ e : Expr, (e.replace f g).replace f' g' =
    e.replace (fun c => (f c).replace f' g') (fun v => (g v).replace f' g')
  | .column _ => rfl
  | .literal _ => rfl
  | .compare _ l r => by simp only [replace, replace_replace l, replace_replace r]
  | .arithmetic _ l r => by simp only [replace, replace_replace l, replace_replace r]
  | .and ps => by simp only [replace, replaceAll_replaceAll ps]
  | .or ps => by simp only [replace, replaceAll_replaceAll ps]
  | .not e => by simp only [replace, replace_replace e]
  | .negate e => by simp only [replace, replace_replace e]
  | .isNull e _ => by simp only [replace, replace_replace e]
  | .inList e is _ => by simp only [replace, replace_replace e, replaceAll_replaceAll is]
  | .call _ as => by simp only [replace, replaceAll_replaceAll as]
  | .aggregate _ as _ => by simp only [replace, replaceAll_replaceAll as]

theorem replaceAll_replaceAll : ∀ es : List Expr, replaceAll f' g' (replaceAll f g es) =
    replaceAll (fun c => (f c).replace f' g') (fun v => (g v).replace f' g') es
  | [] => rfl
  | e :: es => by simp only [replaceAll, replace_replace e, replaceAll_replaceAll es]

end

theorem replaceAll_eq (es : List Expr) : replaceAll f g es = es.map (replace f g) := by
  induction es with
  | nil => rfl
  | cons e es ih => rw [replaceAll, ih, List.map_cons]

mutual

/-- Replacement looks at the columns that the expression mentions and at no others. -/
theorem replace_congr : ∀ e : Expr, (∀ c ∈ e.columns, f c = f' c) → e.replace f g = e.replace f' g
  | .column c, h => h c (by simp)
  | .literal _, _ => rfl
  | .compare _ l r, h => by
    simp only [columns_compare, List.mem_append] at h
    simp only [replace]
    rw [replace_congr l fun c hc => h c (.inl hc), replace_congr r fun c hc => h c (.inr hc)]
  | .arithmetic _ l r, h => by
    simp only [columns_arithmetic, List.mem_append] at h
    simp only [replace]
    rw [replace_congr l fun c hc => h c (.inl hc), replace_congr r fun c hc => h c (.inr hc)]
  | .and ps, h => by
    rw [columns_and] at h
    simp only [replace]
    rw [replaceAll_congr ps h]
  | .or ps, h => by
    rw [columns_or] at h
    simp only [replace]
    rw [replaceAll_congr ps h]
  | .not e, h => by
    rw [columns_not] at h
    simp only [replace]
    rw [replace_congr e h]
  | .negate e, h => by
    rw [columns_negate] at h
    simp only [replace]
    rw [replace_congr e h]
  | .isNull e _, h => by
    rw [columns_isNull] at h
    simp only [replace]
    rw [replace_congr e h]
  | .inList e is _, h => by
    simp only [columns_inList, List.mem_append] at h
    simp only [replace]
    rw [replace_congr e fun c hc => h c (.inl hc), replaceAll_congr is fun c hc => h c (.inr hc)]
  | .call _ as, h => by
    rw [columns_call] at h
    simp only [replace]
    rw [replaceAll_congr as h]
  | .aggregate _ as _, h => by
    rw [columns_aggregate] at h
    simp only [replace]
    rw [replaceAll_congr as h]

theorem replaceAll_congr : ∀ es : List Expr, (∀ c ∈ es.flatMap columns, f c = f' c) →
    replaceAll f g es = replaceAll f' g es
  | [], _ => rfl
  | e :: es, h => by
    simp only [List.flatMap_cons, List.mem_append] at h
    simp only [replaceAll]
    rw [replace_congr e fun c hc => h c (.inl hc), replaceAll_congr es fun c hc => h c (.inr hc)]

end

theorem beq_replace {a b : Expr} (h : (a == b) = true) (f : Column → Expr) :
    (a.replace f .literal == b.replace f .literal) = true := by
  have hcanonical (e : Expr) : (e.replace f .literal).canonical =
      e.canonical.replace (fun c => (f c).canonical) .literal := by
    simp only [canonical, replace_replace, replace]
  rw [beq_iff, hcanonical, hcanonical, (beq_iff a b).mp h]

end Expr

/-! ## Tracing columns -/

mutual

/-- What the column of a name stands for in terms of the columns of tables. -/
def Source.trace : Source → String → Expr
  | .table _ label, name => .column ⟨label, name⟩
  | .derived q label, name => q.trace label name

/-- What a column stands for if it belongs to one of the joined sources. -/
def Join.traceAll : List Join → Column → Expr
  | [], c => .column c
  | ⟨_, s, _⟩ :: js, c => if s.label = c.table then s.trace c.name else Join.traceAll js c

/-- What a column of the sources stands for. One that belongs to none stands for itself. -/
def Sources.trace : Sources → Column → Expr
  | ⟨s, js⟩, c => if s.label = c.table then s.trace c.name else Join.traceAll js c

/-- What the column that the statement selects under a name stands for, where the statement is
visible under `label`. -/
def Statement.trace : Statement → String → String → Expr
  | ⟨f, cs, _, _, _, _, _, _, _⟩, label, name =>
    match cs.find? fun p => p.label = name with
    | some p => p.expr.replace (fun c => f.trace c) .literal
    | none => .column ⟨label, name⟩

end

/-- The expression over the columns of tables that an expression over the sources stands for. -/
def Sources.unfold (s : Sources) (e : Expr) : Expr := e.replace s.trace .literal

theorem Statement.trace_eq (st : Statement) (label name : String) :
    st.trace label name = ((st.columns.find? fun p => p.label = name).map fun p =>
      st.sources.unfold p.expr).getD (.column ⟨label, name⟩) := by
  obtain ⟨f, cs, c, g, h, o, d, s, t⟩ := st
  rw [Statement.trace]
  cases cs.find? fun p => p.label = name <;> rfl

theorem Sources.trace_eq (s : Sources) (c : Column) :
    s.trace c = ((s.all.find? fun x => x.label = c.table).map fun x => x.trace c.name).getD
      (.column c) := by
  have hjoins (js : List Join) : Join.traceAll js c =
      (((js.map (·.source)).find? fun x => x.label = c.table).map fun x => x.trace c.name).getD
        (.column c) := by
    induction js with
    | nil => rfl
    | cons j js ih =>
      obtain ⟨k, x, e⟩ := j
      rw [Join.traceAll, List.map_cons, List.find?_cons, ih]
      by_cases h : x.label = c.table <;> simp [h]
  obtain ⟨x, js⟩ := s
  rw [Sources.trace, Sources.all, List.find?_cons, hjoins]
  by_cases h : x.label = c.table <;> simp [h]

/-! ## More sources -/

/-- The sources `t` are `s` with more joined to them. -/
structure Sources.Grows (s t : Sources) : Prop where
  first : t.first = s.first
  joins : s.joins <+: t.joins

theorem Sources.Grows.refl (s : Sources) : s.Grows s := ⟨rfl, List.prefix_refl _⟩

theorem Sources.Grows.trans {s t u : Sources} (h : s.Grows t) (h' : t.Grows u) : s.Grows u :=
  ⟨h'.first.trans h.first, h.joins.trans h'.joins⟩

theorem Sources.Grows.join (s : Sources) (j : Join) : s.Grows (s.join j) :=
  ⟨rfl, List.prefix_append _ _⟩

theorem Sources.Grows.all {s t : Sources} (h : s.Grows t) : s.all <+: t.all := by
  obtain ⟨js, hjs⟩ := h.joins
  refine ⟨js.map (·.source), ?_⟩
  rw [Sources.all, Sources.all, h.first, ← hjs, List.map_append, List.cons_append]

/-- What an expression unfolds to does not depend on sources that are joined later. -/
theorem Sources.Grows.unfold {s t : Sources} (h : s.Grows t) {e : Expr}
    (he : e.Over fun c => c.table ∈ s.aliases) : t.unfold e = s.unfold e := by
  refine Expr.replace_congr e fun c hc => ?_
  obtain ⟨more, hmore⟩ := h.all
  have hmem := he c hc
  rw [Sources.aliases_eq, List.mem_map] at hmem
  obtain ⟨x, hx, hlabel⟩ := hmem
  have hfound : (s.all.find? fun x => x.label = c.table).isSome = true :=
    List.find?_isSome.mpr ⟨x, hx, by simp [hlabel]⟩
  rw [Sources.trace_eq, Sources.trace_eq, ← hmore, List.find?_append,
    Option.or_of_isSome hfound]

/-! ## Wrapping -/

theorem Statement.Exposes.unfolds {st : Statement} {table : String} (js : List Join)
    (hd : Distinguished st.columns) {e e' : Expr} (h : Exposes table st.columns e e') :
    (Sources.unfold ⟨.derived st table, js⟩ e == st.sources.unfold e') = true := by
  obtain ⟨col, hcol, rfl, heq⟩ := h
  have htrace : Sources.unfold ⟨.derived st table, js⟩ (.column ⟨table, col.label⟩) =
      st.sources.unfold col.expr := by
    simp only [Sources.unfold, Expr.replace, Sources.trace, Source.label, if_true, Source.trace]
    rw [Statement.trace_eq, hd.find?_label hcol]
    rfl
  rw [htrace]
  exact Expr.beq_replace heq _

end Sql

/-! ## Eager loading -/

namespace Draft

variable {env : Env}

/-- The draft `e` is `d` with other aliases and with more sources joined. -/
structure Joins (d e : Draft) : Prop where
  rest : e = { d with aliases := e.aliases, sources := e.sources }
  sources : d.sources.Grows e.sources

theorem Joins.refl (d : Draft) : d.Joins d := ⟨rfl, .refl _⟩

theorem Joins.trans {d e f : Draft} (h : d.Joins e) (h' : e.Joins f) : d.Joins f := by
  refine ⟨?_, h.sources.trans h'.sources⟩
  rw [h'.rest, h.rest]

theorem takeStep_joins {d d' : Draft} {owner owner' : ObjectOf Shape} {step : NavigationStep}
    {below many : Bool} {member : Shape}
    (h : d.takeStep env owner step below = (d', .ok (owner', member, many))) : d.Joins d' := by
  rcases takeStep_eq_ok h with ⟨-, rfl, -, -⟩ | ⟨link, k, k', c, f, -, -, -, -, -, rfl, -, -⟩
  · exact .refl d'
  · exact ⟨rfl, .join _ _⟩

theorem walk_joins {steps : List NavigationStep} {below : Bool} {shape shape' : Shape} {d d' : Draft}
    (h : walk env steps below shape d = (shape', d', none)) : d.Joins d' := by
  induction steps generalizing below shape shape' d with
  | nil =>
    cases h
    exact .refl _
  | cons step steps ih =>
    obtain ⟨owner, d₁, owner', member, many, member', -, ht, hrest, -⟩ := walk_cons_eq_none h
    exact (takeStep_joins ht).trans (ih hrest)

theorem load_joins {d d' : Draft} {chain : NavigationChain} (h : Query.load d env chain = .ok d') :
    d' = { d with aliases := d'.aliases, sources := d'.sources, result := d'.result } ∧
      d.sources.Grows d'.sources := by
  obtain ⟨-, result, d₁, hw, rfl⟩ := Query.load_eq_ok.mp h
  have hj := walk_joins hw
  refine ⟨?_, hj.sources⟩
  rw [hj.rest]

end Draft

end EntityQuery
