import EntityQuery.Proofs.Semantics.Pipeline

/-! # The meaning of eager loading

What is loaded with an object is a tree of navigations. An object with what is loaded consists of
the columns of its row, and for each navigation of the object of the related row, or of all of them.
Which rows are related is said by the keys of the navigation and by the lambdas of the step that
loaded it first. Joins and results to be grouped play no part here. -/

namespace EntityQuery
set_option autoImplicit false

/-! ## What is loaded -/

/-- The navigations loaded with an object, each with what is loaded below it. -/
inductive Loads where
  | nil
  | cons (step : NavigationStep) (below rest : Loads)

namespace Loads

/-- The steps of one chain. -/
def ofSteps : List NavigationStep → Loads
  | [] => .nil
  | s :: ss => .cons s (ofSteps ss) .nil

/-- Adds the steps of a chain. A navigation that is loaded already stays as it is, and the rest of
the chain goes below it. -/
def add : Loads → List NavigationStep → Loads
  | ls, [] => ls
  | .nil, s :: ss => ofSteps (s :: ss)
  | .cons s below rest, s' :: ss =>
    if s.property = s'.property then .cons s (below.add ss) rest
    else .cons s below (rest.add (s' :: ss))

/-- What chains load, one after the other. -/
def ofChains (chains : List NavigationChain) : Loads :=
  chains.foldl (fun ls c => ls.add c.steps) .nil

end Loads

/-! ## Related rows -/

/-- The navigation of a name, if the entity has one and its target is known. -/
def Entity.link? (catalog : Catalog) (e : Entity) (name : String) : Option Draft.Link := do
  let p ← e.property? name
  let association ← p.association
  let target ← p.target.bind catalog.entity?
  if p.kind.isNavigation then some { many := p.kind == .collection, target, association } else none

variable (I : Interpretation) (db : Database) (catalog : Catalog)

/-- Whether a predicate, if there is one, is true of an object. -/
def NavigationStep.admits (f : Option Lambda) (d : Datum) : Bool :=
  f.all fun f => I.holds (f.eval I [d]).value = some true

/-- The predicates of the step have no aggregates. -/
def NavigationStep.AggregateFree (step : NavigationStep) : Prop :=
  (∀ f ∈ step.condition, f.body.hasAggregate = false) ∧ ∀ f ∈ step.filter, f.body.hasAggregate = false

/-- Whether a step leads from a row of its owner to a row of the target: the keys are equal, and the
condition and the filter are true of the target's object. -/
def NavigationStep.relates (step : NavigationStep) (owner : Entity) (link : Draft.Link)
    (row row' : String → Json) : Bool :=
  I.compare .eq ((Datum.ofEntity owner row).member link.association.thisKey).value
      ((Datum.ofEntity link.target row').member link.association.otherKey).value = some true &&
    admits I step.condition (Datum.ofEntity link.target row') &&
    admits I step.filter (Datum.ofEntity link.target row')

/-- The rows that a step leads to from a row of its owner, in table order. -/
def NavigationStep.related (step : NavigationStep) (owner : Entity) (link : Draft.Link)
    (row : String → Json) : List (String → Json) :=
  (db link.target.table).filter (step.relates I owner link row)

/-! ## Objects -/

/-- The columns of a row, by the names of the properties. -/
def Entity.columns (e : Entity) (row : String → Json) : List (String × Json) :=
  e.primitives.map fun p => (p.name, row p.columnName)

namespace Loads

/-- What the loaded navigations of a row hold. -/
def fields : Loads → Entity → (String → Json) → List (String × Json)
  | .nil, _, _ => []
  | .cons step below rest, e, row =>
    match e.link? catalog step.property with
    | none => fields rest e row
    | some link =>
      let objects := (step.related I db e link row).map fun r =>
        Json.ofFields (link.target.columns r ++ fields below link.target r)
      (step.property, if link.many then .list objects else objects.headD .null) :: fields rest e row

/-- The object of a row with what is loaded: its columns, the object of the related row for each
navigation to one, and the objects of all related rows for each navigation to many. -/
def object (ls : Loads) (e : Entity) (row : String → Json) : Json :=
  Json.ofFields (e.columns row ++ ls.fields I db catalog e row)

/-- All that is loaded are navigations with a known target. -/
def Known : Loads → Entity → Prop
  | .nil, _ => True
  | .cons step below rest, e =>
    (∃ link, e.link? catalog step.property = some link ∧ Known below link.target) ∧ Known rest e

/-- Each navigation to one leads to at most one row. -/
def Single : Loads → Entity → Prop
  | .nil, _ => True
  | .cons step below rest, e =>
    (∀ link, e.link? catalog step.property = some link →
      (link.many = false → ∀ row ∈ db e.table, (step.related I db e link row).length ≤ 1) ∧
        Single below link.target) ∧
    Single rest e

end Loads

/-! ## Well-formed catalogs and databases -/

/-- The values of the key in a row. -/
def Entity.keyValues (e : Entity) (row : String → Json) : List Json :=
  e.key.filterMap fun k => (e.property? k).map fun p => row p.columnName

def Entity.keyTexts (e : Entity) (row : String → Json) : List String :=
  (e.keyValues row).map Json.compact

/-- The properties stand under their names, each once and without a slash in it, and there is a key of
column properties. -/
structure Entity.WellFormed (e : Entity) : Prop where
  named : ∀ q ∈ e.properties, q.1 = q.2.name
  distinct : (e.properties.map (·.1)).Nodup
  unslashed : ∀ q ∈ e.properties, '/' ∉ q.1.toList
  keyed : e.key ≠ []
  key : e.badKey? = none

/-- The entities stand under their names and are well-formed. -/
structure Catalog.WellFormed (c : Catalog) : Prop where
  named : ∀ n e, c.entity? n = some e → e.name = n
  entities : ∀ n e, c.entity? n = some e → e.WellFormed

/-- The key of a row is never all null, and no two rows have the same one. -/
structure Database.Keyed (db : Database) (e : Entity) : Prop where
  present : ∀ row ∈ db e.table, ∃ v ∈ e.keyValues row, Row.isNull v = false
  distinct : ((db e.table).map e.keyTexts).Nodup

theorem Catalog.wellFormed_empty : ({} : Catalog).WellFormed where
  named _ _ h := by cases h
  entities _ _ h := by cases h

theorem Catalog.WellFormed.withEntity {c : Catalog} {e : Entity} (hc : c.WellFormed) (he : e.WellFormed) :
    (c.withEntity e).WellFormed := by
  have hentity : ∀ n e', (c.withEntity e).entity? n = some e' → n = e.name ∧ e' = e ∨
      c.entity? n = some e' := by
    intro n e' h
    rw [Catalog.entity?, Catalog.withEntity] at h
    by_cases hn : n = e.name
    · rw [hn, Entries.lookup_put_self, Option.some.injEq] at h
      exact .inl ⟨hn, h.symm⟩
    · rw [Entries.lookup_put_of_ne (beq_eq_false_iff_ne.mpr hn)] at h
      exact .inr h
  constructor
  · intro n e' h
    rcases hentity n e' h with ⟨rfl, rfl⟩ | h
    · rfl
    · exact hc.named n e' h
  · intro n e' h
    rcases hentity n e' h with ⟨-, rfl⟩ | h
    · exact he
    · exact hc.entities n e' h

end EntityQuery
