import EntityQuery.Entries

/-! # Catalogs

A catalog describes the entities that queries are about: the table of each, its key, and its
properties, which are columns or navigations to other entities. -/

namespace EntityQuery
set_option autoImplicit false

/-- What a property holds: the value of a column, one related entity, or any number of them. -/
inductive PropertyKind where
  | primitive
  | complex
  | collection
deriving DecidableEq

/-- Whether properties of the kind lead to other entities. -/
def PropertyKind.isNavigation : PropertyKind → Bool
  | .primitive => false
  | _ => true

/-- The pair of properties that relates an entity with the target of a navigation. -/
structure Association where
  thisKey : String
  otherKey : String
deriving DecidableEq

/-- A property of an entity. A column may be named differently; a navigation has a target and the keys
that relate it. -/
structure Property where
  name : String
  kind : PropertyKind
  column : Option String := none
  target : Option String := none
  association : Option Association := none
deriving DecidableEq

namespace Property

def ofColumn (name column : String) : Property :=
  { name, kind := .primitive, column := some column }

/-- A navigation to one related entity. -/
def toOne (name target : String) (association : Association) : Property :=
  { name, kind := .complex, target := some target, association := some association }

/-- A navigation to any number of related entities. -/
def toMany (name target : String) (association : Association) : Property :=
  { name, kind := .collection, target := some target, association := some association }

/-- The column behind a property; without one, it has the property's name. -/
def columnName (p : Property) : String := p.column.getD p.name

end Property

/-- An entity: its table, its properties by the names they are declared under, and the names of those
that identify a row. -/
structure Entity where
  name : String
  table : String
  key : List String := []
  properties : List (String × Property) := []
deriving DecidableEq

namespace Entity

def property? (e : Entity) (name : String) : Option Property := e.properties.lookup name

/-- Declares a property. -/
def withProperty (e : Entity) (p : Property) : Entity :=
  { e with properties := Entries.put p.name p e.properties }

/-- The properties that hold columns, in order of declaration. -/
def primitives (e : Entity) : List Property :=
  (e.properties.map (·.2)).filter fun p => p.kind = .primitive

/-- The first key that names no column property. -/
def badKey? (e : Entity) : Option String :=
  e.key.find? fun k => !(e.property? k).any fun p => p.kind = .primitive

end Entity

/-- Entities by name, in order of declaration. -/
structure Catalog where
  entities : List (String × Entity) := []
deriving DecidableEq

namespace Catalog

def entity? (c : Catalog) (name : String) : Option Entity := c.entities.lookup name

/-- Declares an entity; one of the same name is replaced. -/
def withEntity (c : Catalog) (e : Entity) : Catalog :=
  { entities := Entries.put e.name e c.entities }

def names (c : Catalog) : List String := c.entities.map (·.1)

end Catalog

end EntityQuery
