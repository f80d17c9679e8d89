import EntityQuery.Catalog.Basic
import EntityQuery.Json.Record

/-! # Catalog documents

A catalog can be read from a JSON document that lists its entities. Every key of an entity has to
name a column property. -/

namespace EntityQuery
set_option autoImplicit false

open Json (Document)

/-- Why a catalog cannot be read. -/
inductive CatalogError where
  | malformed
  | unreadable
  | invalidKey (entity key : String)
deriving DecidableEq

/-- The text of a key error; what is wrong with a document has no text of its own. -/
def CatalogError.message? : CatalogError → Option String
  | .invalidKey e k =>
    some ("Entity '" ++ e ++ "' declares key '" ++ k ++ "' which is not a column-backed property")
  | _ => none

/-! ## Records -/

/-- The kind of a name. -/
def PropertyKind.ofName? : String → Option PropertyKind
  | "Primitive" => some .primitive
  | "Complex" => some .complex
  | "Collection" => some .collection
  | _ => none

/-- A kind is written as its name, or as an object with that one name and no value. -/
def PropertyKind.ofDocument? : Document → Option PropertyKind
  | .text (some name) => ofName? name
  | .object [(some name, .null)] => ofName? name
  | _ => none

/-- An association in a document. -/
def Association.ofDocument? (d : Document) : Option Association := do
  match ← d.record? ["this_key", "other_key"] with
  | [thisKey, otherKey] =>
    some
      { thisKey := ← Document.required Document.string? thisKey
        otherKey := ← Document.required Document.string? otherKey }
  | _ => none

/-- A property in a document. -/
def Property.ofDocument? (d : Document) : Option Property := do
  match ← d.record? ["name", "kind", "column", "target", "association"] with
  | [name, kind, column, target, association] =>
    some
      { name := ← Document.required Document.string? name
        kind := ← Document.required PropertyKind.ofDocument? kind
        column := ← Document.optional Document.string? column
        target := ← Document.optional Document.string? target
        association := ← Document.optional Association.ofDocument? association }
  | _ => none

/-- An entity in a document. -/
def Entity.ofDocument? (d : Document) : Option Entity := do
  match ← d.record? ["name", "table", "key", "properties"] with
  | [name, table, key, properties] =>
    some
      { name := ← Document.required Document.string? name
        table := ← Document.required Document.string? table
        key := ← Document.withDefault [] (Document.listOf? Document.string?) key
        properties := Entries.ofList
          (← Document.required (Document.entriesOf? Property.ofDocument?) properties) }
  | _ => none

/-! ## Catalogs -/

namespace Catalog

/-- The entities that a document lists. -/
def entitiesOf? (d : Document) : Option (List Entity) := do
  match ← d.record? ["entities"] with
  | [entities] => Document.required (Document.listOf? Entity.ofDocument?) entities
  | _ => none

/-- Declares an entity if its keys name column properties. -/
def declare (c : Catalog) (e : Entity) : Except CatalogError Catalog :=
  match e.badKey? with
  | some k => .error (.invalidKey e.name k)
  | none => .ok (c.withEntity e)

/-- The catalog that a text describes. Every key of an entity has to be a column property of it. -/
def parse (text : String) : Except CatalogError Catalog :=
  match Document.parse? text >>= entitiesOf? with
  | none => .error .malformed
  | some entities => entities.foldlM declare {}

/-- The catalog in a file's contents, which are absent if the file cannot be read. -/
def load (contents : Option String) : Except CatalogError Catalog :=
  match contents with
  | none => .error .unreadable
  | some text => parse text

end Catalog

end EntityQuery
