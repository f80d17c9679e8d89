import EntityQuery.Json.Record

/-! # Settings

What a compilation can be told besides the query. A document may set any of the values; the others
keep their defaults. -/

namespace EntityQuery
set_option autoImplicit false

/-- The settings of a compilation. -/
structure Settings where
  -- What aliases of derived tables start with.
  tableStem : String := "T"
  -- What made-up column aliases start with.
  columnStem : String := "C"
  expressionDepth : Nat := 128
  navigationDepth : Nat := 16
deriving DecidableEq

namespace Settings

open Json (Document)

/-- The settings that a document describes. -/
def ofDocument? (d : Document) : Option Settings := do
  let fields ← d.record? ["table_alias_prefix", "column_alias_prefix", "max_expression_depth",
    "max_navigation_depth"]
  let defaults : Settings := {}
  match fields with
  | [table, column, expression, navigation] =>
    some
      { tableStem := ← Document.withDefault defaults.tableStem Document.string? table
        columnStem := ← Document.withDefault defaults.columnStem Document.string? column
        expressionDepth :=
          ← Document.withDefault defaults.expressionDepth Document.natural? expression
        navigationDepth :=
          ← Document.withDefault defaults.navigationDepth Document.natural? navigation }
  | _ => none

/-- The settings that a text describes, or `none` if it is not a settings document. -/
def parse? (text : String) : Option Settings := do ofDocument? (← Document.parse? text)

end Settings

end EntityQuery
