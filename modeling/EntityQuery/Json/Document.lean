import EntityQuery.Json.Token
import EntityQuery.Json.Value

/-! # JSON documents

A document is what a JSON text says before anything is made of it: numbers as numerals, repeated
fields kept, strings that spell no characters kept as `none`. It is built from tokens by a machine
with a stack of unfinished lists and objects.

`Document.value?` turns a document into a JSON value. -/

namespace EntityQuery.Json
set_option autoImplicit false

/-- A JSON document. -/
inductive Document where
  | null
  | bool (value : Bool)
  | number (value : Numeral)
  | text (value : Option String)
  | list (items : List Document)
  | object (fields : List (Option String × Document))

namespace Document

/-! ## From tokens -/

/-- A list or object under way, its contents in reverse. -/
inductive Frame where
  | list (items : List Document)
  | object (fields : List (Option String × Document))
  -- The last field has a name and no value yet.
  | field (fields : List (Option String × Document)) (name : Option String)

/-- What may come next. -/
inductive Expected where
  | value
  | item
  | name
  | field
  | colon
  | comma
  | nothing (result : Document)

/-- What is open, innermost first, and what may come next. -/
structure Builder where
  stack : List Frame := []
  expected : Expected := .value

namespace Builder

/-- Puts a finished value where it belongs. -/
def place (stack : List Frame) (v : Document) : Option Builder :=
  match stack with
  | [] => some ⟨[], .nothing v⟩
  | .list items :: rest => some ⟨.list (v :: items) :: rest, .comma⟩
  | .field fields name :: rest => some ⟨.object ((name, v) :: fields) :: rest, .comma⟩
  | .object _ :: _ => none

/-- Ends the innermost list or object. -/
def close (stack : List Frame) : Token → Option Builder
  | .closeList =>
    match stack with
    | .list items :: rest => place rest (.list items.reverse)
    | _ => none
  | .closeObject =>
    match stack with
    | .object fields :: rest => place rest (.object fields.reverse)
    | _ => none
  | _ => none

/-- Reads the first token of a value. -/
def value (stack : List Frame) : Token → Option Builder
  | .openList => some ⟨.list [] :: stack, .item⟩
  | .openObject => some ⟨.object [] :: stack, .field⟩
  | .null => place stack .null
  | .bool b => place stack (.bool b)
  | .number n => place stack (.number n)
  | .text s => place stack (.text s)
  | _ => none

/-- Reads the name of a field. -/
def name (stack : List Frame) : Token → Option Builder
  | .text s =>
    match stack with
    | .object fields :: rest => some ⟨.field fields s :: rest, .colon⟩
    | _ => none
  | _ => none

/-- Goes on after a comma. -/
def next (stack : List Frame) : Option Builder :=
  match stack with
  | .list _ :: _ => some ⟨stack, .value⟩
  | .object _ :: _ => some ⟨stack, .name⟩
  | _ => none

/-- Reads one token. -/
def step (b : Builder) (t : Token) : Option Builder :=
  match b.expected with
  | .value => value b.stack t
  | .item =>
    match t with
    | .closeList => close b.stack t
    | t => value b.stack t
  | .name => name b.stack t
  | .field =>
    match t with
    | .closeObject => close b.stack t
    | t => name b.stack t
  | .colon =>
    match t with
    | .colon => some { b with expected := .value }
    | _ => none
  | .comma =>
    match t with
    | .comma => next b.stack
    | t => close b.stack t
  | .nothing _ => none

/-- The document, if it is complete. -/
def finish (b : Builder) : Option Document :=
  match b.expected with
  | .nothing v => some v
  | _ => none

end Builder

/-- The document that the tokens spell. -/
def ofTokens? (tokens : List Token) : Option Document := do
  let b ← tokens.foldlM Builder.step ({} : Builder)
  b.finish

/-- The document that a text spells, or `none` if it is not JSON. -/
def parse? (text : String) : Option Document := do
  ofTokens? (← tokens? text)

/-! ## To values -/

/-- The largest integer that stays one; larger numerals become doubles. -/
def maxInteger : Int := 0xFFFFFFFFFFFFFFFF

/-- The least integer that stays one. -/
def minInteger : Int := -0x8000000000000000

/-- The value of a numeral: an integer if it is written as one and in range, else a double. -/
def numberValue? (n : Numeral) : Option Json :=
  match n.toInt? with
  | some i => if minInteger ≤ i ∧ i ≤ maxInteger then some (.int i) else n.toDouble?.map .double
  | none => n.toDouble?.map .double

mutual

/-- The value of a document, or `none` if a number is out of range or a string spells nothing. -/
def value? : Document → Option Json
  | .null => some .null
  | .bool b => some (.bool b)
  | .number n => numberValue? n
  | .text s => s.map .text
  | .list items => (itemValues? items).map .list
  | .object fields => (fieldValues? fields).map Json.ofFields

def itemValues? : List Document → Option (List Json)
  | [] => some []
  | d :: ds => do
    let v ← value? d
    let vs ← itemValues? ds
    return v :: vs

def fieldValues? : List (Option String × Document) → Option (List (String × Json))
  | [] => some []
  | (n, d) :: fs => do
    let n ← n
    let v ← value? d
    let vs ← fieldValues? fs
    return (n, v) :: vs

end

end Document

end EntityQuery.Json
