import EntityQuery.Decimal.Text
import EntityQuery.Json.Value

/-! # Text of JSON values

The compact text, without blanks. Only quotes, backslashes and control characters are escaped. -/

namespace EntityQuery.Json
set_option autoImplicit false

/-- The escape of a character inside a string, or the character itself. -/
def escape (c : Char) : String :=
  match c with
  | '"' => "\\\""
  | '\\' => "\\\\"
  | '\n' => "\\n"
  | '\r' => "\\r"
  | '\t' => "\\t"
  | '\x08' => "\\b"
  | '\x0c' => "\\f"
  | c =>
    if c.toNat < 0x20 then
      "\\u00" ++ String.ofList [Nat.digitChar (c.toNat / 16), Nat.digitChar (c.toNat % 16)]
    else c.toString

/-- A string between quotes. -/
def quote (s : String) : String :=
  "\"" ++ String.join (s.toList.map escape) ++ "\""

mutual

/-- The compact text of a value. -/
def compact : Json → String
  | .null => "null"
  | .bool true => "true"
  | .bool false => "false"
  | .int n => toString n
  | .double x => x.jsonText
  | .text s => quote s
  | .list items => "[" ++ ",".intercalate (compactItems items) ++ "]"
  | .object fields => "\x7b" ++ ",".intercalate (compactFields fields) ++ "\x7d"

def compactItems : List Json → List String
  | [] => []
  | v :: vs => compact v :: compactItems vs

def compactFields : List (String × Json) → List String
  | [] => []
  | (n, v) :: fs => (quote n ++ ":" ++ compact v) :: compactFields fs

end

end EntityQuery.Json
