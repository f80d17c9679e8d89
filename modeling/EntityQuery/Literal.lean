import EntityQuery.Decimal.Text

/-! # Literals

The constants of expressions and statements. -/

namespace EntityQuery
set_option autoImplicit false

/-- A constant. -/
inductive Literal where
  | string (value : String)
  | int (value : Int)
  | float (value : Double)
  | bool (value : Bool)
  | null
deriving DecidableEq

namespace Literal

/-- Equality of literals; floats are compared as numbers, so the two zeros are equal. -/
def same : Literal → Literal → Bool
  | .string a, .string b => a == b
  | .int a, .int b => a == b
  | .float a, .float b => a == b
  | .bool a, .bool b => a == b
  | .null, .null => true
  | _, _ => false

instance : BEq Literal := ⟨same⟩

def isNull : Literal → Bool
  | .null => true
  | _ => false

/-- A quote inside a string literal is written twice. -/
def doubleQuotes : List Char → List Char
  | [] => []
  | c :: cs => if c = '\'' then '\'' :: '\'' :: doubleQuotes cs else c :: doubleQuotes cs

/-- A string literal between single quotes. -/
def quoted (s : String) : String :=
  String.ofList ('\'' :: doubleQuotes s.toList ++ ['\''])

/-- The SQL text of a literal. -/
def text : Literal → String
  | .string s => quoted s
  | .int n => toString n
  | .float x => x.plainText
  | .bool true => "TRUE"
  | .bool false => "FALSE"
  | .null => "NULL"

/-- The text of a literal with its kind around it. -/
def dump : Literal → String
  | .string s => "String(" ++ text (.string s) ++ ")"
  | .int n => "Int(" ++ text (.int n) ++ ")"
  | .float x => "Float(" ++ text (.float x) ++ ")"
  | .bool b => "Bool(" ++ text (.bool b) ++ ")"
  | .null => "Null"

end Literal

end EntityQuery
