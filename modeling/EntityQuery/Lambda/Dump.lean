import EntityQuery.Lambda.Term
import EntityQuery.Text.Printable

/-! # Texts of terms for messages

A chain of members is described by its path; any other term is written out in full, constructor by
constructor. -/

namespace EntityQuery
set_option autoImplicit false

def BinaryOp.name : BinaryOp → String
  | .compare .eq => "Eq"
  | .compare .ne => "NotEq"
  | .compare .lt => "Lt"
  | .compare .le => "LtEq"
  | .compare .gt => "Gt"
  | .compare .ge => "GtEq"
  | .and => "And"
  | .or => "Or"
  | .arithmetic .add => "Add"
  | .arithmetic .sub => "Sub"
  | .arithmetic .mul => "Mul"
  | .arithmetic .div => "Div"
  | .arithmetic .mod => "Mod"

/-- The name of an aggregate function, which tells the two counts apart. -/
def Sql.AggregateFunction.name : Sql.AggregateFunction → String
  | .count => "Count"
  | .longCount => "LongCount"
  | .sum => "Sum"
  | .avg => "Avg"
  | .min => "Min"
  | .max => "Max"

namespace Term

/-- A character inside a quoted name; one that is not printable is given by its code point. -/
def escapeChar (c : Char) : String :=
  match c with
  | '"' => "\\\""
  | '\\' => "\\\\"
  | '\n' => "\\n"
  | '\r' => "\\r"
  | '\t' => "\\t"
  | '\x00' => "\\0"
  | c =>
    if Text.isPrintable c then c.toString
    else "\\u\x7b" ++ String.ofList (Nat.toDigits 16 c.toNat) ++ "\x7d"

def quoteName (s : String) : String :=
  "\"" ++ String.join (s.toList.map escapeChar) ++ "\""

/-- A constructor with named fields. -/
def labelled (name : String) (fields : List (String × String)) : String :=
  name ++ " \x7b " ++ ", ".intercalate (fields.map fun f => f.1 ++ ": " ++ f.2) ++ " \x7d"

def bracketed (items : List String) : String := "[" ++ ", ".intercalate items ++ "]"

mutual

/-- The term written out in full. -/
def dump : Term → String
  | .param p =>
    "Parameter(" ++ labelled "Parameter" [("id", toString p.id), ("name", quoteName p.name)] ++ ")"
  | .member t m => labelled "Member" [("target", dump t), ("member", quoteName m)]
  | .const v => "Constant(" ++ v.dump ++ ")"
  | .binary o l r => labelled "Binary" [("op", o.name), ("left", dump l), ("right", dump r)]
  | .not t => "Not(" ++ dump t ++ ")"
  | .negate t => "Negate(" ++ dump t ++ ")"
  | .call f as => labelled "Call" [("function", quoteName f), ("args", bracketed (dumpAll as))]
  | .isIn t is => labelled "In" [("expr", dump t), ("list", bracketed (dumpAll is))]
  | .aggregate f none d =>
    labelled "Aggregate" [("function", f.name), ("argument", "None"), ("distinct", toString d)]
  | .aggregate f (some t) d =>
    labelled "Aggregate"
      [("function", f.name), ("argument", "Some(" ++ dump t ++ ")"), ("distinct", toString d)]
  | .record ms => labelled "New" [("members", bracketed (dumpMembers ms))]

def dumpAll : List Term → List String
  | [] => []
  | t :: ts => dump t :: dumpAll ts

def dumpMembers : List (String × Term) → List String
  | [] => []
  | (n, t) :: ms => ("(" ++ quoteName n ++ ", " ++ dump t ++ ")") :: dumpMembers ms

end

/-- What messages call a term: the path of a member chain, else the term in full. -/
def describe : Term → String
  | .param p => p.name
  | .member t m => describe t ++ "." ++ m
  | t => t.dump

end Term

end EntityQuery
