import EntityQuery.Sql.Expr

/-! # Text of SQL expressions -/

namespace EntityQuery.Sql
set_option autoImplicit false

def Comparator.symbol : Comparator → String
  | .eq => "="
  | .ne => "<>"
  | .lt => "<"
  | .le => "<="
  | .gt => ">"
  | .ge => ">="

def Arithmetic.symbol : Arithmetic → String
  | .add => "+"
  | .sub => "-"
  | .mul => "*"
  | .div => "/"
  | .mod => "%"

def Comparator.dump (o : Comparator) : String := "ComparatorOp(" ++ o.symbol ++ ")"

def Arithmetic.dump (o : Arithmetic) : String := "ArithmeticOp(" ++ o.symbol ++ ")"

/-- The SQL name of an aggregate function; both counts are `COUNT`. -/
def AggregateFunction.sqlName : AggregateFunction → String
  | .count | .longCount => "COUNT"
  | .sum => "SUM"
  | .avg => "AVG"
  | .min => "MIN"
  | .max => "MAX"

/-- A column behind its table alias. -/
def Column.text (c : Column) : String := c.table ++ "." ++ c.name

namespace Expr

mutual

/-- The SQL text of an expression. Binary operations, conjunctions and disjunctions are always in
parentheses. -/
def text : Expr → String
  | .column c => c.text
  | .literal v => v.text
  | .compare o l r => "(" ++ text l ++ " " ++ o.symbol ++ " " ++ text r ++ ")"
  | .arithmetic o l r => "(" ++ text l ++ " " ++ o.symbol ++ " " ++ text r ++ ")"
  | .and ps => "(" ++ " AND ".intercalate (texts ps) ++ ")"
  | .or ps => "(" ++ " OR ".intercalate (texts ps) ++ ")"
  | .not e => "NOT " ++ text e
  | .negate e => "-" ++ text e
  | .isNull e n => text e ++ " IS " ++ (if n then "NOT " else "") ++ "NULL"
  | .inList e is n =>
    text e ++ " " ++ (if n then "NOT " else "") ++ "IN (" ++ ", ".intercalate (texts is) ++ ")"
  | .call f as => f ++ "(" ++ ", ".intercalate (texts as) ++ ")"
  | .aggregate f as d =>
    f.sqlName ++ "(" ++ (if d then "DISTINCT " else "") ++ (if as.isEmpty then "*" else "")
      ++ ", ".intercalate (texts as) ++ ")"

def texts : List Expr → List String
  | [] => []
  | e :: es => text e :: texts es

end

end Expr

end EntityQuery.Sql
