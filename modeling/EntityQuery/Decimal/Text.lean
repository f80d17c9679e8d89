import EntityQuery.Decimal.Shortest

/-! # Text of doubles

Two layouts of the shortest digits: the plain one of SQL literals, which never uses an exponent, and
the one of JSON cells, which keeps a fraction digit and turns to an exponent for very large and very
small numbers. -/

namespace EntityQuery
set_option autoImplicit false

def zeros (n : Nat) : String := String.ofList (List.replicate n '0')

/-- The decimal without an exponent, and without a point if it is an integer. -/
def Decimal.plain (d : Decimal) : String :=
  let text := toString d.digits
  let places := (-d.exponent).toNat
  if 0 ≤ d.exponent then text ++ zeros d.exponent.toNat
  else if places < text.length then
    String.ofList (text.toList.take (text.length - places)) ++ "."
      ++ String.ofList (text.toList.drop (text.length - places))
  else "0." ++ zeros (places - text.length) ++ text

/-- The decimal with at least one digit after the point, or with an exponent once its first digit
stands above `10 ^ 15` or below `10 ^ -5`. -/
def Decimal.pointed (d : Decimal) : String :=
  let text := toString d.digits
  let lead : Int := text.length + d.exponent
  if 0 ≤ d.exponent ∧ lead ≤ 16 then d.plain ++ ".0"
  else if -5 < lead ∧ lead ≤ 16 then d.plain
  else
    let rest := String.ofList (text.toList.drop 1)
    String.ofList (text.toList.take 1) ++ (if rest.isEmpty then "" else "." ++ rest)
      ++ "e" ++ toString (lead - 1)

def Double.sign (x : Double) : String := if x.negative then "-" else ""

/-- The plain text: the fewest digits that read back, a tie going up, never an exponent. -/
def Double.plainText (x : Double) : String :=
  x.sign ++
    if x.isInfinite then "inf" else if x.isZero then "0" else (x.shortest .up).plain

/-- The text of a finite double in JSON, a tie going to the even digit. -/
def Double.jsonText (x : Double) : String :=
  x.sign ++ if x.isZero then "0.0" else (x.shortest .even).pointed

end EntityQuery
