import EntityQuery.Decimal.Reading

/-! # JSON tokens

A character machine cuts a text into tokens. Outside strings a token is a punctuation mark or a
word: a longest run of letters, digits, points and signs, which must be a constant or a numeral.

A string may escape one half of a surrogate pair without the other. Such a string has no characters
to stand for it, so its token carries `none`; whether that is an error is for the reader of the
document to say. -/

namespace EntityQuery.Json
set_option autoImplicit false

/-- A token of a JSON text. -/
inductive Token where
  | openObject
  | closeObject
  | openList
  | closeList
  | comma
  | colon
  | null
  | bool (value : Bool)
  | number (value : Numeral)
  | text (value : Option String)

/-! ## Strings -/

/-- Whether the UTF-16 unit is the first half of a surrogate pair. -/
def isHighHalf (n : Nat) : Bool := 0xD800 ≤ n && n < 0xDC00

/-- Whether the UTF-16 unit is the second half of a surrogate pair. -/
def isLowHalf (n : Nat) : Bool := 0xDC00 ≤ n && n < 0xE000

/-- A piece of a string: a character as it stands, or the unit of a numeric escape. -/
inductive Piece where
  | char (c : Char)
  | unit (n : Nat)

/-- The characters that the pieces of a string spell, if no half of a pair stands alone. -/
def spell : List Piece → Option (List Char)
  | [] => some []
  | .char c :: ps => (spell ps).map (c :: ·)
  | .unit h :: .unit l :: ps =>
    if isHighHalf h && isLowHalf l then
      (spell ps).map (Char.ofNat (0x10000 + (h - 0xD800) * 0x400 + (l - 0xDC00)) :: ·)
    else if isHighHalf h || isLowHalf h then none
    else (spell (.unit l :: ps)).map (Char.ofNat h :: ·)
  | .unit h :: ps =>
    if isHighHalf h || isLowHalf h then none else (spell ps).map (Char.ofNat h :: ·)

/-- The character that a one-letter escape stands for. -/
def unescape? : Char → Option Char
  | '"' => some '"'
  | '\\' => some '\\'
  | '/' => some '/'
  | 'b' => some '\x08'
  | 'f' => some '\x0c'
  | 'n' => some '\n'
  | 'r' => some '\r'
  | 't' => some '\t'
  | _ => none

/-- The value of a hexadecimal digit. -/
def hexDigit? (c : Char) : Option Nat :=
  if c.isDigit then some (c.toNat - '0'.toNat)
  else if 'a' ≤ c ∧ c ≤ 'f' then some (c.toNat - 'a'.toNat + 10)
  else if 'A' ≤ c ∧ c ≤ 'F' then some (c.toNat - 'A'.toNat + 10)
  else none

/-! ## Words -/

/-- Whether the character can stand in a constant or a numeral. -/
def isWordChar (c : Char) : Bool :=
  c.isAlphanum || c == '+' || c == '-' || c == '.'

def digitValues (cs : List Char) : List Nat := cs.map fun c => c.toNat - '0'.toNat

/-- The longest run of digits at the front, and the rest. -/
def spanDigits (cs : List Char) : List Char × List Char := cs.span Char.isDigit

/-- An exponent without its mark: an optional sign and at least one digit, to the end. -/
def exponent? (cs : List Char) : Option Int :=
  let (negative, digits) :=
    match cs with
    | '+' :: rest => (false, rest)
    | '-' :: rest => (true, rest)
    | rest => (false, rest)
  if digits.isEmpty || !digits.all Char.isDigit then none
  else
    let value : Nat := (digitValues digits).foldl (fun v d => v * 10 + d) 0
    some (if negative then -(value : Int) else value)

/-- What may follow the digits of a numeral: nothing, or an exponent. -/
def exponentPart? : List Char → Option (Option Int)
  | [] => some none
  | 'e' :: rest => (exponent? rest).map some
  | 'E' :: rest => (exponent? rest).map some
  | _ => none

/-- A numeral without its sign: no leading zero before other digits, and digits on both sides of a
point. -/
def unsigned? (negative : Bool) (cs : List Char) : Option Numeral :=
  let (whole, rest) := spanDigits cs
  if whole.isEmpty || (whole.length > 1 && whole.head? == some '0') then none
  else
    match rest with
    | '.' :: rest =>
      let (fraction, rest) := spanDigits rest
      if fraction.isEmpty then none
      else (exponentPart? rest).map fun e =>
        ⟨negative, digitValues whole, some (digitValues fraction), e⟩
    | rest => (exponentPart? rest).map fun e => ⟨negative, digitValues whole, none, e⟩

/-- The numeral that a word spells. -/
def numeral? : List Char → Option Numeral
  | '-' :: cs => unsigned? true cs
  | cs => unsigned? false cs

/-- The token that a word spells. -/
def word? (cs : List Char) : Option Token :=
  if cs == "null".toList then some .null
  else if cs == "true".toList then some (.bool true)
  else if cs == "false".toList then some (.bool false)
  else (numeral? cs).map .number

/-! ## The machine -/

/-- Where the machine stands. What is under way is kept in reverse. -/
inductive Mode where
  | between
  | word (chars : List Char)
  | string (pieces : List Piece)
  | escaped (pieces : List Piece)
  -- So many digits are still to come.
  | numeric (pieces : List Piece) (more value : Nat)

/-- The mode together with the tokens read so far, in reverse. -/
structure Lexer where
  mode : Mode := .between
  tokens : List Token := []

namespace Lexer

/-- Adds a token and stands between tokens. -/
def emit (l : Lexer) (t : Token) : Lexer := { mode := .between, tokens := t :: l.tokens }

/-- Reads a character that starts a token, or a blank. -/
def start (l : Lexer) (c : Char) : Option Lexer :=
  match c with
  | ' ' | '\n' | '\r' | '\t' => some { l with mode := .between }
  | '\x7b' => some (l.emit .openObject)
  | '\x7d' => some (l.emit .closeObject)
  | '[' => some (l.emit .openList)
  | ']' => some (l.emit .closeList)
  | ',' => some (l.emit .comma)
  | ':' => some (l.emit .colon)
  | '"' => some { l with mode := .string [] }
  | c => if isWordChar c then some { l with mode := .word [c] } else none

/-- Ends the word under way, if there is one. -/
def endWord (l : Lexer) : Option Lexer :=
  match l.mode with
  | .word cs => (word? cs.reverse).map l.emit
  | _ => some l

/-- Reads one character. -/
def step (l : Lexer) (c : Char) : Option Lexer :=
  match l.mode with
  | .between => l.start c
  | .word cs =>
    if isWordChar c then some { l with mode := .word (c :: cs) }
    else (l.endWord).bind (·.start c)
  | .string ps =>
    if c == '"' then some (l.emit (.text ((spell ps.reverse).map String.ofList)))
    else if c == '\\' then some { l with mode := .escaped ps }
    else if c.toNat < 0x20 then none
    else some { l with mode := .string (.char c :: ps) }
  | .escaped ps =>
    if c == 'u' then some { l with mode := .numeric ps 4 0 }
    else (unescape? c).map fun d => { l with mode := .string (.char d :: ps) }
  | .numeric ps more value =>
    (hexDigit? c).map fun d =>
      if more ≤ 1 then { l with mode := .string (.unit (value * 16 + d) :: ps) }
      else { l with mode := .numeric ps (more - 1) (value * 16 + d) }

/-- The tokens once the text is over: nothing but a word may be under way. -/
def finish (l : Lexer) : Option (List Token) := do
  let l ← l.endWord
  match l.mode with
  | .between => some l.tokens.reverse
  | _ => none

end Lexer

/-- The tokens of a text, or `none` if it does not consist of tokens. -/
def tokens? (text : String) : Option (List Token) := do
  let l ← text.toList.foldlM Lexer.step ({} : Lexer)
  l.finish

end EntityQuery.Json
