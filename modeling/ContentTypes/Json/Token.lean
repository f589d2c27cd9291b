import ContentTypes.Json
import ContentTypes.Text.Hex

/-!
# Tokens of a JSON text

`tokens?` cuts a text into tokens and drops the blanks between them. The rules are those of strict
JSON: no leading zeros, no raw control characters in strings, no comments.

A string is first cut into pieces, each a character or a 16-bit unit given by an escape; `assemble`
then joins the units. A unit that is one half of a surrogate pair without the other leaves the string
without a text.
-/

namespace ContentTypes.Json

inductive Token where
  | openBrace | closeBrace | openBracket | closeBracket | colon | comma
  | null
  | bool (b : Bool)
  | num (literal : String)
  | str (s : Text)
deriving DecidableEq

/-! ### Strings -/

/-- A piece of a string: a character, or a 16-bit unit given by its number. -/
inductive Piece where
  | char (c : Char)
  | unit (n : Nat)

/-- The value of four hexadecimal digits. -/
def hex4? (a b c d : Char) : Option Nat := do
  return (((← Text.hexDigit? a) * 16 + (← Text.hexDigit? b)) * 16 + (← Text.hexDigit? c)) * 16
    + (← Text.hexDigit? d)

/-- The character of an escape of one letter. -/
def escaped? : Char → Option Char
  | '"' => some '"'
  | '\\' => some '\\'
  | '/' => some '/'
  | 'b' => some '\x08'
  | 'f' => some '\x0c'
  | 'n' => some '\n'
  | 'r' => some '\r'
  | 't' => some '\t'
  | _ => none

/-- The pieces of a string up to its closing quote, and the text behind it. -/
def pieces? : List Char → List Piece → Option (List Piece × List Char)
  | [], _ => none
  | '"' :: rest, acc => some (acc.reverse, rest)
  | '\\' :: 'u' :: a :: b :: c :: d :: rest, acc =>
    match hex4? a b c d with
    | some n => pieces? rest (.unit n :: acc)
    | none => none
  | '\\' :: c :: rest, acc =>
    match escaped? c with
    | some c => pieces? rest (.char c :: acc)
    | none => none
  | c :: rest, acc =>
    if c.toNat < 0x20 ∨ c = '\\' then none else pieces? rest (.char c :: acc)

/-- Is the unit the first half of a surrogate pair? -/
def isLead (u : Nat) : Bool := 0xD800 ≤ u && u < 0xDC00

/-- Is the unit the second half of a surrogate pair? -/
def isTrail (u : Nat) : Bool := 0xDC00 ≤ u && u < 0xE000

/-- The text of a string in pieces, behind the characters of `acc` in reverse. -/
def assemble : List Piece → List Char → Text
  | [], acc => some (String.ofList acc.reverse)
  | .char c :: rest, acc => assemble rest (c :: acc)
  | .unit u :: .unit v :: rest, acc =>
    if isLead u then
      if isTrail v then
        assemble rest (Char.ofNat (0x10000 + (u - 0xD800) * 0x400 + (v - 0xDC00)) :: acc)
      else none
    else if isTrail u then none
    else assemble (.unit v :: rest) (Char.ofNat u :: acc)
  | .unit u :: rest, acc =>
    if isLead u || isTrail u then none else assemble rest (Char.ofNat u :: acc)

/-! ### Numbers -/

def isDigit (c : Char) : Bool := '0' ≤ c && c ≤ '9'

/-- Splits off digits, of which there has to be one. -/
def digits? (s : List Char) : Option (List Char × List Char) :=
  match s.span isDigit with
  | ([], _) => none
  | (ds, rest) => some (ds, rest)

/-- Splits off the integer part of a number: a zero alone, or digits that begin with another. -/
def integer? : List Char → Option (List Char × List Char)
  | '0' :: rest => some (['0'], rest)
  | s => digits? s

/-- Splits off the fraction, which may be absent. -/
def fraction? : List Char → Option (List Char × List Char)
  | '.' :: rest => (digits? rest).map fun (ds, rest) => ('.' :: ds, rest)
  | s => some ([], s)

/-- Splits off a sign, which may be absent. -/
def sign : List Char → List Char × List Char
  | '+' :: rest => (['+'], rest)
  | '-' :: rest => (['-'], rest)
  | s => ([], s)

/-- Splits off the exponent, which may be absent. -/
def exponent? : List Char → Option (List Char × List Char)
  | c :: rest =>
    if c = 'e' ∨ c = 'E' then
      let (sg, rest) := sign rest
      (digits? rest).map fun (ds, rest) => (c :: sg ++ ds, rest)
    else some ([], c :: rest)
  | [] => some ([], [])

/-- Splits off a number without its sign. -/
def unsigned? (s : List Char) : Option (List Char × List Char) := do
  let (whole, s) ← integer? s
  let (part, s) ← fraction? s
  let (power, s) ← exponent? s
  return (whole ++ part ++ power, s)

def number? : List Char → Option (List Char × List Char)
  | '-' :: rest => (unsigned? rest).map fun (ds, rest) => ('-' :: ds, rest)
  | s => unsigned? s

/-! ### Texts -/

/-- Is the character one that may stand between tokens? -/
def isSpace (c : Char) : Bool := c == ' ' || c == '\t' || c == '\n' || c == '\r'

/-- Splits off the token at the beginning of a text. -/
def token? : List Char → Option (Token × List Char)
  | '{' :: rest => some (.openBrace, rest)
  | '}' :: rest => some (.closeBrace, rest)
  | '[' :: rest => some (.openBracket, rest)
  | ']' :: rest => some (.closeBracket, rest)
  | ':' :: rest => some (.colon, rest)
  | ',' :: rest => some (.comma, rest)
  | 'n' :: 'u' :: 'l' :: 'l' :: rest => some (.null, rest)
  | 't' :: 'r' :: 'u' :: 'e' :: rest => some (.bool true, rest)
  | 'f' :: 'a' :: 'l' :: 's' :: 'e' :: rest => some (.bool false, rest)
  | '"' :: rest => (pieces? rest []).map fun (ps, rest) => (.str (assemble ps []), rest)
  | s => (number? s).map fun (ds, rest) => (.num (String.ofList ds), rest)

/-- Cuts a text into tokens, at most one per unit of `fuel`, behind the tokens of `acc` in reverse. -/
def tokensFrom? : Nat → List Char → List Token → Option (List Token)
  | _, [], acc => some acc.reverse
  | 0, _ :: _, _ => none
  | fuel + 1, c :: rest, acc =>
    if isSpace c then tokensFrom? fuel rest acc
    else match token? (c :: rest) with
      | some (t, rest) => tokensFrom? fuel rest (t :: acc)
      | none => none

/-- Cuts a text into tokens. A token or a blank takes a character at least, so there are no more steps
than characters. -/
def tokens? (s : List Char) : Option (List Token) := tokensFrom? s.length s []

end ContentTypes.Json
