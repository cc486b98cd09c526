import SchemaLog.Json
import SchemaLog.Json.Quoted
import SchemaLog.Json.Numeral

/-!
# Json/Token — the tokens of a JSON text

A text is cut into punctuation, quoted texts and other scalars; blanks between them are dropped.
Where no token can be read there is one token `junk`, and nothing after it.
-/

namespace SchemaLog

/-- A token of a JSON text. -/
inductive Token
  | openBrace
  | closeBrace
  | openBracket
  | closeBracket
  | comma
  | colon
  /-- A quoted text; `none` where it holds half a surrogate pair. -/
  | text (value : Option String)
  /-- A scalar that is no text. -/
  | scalar (value : Json)
  /-- Nothing that JSON knows. -/
  | junk

namespace Token

/-- The four characters that may stand between tokens. -/
def isBlank (c : Char) : Bool :=
  c == ' ' || c == '\t' || c == '\n' || c == '\r'

/-- The punctuation that a character is. -/
def punctuation? : Char → Option Token
  | '{' => some openBrace
  | '}' => some closeBrace
  | '[' => some openBracket
  | ']' => some closeBracket
  | ',' => some comma
  | ':' => some colon
  | _ => none

/-- The value of a number, as far as it is kept. -/
def ofNumeral (n : Numeral) : Json :=
  if n.isOutOfRange then .unreadable
  else
    match n.natural? with
    | some value => .natural value
    | none => .number (String.ofList n.text)

/-- Reads the scalar other than a text at the front. -/
def scalar? : List Char → Option (Json × List Char)
  | 'n' :: 'u' :: 'l' :: 'l' :: rest => some (.null, rest)
  | 't' :: 'r' :: 'u' :: 'e' :: rest => some (.bool true, rest)
  | 'f' :: 'a' :: 'l' :: 's' :: 'e' :: rest => some (.bool false, rest)
  | cs => (Numeral.read? cs).map fun r => (ofNumeral r.1, r.2)

/-- Reads the token that starts with a character. -/
def read? (c : Char) (rest : List Char) : Option (Token × List Char) :=
  match punctuation? c with
  | some token => some (token, rest)
  | none =>
    if c = '"' then
      (Quoted.pieces? rest).map fun r => (text ((Quoted.text? r.1).map String.ofList), r.2)
    else (scalar? (c :: rest)).map fun r => (scalar r.1, r.2)

/-- The tokens of a text, as many as the first argument allows. -/
def upTo : Nat → List Char → List Token
  | 0, _ => []
  | n + 1, cs =>
    match cs.dropWhile isBlank with
    | [] => []
    | c :: rest =>
      match read? c rest with
      | none => [junk]
      | some (token, rest) => token :: upTo n rest

/-- The tokens of a text; there is at most one for each of its characters. -/
def ofChars (cs : List Char) : List Token :=
  upTo cs.length cs

end Token

end SchemaLog
