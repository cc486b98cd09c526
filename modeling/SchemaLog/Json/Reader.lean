import SchemaLog.Json.Token

/-!
# Json/Reader — from tokens to a value

The lists and objects that are open stand in a list of frames, so that reading is one walk along the
tokens.  A list or object inside 127 others is not readable, however deep it is itself.
-/

namespace SchemaLog

namespace Json

/-- A list or object of which the end is not yet read, with the items or members before the one that
is being read, the last first.  A key is `none` where it is no text. -/
inductive Frame
  | items (before : List Json)
  | members (before : List (Option String × Json)) (key : Option String)

/-- How many lists and objects may stand inside each other. -/
def nestingLimit : Nat := 127

/-- The members with their keys, if every key is a text. -/
def keyed? : List (Option String × Json) → Option (List (String × Json))
  | [] => some []
  | (none, _) :: _ => none
  | (some key, value) :: rest => (keyed? rest).map ((key, value) :: ·)

/-- The list of the items read, inside a number of others. -/
def ofItems (enclosing : Nat) (before : List Json) : Json :=
  if enclosing < nestingLimit then .array before.reverse else .unreadable

/-- The object of the members read, inside a number of others. -/
def ofMembers (enclosing : Nat) (before : List (Option String × Json)) : Json :=
  if enclosing < nestingLimit then
    match keyed? before.reverse with
    | some members => .object members
    | none => .unreadable
  else .unreadable

/-- The value of a quoted text. -/
def ofText : Option String → Json
  | some s => .string s
  | none => .unreadable

/-- Walks along the tokens up to the end of the outermost value; the second component is what
follows it.  The first argument is the value read last, or `none` where one has to come next. -/
def readFrom? : Option Json → List Frame → List Token → Option (Json × List Token)
  | some v, [], ts => some (v, ts)
  | none, fs, .scalar v :: ts => readFrom? (some v) fs ts
  | none, fs, .text s :: ts => readFrom? (some (ofText s)) fs ts
  | none, fs, .openBracket :: .closeBracket :: ts =>
    readFrom? (some (ofItems fs.length [])) fs ts
  | none, fs, .openBracket :: ts => readFrom? none (.items [] :: fs) ts
  | none, fs, .openBrace :: .closeBrace :: ts =>
    readFrom? (some (ofMembers fs.length [])) fs ts
  | none, fs, .openBrace :: .text key :: .colon :: ts => readFrom? none (.members [] key :: fs) ts
  | some v, .items before :: fs, .comma :: ts => readFrom? none (.items (v :: before) :: fs) ts
  | some v, .items before :: fs, .closeBracket :: ts =>
    readFrom? (some (ofItems fs.length (v :: before))) fs ts
  | some v, .members before key :: fs, .comma :: .text key' :: .colon :: ts =>
    readFrom? none (.members ((key, v) :: before) key' :: fs) ts
  | some v, .members before key :: fs, .closeBrace :: ts =>
    readFrom? (some (ofMembers fs.length ((key, v) :: before))) fs ts
  | _, _, _ => none

/-- Reads the value at the front of a list of tokens. -/
def read? (ts : List Token) : Option (Json × List Token) :=
  readFrom? none [] ts

/-- The value of a text that holds one value and nothing else. -/
def ofString? (text : String) : Option Json :=
  match read? (Token.ofChars text.toList) with
  | some (v, []) => some v
  | _ => none

end Json

end SchemaLog
