import SchemaLog.Json
import SchemaLog.Json.Quoted

/-!
# Json/Writer — from a value to its text

A value is written without any blanks, or with two blanks of indentation for each list and object
around it.  Empty lists and objects take no line of their own in either layout, and there is no line
break at the end.
-/

namespace SchemaLog

namespace Json

/-- What a layout puts between tokens. -/
structure Layout where
  /-- Before an item, a member or a closing bracket, by the number of lists and objects around it.
  -/
  lineBreak : Nat → List Char
  /-- Behind the colon of a member. -/
  afterColon : List Char

namespace Layout

/-- No blanks at all. -/
def compact : Layout := ⟨fun _ => [], []⟩

/-- A line for each item and member, indented by two blanks for each list and object around it. -/
def indented : Layout := ⟨fun depth => '\n' :: List.replicate (2 * depth) ' ', [' ']⟩

end Layout

/-- A natural number in digits. -/
def writeNatural (n : Nat) : List Char :=
  Nat.toDigits 10 n

mutual

/-- The text of a value inside `depth` lists and objects.  What cannot be read has no text of its
own, and `null` stands for it. -/
def write (l : Layout) (depth : Nat) : Json → List Char
  | .null => ['n', 'u', 'l', 'l']
  | .bool true => ['t', 'r', 'u', 'e']
  | .bool false => ['f', 'a', 'l', 's', 'e']
  | .natural n => writeNatural n
  | .number text => text.toList
  | .string s => Quoted.write s.toList
  | .array [] => ['[', ']']
  | .array (item :: rest) =>
    '[' :: (l.lineBreak (depth + 1) ++ item.write l (depth + 1) ++ writeItems l (depth + 1) rest
      ++ l.lineBreak depth ++ [']'])
  | .object [] => ['{', '}']
  | .object ((key, value) :: rest) =>
    '{' :: (l.lineBreak (depth + 1) ++ Quoted.write key.toList ++ ':' :: l.afterColon
      ++ value.write l (depth + 1) ++ writeMembers l (depth + 1) rest ++ l.lineBreak depth ++ ['}'])
  | .unreadable => ['n', 'u', 'l', 'l']

/-- The items behind the first, each with its comma. -/
def writeItems (l : Layout) (depth : Nat) : List Json → List Char
  | [] => []
  | item :: rest => ',' :: (l.lineBreak depth ++ item.write l depth ++ writeItems l depth rest)

/-- The members behind the first, each with its comma. -/
def writeMembers (l : Layout) (depth : Nat) : List (String × Json) → List Char
  | [] => []
  | (key, value) :: rest =>
    ',' :: (l.lineBreak depth ++ Quoted.write key.toList ++ ':' :: l.afterColon
      ++ value.write l depth ++ writeMembers l depth rest)

end

/-- The text of a value without blanks. -/
def compact (v : Json) : String :=
  String.ofList (v.write .compact 0)

/-- The text of a value over several lines. -/
def indented (v : Json) : String :=
  String.ofList (v.write .indented 0)

end Json

end SchemaLog
