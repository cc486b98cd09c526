import SchemaLog.Text.CaseTable

/-!
# Text/Case — upper and lower case of single characters

The full Unicode case mapping of one character, which can give several (`ß` becomes `SS`).  ASCII is
decided by its two ranges, everything else by the tables.
-/

namespace SchemaLog

namespace Text

/-- Looks up the case of a character outside ASCII; one that no table lists is its own case. -/
def mapCase (long : List (Nat × List Nat)) (runs : List CaseRun) (c : Char) : List Char :=
  match long.lookup c.toNat with
  | some image => image.map Char.ofNat
  | none =>
    match runs.findSome? fun r => r.image? c.toNat with
    | some image => [Char.ofNat image]
    | none => [c]

/-- The upper case of a character. -/
def upper (c : Char) : List Char :=
  if c.toNat < 0x80 then
    if 'a' ≤ c ∧ c ≤ 'z' then [Char.ofNat (c.toNat - 32)] else [c]
  else mapCase CaseTable.longUpper CaseTable.toUpper c

/-- The lower case of a character. -/
def lower (c : Char) : List Char :=
  if c.toNat < 0x80 then
    if 'A' ≤ c ∧ c ≤ 'Z' then [Char.ofNat (c.toNat + 32)] else [c]
  else mapCase CaseTable.longLower CaseTable.toLower c

/-- Whether a character is an upper-case letter. -/
def isUpper (c : Char) : Bool :=
  if c.toNat < 0x80 then 'A' ≤ c && c ≤ 'Z'
  else CaseTable.upperCase.any fun r => r.contains c.toNat

/-- The upper case of a text, character by character. -/
def upperAll (text : List Char) : List Char :=
  text.flatMap upper

end Text

end SchemaLog
