/-!
# Json/Quoted — text between quotation marks

A quotation mark, a backslash and the characters below U+0020 are escaped; everything else stands
for itself.  An escape can also name a character by its UTF-16 units, so half of a surrogate pair
can be written without the other half: such a text is well formed and denotes nothing.
`pieces?_write` says that what is written is read as what it was.
-/

namespace SchemaLog

namespace Quoted

/-- A piece of a quoted text: a character, or an escape for half of a surrogate pair. -/
inductive Piece
  | char (c : Char)
  | half (unit : Nat)
  deriving DecidableEq

/-! ## Reading -/

/-- The value of a hexadecimal digit. -/
def hexDigit? (c : Char) : Option Nat :=
  if '0' ≤ c ∧ c ≤ '9' then some (c.toNat - 48)
  else if 'a' ≤ c ∧ c ≤ 'f' then some (c.toNat - 87)
  else if 'A' ≤ c ∧ c ≤ 'F' then some (c.toNat - 55)
  else none

/-- The unit named by four hexadecimal digits. -/
def unit? (a b c d : Char) : Option Nat :=
  match hexDigit? a, hexDigit? b, hexDigit? c, hexDigit? d with
  | some a, some b, some c, some d => some (4096 * a + 256 * b + 16 * c + d)
  | _, _, _, _ => none

/-- The piece that a unit is. -/
def Piece.ofUnit (unit : Nat) : Piece :=
  if 0xD800 ≤ unit ∧ unit < 0xE000 then .half unit else .char (Char.ofNat unit)

/-- The character that a letter behind a backslash stands for. -/
def escaped? : Char → Option Char
  | '"' => some '"'
  | '\\' => some '\\'
  | '/' => some '/'
  | 'b' => some '\x08'
  | 'f' => some '\x0c'
  | 'n' => some '\n'
  | 'r' => some '\r'
  | 't' => some '\t'
  | _ => none

/-- Puts a piece in front of what was read behind it. -/
def prepend (piece : Piece) (read : Option (List Piece × List Char)) :
    Option (List Piece × List Char) :=
  read.map fun r => (piece :: r.1, r.2)

/-- Reads the pieces up to the closing quotation mark; the second component is what follows it. -/
def pieces? : List Char → Option (List Piece × List Char)
  | [] => none
  | c :: rest =>
    if c = '"' then some ([], rest)
    else if c = '\\' then
      match rest with
      | 'u' :: a :: b :: c :: d :: rest =>
        match unit? a b c d with
        | some unit => prepend (.ofUnit unit) (pieces? rest)
        | none => none
      | e :: rest =>
        match escaped? e with
        | some c => prepend (.char c) (pieces? rest)
        | none => none
      | [] => none
    else if c.toNat < 0x20 then none
    else prepend (.char c) (pieces? rest)

/-- The character of a surrogate pair. -/
def pairChar (high low : Nat) : Char :=
  Char.ofNat (0x10000 + (high - 0xD800) * 0x400 + (low - 0xDC00))

/-- The text of a list of pieces; every half has to stand before or behind its other half. -/
def text? : List Piece → Option (List Char)
  | [] => some []
  | .char c :: rest => (text? rest).map (c :: ·)
  | .half high :: .half low :: rest =>
    if high < 0xDC00 ∧ 0xDC00 ≤ low then (text? rest).map (pairChar high low :: ·) else none
  | .half _ :: _ => none

/-! ## Writing -/

/-- The hexadecimal digit of a value below 16. -/
def hexChar (n : Nat) : Char :=
  if n < 10 then Char.ofNat (n + 48) else Char.ofNat (n + 87)

/-- How a character is written between quotation marks. -/
def escape (c : Char) : List Char :=
  if c = '"' then ['\\', '"']
  else if c = '\\' then ['\\', '\\']
  else if c = '\x08' then ['\\', 'b']
  else if c = '\x0c' then ['\\', 'f']
  else if c = '\n' then ['\\', 'n']
  else if c = '\r' then ['\\', 'r']
  else if c = '\t' then ['\\', 't']
  else if c.toNat < 0x20 then
    ['\\', 'u', '0', '0', hexChar (c.toNat / 16), hexChar (c.toNat % 16)]
  else [c]

/-- A text with its quotation marks. -/
def write (text : List Char) : List Char :=
  '"' :: (text.flatMap escape ++ ['"'])

/-- A string with its quotation marks. -/
def quote (s : String) : String :=
  String.ofList (write s.toList)

/-! ## What is written is read back -/

theorem text?_map_char (text : List Char) : text? (text.map Piece.char) = some text := by
  induction text with
  | nil => rfl
  | cons c rest ih => simp [text?, ih]

@[simp] theorem pieces?_closing (rest : List Char) : pieces? ('"' :: rest) = some ([], rest) := by
  rw [pieces?.eq_def]
  rfl

/-- A character that needs no escape stands for itself. -/
theorem pieces?_cons {c : Char} (h1 : c ≠ '"') (h2 : c ≠ '\\') (h3 : ¬c.toNat < 0x20)
    (rest : List Char) : pieces? (c :: rest) = prepend (.char c) (pieces? rest) := by
  rw [pieces?.eq_def]
  simp only [h1, h2, h3, if_false]

/-- The escape of a control character that has no letter of its own. -/
theorem pieces?_control {n : Nat} (h : n < 0x20) (rest : List Char) :
    pieces? ('\\' :: 'u' :: '0' :: '0' :: hexChar (n / 16) :: hexChar (n % 16) :: rest)
      = prepend (.char (Char.ofNat n)) (pieces? rest) := by
  have hu : ∀ m, m < 0x20 →
      unit? '0' '0' (hexChar (m / 16)) (hexChar (m % 16)) = some m := by decide
  have hp : Piece.ofUnit n = .char (Char.ofNat n) := by
    unfold Piece.ofUnit
    rw [if_neg (by omega)]
  rw [pieces?]
  simp only [Char.reduceEq, if_false, if_true, hu n h, hp]

theorem pieces?_escape (c : Char) (rest : List Char) :
    pieces? (escape c ++ rest) = prepend (.char c) (pieces? rest) := by
  unfold escape
  repeat' split
  all_goals try subst c
  all_goals try (simp [pieces?, escaped?]; done)
  · next h =>
    simp only [List.cons_append, List.nil_append]
    rw [pieces?_control h, Char.ofNat_toNat]
  · next h1 h2 _ _ _ _ _ h3 =>
    rw [List.singleton_append, pieces?_cons h1 h2 h3]

/-- **What is written is read back**, up to the closing quotation mark and no further. -/
theorem pieces?_write (text rest : List Char) :
    pieces? (text.flatMap escape ++ '"' :: rest) = some (text.map Piece.char, rest) := by
  induction text with
  | nil => exact pieces?_closing rest
  | cons c more ih =>
    simp only [List.flatMap_cons, List.append_assoc]
    rw [pieces?_escape, ih]
    rfl

end Quoted

end SchemaLog
