/-!
# Json/Numeral — the numbers of a JSON text

A number is a sign, digits without a leading zero, and optionally a fraction and an exponent.  It is
read as a significand of at most 64 bits times a power of ten; one whose double would be infinite is
out of range.  Nothing but natural numbers is used, so only this range and not the double is
computed.
-/

namespace SchemaLog

/-- The parts of a number as they are written. -/
structure Numeral where
  negative : Bool
  whole : List Char
  fraction : List Char
  /-- The exponent's sign, negative for `true`, and its digits. -/
  exponent : Option (Bool × List Char)
  deriving DecidableEq

namespace Numeral

/-! ## Reading -/

/-- The digits at the front, and what follows them. -/
def digits (cs : List Char) : List Char × List Char :=
  (cs.takeWhile Char.isDigit, cs.dropWhile Char.isDigit)

/-- Reads the digits before the point: at least one, and no zero in front of others. -/
def whole? (cs : List Char) : Option (List Char × List Char) :=
  match digits cs with
  | ([], _) => none
  | ('0' :: _ :: _, _) => none
  | read => some read

/-- Reads a fraction, if there is a point. -/
def fraction? : List Char → Option (List Char × List Char)
  | '.' :: rest =>
    match digits rest with
    | ([], _) => none
    | read => some read
  | rest => some ([], rest)

/-- Reads the sign of an exponent. -/
def exponentSign : List Char → Bool × List Char
  | '+' :: rest => (false, rest)
  | '-' :: rest => (true, rest)
  | rest => (false, rest)

/-- Reads an exponent, if there is an `e`. -/
def exponent? (cs : List Char) : Option (Option (Bool × List Char) × List Char) :=
  match cs with
  | c :: rest =>
    if c = 'e' ∨ c = 'E' then
      match digits (exponentSign rest).2 with
      | ([], _) => none
      | (read, rest') => some (some ((exponentSign rest).1, read), rest')
    else some (none, cs)
  | [] => some (none, cs)

/-- Reads the part of a number that follows the sign. -/
def unsigned? (negative : Bool) (cs : List Char) : Option (Numeral × List Char) := do
  let (whole, rest) ← whole? cs
  let (fraction, rest) ← fraction? rest
  let (exponent, rest) ← exponent? rest
  return (⟨negative, whole, fraction, exponent⟩, rest)

/-- Reads the number at the front of a text, as far as it goes. -/
def read? : List Char → Option (Numeral × List Char)
  | '-' :: rest => unsigned? true rest
  | cs => unsigned? false cs

/-! ## Value and range -/

/-- The number that a digit adds to ten times the number before it. -/
def addDigit (n : Nat) (c : Char) : Nat :=
  10 * n + (c.toNat - 48)

/-- The value of a list of digits. -/
def value (ds : List Char) : Nat :=
  ds.foldl addDigit 0

/-- The number, if it is written in digits alone. -/
def natural? (n : Numeral) : Option Nat :=
  if !n.negative && n.fraction.isEmpty && n.exponent.isNone then some (value n.whole) else none

/-- Takes digits into a significand as long as it is a word of 64 bits; the second component counts
the digits that are left. -/
def absorb : Nat → List Char → Nat × Nat
  | n, [] => (n, 0)
  | n, c :: rest =>
    if addDigit n c < UInt64.size then absorb (addDigit n c) rest else (n, rest.length + 1)

/-- The nearest number of 53 significant bits; halfway the even one. -/
def round53 (n : Nat) : Nat :=
  let drop := n.log2 - 52
  let q := n >>> drop
  let r := n - q <<< drop
  let half := (1 <<< drop) / 2
  (if drop ≠ 0 ∧ (r > half ∨ (r = half ∧ q % 2 = 1)) then q + 1 else q) <<< drop

/-- Whether a significand times a power of ten is so large that its double is infinite: both are
rounded to doubles, and so is their product. -/
def isInfinite (significand : Nat) (exponent : Int) : Bool :=
  match exponent with
  | .ofNat e =>
    significand != 0
      && (308 < e || 1 <<< 1024 - 1 <<< 970 ≤ round53 significand * round53 (Nat.pow 10 e))
  | .negSucc _ => false

/-- The exponent as a number. -/
def exponentValue (n : Numeral) : Int :=
  match n.exponent with
  | none => 0
  | some (true, ds) => -(value ds : Int)
  | some (false, ds) => value ds

/-- Whether the number is beyond the range of a double. -/
def isOutOfRange (n : Numeral) : Bool :=
  let (significand, dropped) := absorb 0 n.whole
  let (significand, left) := absorb significand n.fraction
  isInfinite significand
    ((dropped : Int) - ((n.fraction.length : Int) - left) + n.exponentValue)

/-- The number as it is written. -/
def text (n : Numeral) : List Char :=
  (if n.negative then ['-'] else []) ++ n.whole
    ++ (if n.fraction.isEmpty then [] else '.' :: n.fraction)
    ++ match n.exponent with
       | none => []
       | some (negative, ds) => 'e' :: (if negative then ['-'] else []) ++ ds

end Numeral

end SchemaLog
