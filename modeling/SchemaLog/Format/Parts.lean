import SchemaLog.Json

/-!
# Format/Parts — the parts of a record in a JSON value

A record is an object whose members have known names, or a list of its parts in a fixed order.  In
an object other members are passed over, and a known name must not come twice; in a list the last
parts may be missing, and there must not be more.  Both give a list of parts, `none` for a missing
one.
-/

namespace SchemaLog

namespace Json

/-- The member of a name: `some none` if there is none, and `none` if there are several. -/
def member? (members : List (String × Json)) (name : String) : Option (Option Json) :=
  match members.filter fun m => m.1 == name with
  | [] => some none
  | [m] => some (some m.2)
  | _ => none

/-- The parts of a record with the given names. -/
def parts? (names : List String) : Json → Option (List (Option Json))
  | .object members => names.mapM (member? members)
  | .array items =>
    if items.length ≤ names.length then
      some (items.map some ++ List.replicate (names.length - items.length) none)
    else none
  | _ => none

/-! ## Parts that are values of their own -/

/-- A text. -/
def string? : Json → Option String
  | .string s => some s
  | _ => none

/-- A part that may be left out; `null` says that it is left out. -/
def optionalString? : Option Json → Option (Option String)
  | none => some none
  | some .null => some none
  | some (.string s) => some (some s)
  | some _ => none

/-- A number of 32 bits, written in digits alone. -/
def word? : Json → Option UInt32
  | .natural n => if n < UInt32.size then some (UInt32.ofNat n) else none
  | _ => none

/-- A list, by what reads its items. -/
def list? {α : Type} (read? : Json → Option α) : Json → Option (List α)
  | .array items => items.mapM read?
  | _ => none

/-- `null`, which is all that may stand behind a bare word that is written as a key. -/
def isNull : Json → Bool
  | .null => true
  | _ => false

/-- `null` or an empty object; inside a command both may stand behind a bare word. -/
def isNothing : Json → Bool
  | .null => true
  | .object [] => true
  | _ => false

/-- A bare word: a text, or an object with the word as its only key and nothing behind it. -/
def bareWord? (nothing : Json → Bool) : Json → Option String
  | .string s => some s
  | .object [(key, value)] => if nothing value then some key else none
  | _ => none

/-! ## What is written -/

/-- A number of 32 bits. -/
def ofWord (w : UInt32) : Json :=
  .natural w.toNat

/-- A member that is left out if there is no value. -/
def optionalMember (name : String) : Option String → List (String × Json)
  | none => []
  | some value => [(name, .string value)]

@[simp] theorem word?_ofWord (w : UInt32) : word? (ofWord w) = some w := by
  have h : w.toNat < UInt32.size := w.toNat_lt_size
  simp only [word?, ofWord, h, if_true, UInt32.ofNat_toNat]

theorem list?_map {α : Type} {read? : Json → Option α} {write : α → Json}
    (h : ∀ a, read? (write a) = some a) (as : List α) :
    list? read? (.array (as.map write)) = some as := by
  unfold list?
  induction as with
  | nil => rfl
  | cons a rest ih => simp only [List.map_cons, List.mapM_cons, h, ih]; rfl

end Json

end SchemaLog
