/-!
# Json — JSON values as scripts and artifacts need them

The members of an object keep their order, and a key may stand in it twice: what to do about that is
for the format that reads the object to decide.  No format here has a number but a version stamp, so
a number other than a natural one is only kept as its text.
-/

namespace SchemaLog

/-- A JSON value. -/
inductive Json
  | null
  | bool (value : Bool)
  /-- A number written in digits alone. -/
  | natural (value : Nat)
  /-- Any other number. -/
  | number (text : String)
  | string (value : String)
  | array (items : List Json)
  | object (members : List (String × Json))
  /-- A text that is well formed and yet denotes no value: a string with half a surrogate pair, a
  number beyond the range of a double, or a list or object inside too many others.  It can be
  skipped but not read. -/
  | unreadable

namespace Json

instance : Inhabited Json := ⟨null⟩

mutual

/-- Whether a value and all values inside it can be read. -/
def isReadable : Json → Bool
  | .unreadable => false
  | .array items => allReadable items
  | .object members => membersReadable members
  | _ => true

/-- Whether all values of a list can be read. -/
def allReadable : List Json → Bool
  | [] => true
  | item :: rest => item.isReadable && allReadable rest

/-- Whether the values of all members can be read. -/
def membersReadable : List (String × Json) → Bool
  | [] => true
  | (_, value) :: rest => value.isReadable && membersReadable rest

end

end Json

end SchemaLog
