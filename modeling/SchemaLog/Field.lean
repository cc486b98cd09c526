/-!
# Field — field types and the fields of a document

A field has a name, one of six types and, unless it is required, a default expression.  The names of
a list of fields are looked up from the front: `Field.find?` and `Field.position?` answer with the
first field of a name, and `Field.updateFirst`, `Field.eraseFirst` act on that same field.
-/

namespace SchemaLog

/-- The closed set of types a field can have. -/
inductive FieldType
  | string
  | number
  | boolean
  | stringArray
  | numberArray
  | object
  deriving DecidableEq

namespace FieldType

/-- Every field type, in the order in which messages list them. -/
def all : List FieldType :=
  [string, number, boolean, stringArray, numberArray, object]

/-- The spelling of a type in scripts, artifacts and descriptions. -/
def spelling : FieldType → String
  | string => "string"
  | number => "number"
  | boolean => "boolean"
  | stringArray => "string-array"
  | numberArray => "number-array"
  | object => "object"

/-- The type of a spelling; there is no other spelling than the canonical one. -/
def ofSpelling? (s : String) : Option FieldType :=
  all.find? fun t => t.spelling == s

@[simp] theorem ofSpelling?_spelling (t : FieldType) : ofSpelling? t.spelling = some t := by
  cases t <;> decide

/-- What is said of a text that spells no type. -/
def unknownMessage (s : String) : String :=
  "unknown field type '" ++ s ++ "' (expected one of: "
    ++ ", ".intercalate (all.map spelling) ++ ")"

end FieldType

/-- A named field.  The default is an expression that is passed on as it is written; a field
without one is required. -/
structure Field where
  name : String
  type : FieldType
  default : Option String
  deriving DecidableEq

namespace Field

/-- A field without a default has to be given a value by whoever writes a record. -/
def isRequired (f : Field) : Bool :=
  f.default.isNone

/-- The first field of a name. -/
def find? (fields : List Field) (name : String) : Option Field :=
  List.find? (fun f => f.name == name) fields

/-- The place of the first field of a name. -/
def position? (fields : List Field) (name : String) : Option Nat :=
  fields.findIdx? fun f => f.name == name

/-- The names of a list of fields, in order. -/
def names (fields : List Field) : List String :=
  fields.map Field.name

/-- Whether some field has a name. -/
def declares (fields : List Field) (name : String) : Bool :=
  fields.any fun f => f.name == name

/-- Changes the first field of a name and leaves the others as they are. -/
def updateFirst (name : String) (change : Field → Field) : List Field → List Field
  | [] => []
  | f :: rest => if f.name == name then change f :: rest else f :: updateFirst name change rest

/-- Takes out the first field of a name and keeps the order of the others. -/
def eraseFirst (name : String) : List Field → List Field
  | [] => []
  | f :: rest => if f.name == name then rest else f :: eraseFirst name rest

/-- The first name that occurs a second time, among names of which some were seen before. -/
def repeatedName? (seen : List String) : List Field → Option String
  | [] => none
  | f :: rest =>
    if seen.contains f.name then some f.name else repeatedName? (f.name :: seen) rest

@[simp] theorem declares_eq_true_iff {fields : List Field} {name : String} :
    declares fields name = true ↔ name ∈ names fields := by
  simp only [declares, names, List.any_eq_true, List.mem_map, beq_iff_eq]

theorem eraseFirst_sublist (name : String) :
    ∀ fields : List Field, (eraseFirst name fields).Sublist fields
  | [] => List.Sublist.slnil
  | f :: rest => by
    unfold eraseFirst
    split
    · exact List.sublist_cons_self f rest
    · exact (eraseFirst_sublist name rest).cons_cons f

/-- **Nothing is repeated exactly when the names are pairwise distinct and none was seen.** -/
theorem repeatedName?_eq_none_iff :
    ∀ (seen : List String) (fields : List Field),
      repeatedName? seen fields = none ↔
        (names fields).Nodup ∧ ∀ f ∈ fields, f.name ∉ seen
  | seen, [] => by simp [repeatedName?, names]
  | seen, f :: rest => by
    unfold repeatedName?
    split
    · next h =>
      have : f.name ∈ seen := by simpa using h
      simp [this]
    · next h =>
      have hf : f.name ∉ seen := by simpa using h
      rw [repeatedName?_eq_none_iff (f.name :: seen) rest]
      simp only [names, List.map_cons, List.nodup_cons, List.mem_map, List.mem_cons, not_or,
        forall_eq_or_imp]
      grind

end Field

end SchemaLog
