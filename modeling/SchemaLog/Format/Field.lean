import SchemaLog.Document
import SchemaLog.Format.Parts

/-!
# Format/Field — fields and documents in scripts and artifacts
-/

namespace SchemaLog

/-- The type is written as its spelling. -/
def FieldType.toJson (t : FieldType) : Json :=
  .string t.spelling

/-- Reads a type; the argument says what counts as nothing behind a bare word. -/
def FieldType.ofJson? (nothing : Json → Bool) (j : Json) : Option FieldType :=
  (j.bareWord? nothing).bind FieldType.ofSpelling?

/-- A field without a default has no member for it. -/
def Field.toJson (f : Field) : Json :=
  .object ([("name", .string f.name), ("type", f.type.toJson)]
    ++ Json.optionalMember "defaultValue" f.default)

/-- Reads a field. -/
def Field.ofJson? (nothing : Json → Bool) (j : Json) : Option Field := do
  let [some name, some type, default] ← j.parts? ["name", "type", "defaultValue"] | none
  return ⟨← name.string?, ← FieldType.ofJson? nothing type, ← Json.optionalString? default⟩

/-- A document with its fields in order. -/
def Document.toJson (d : Document) : Json :=
  .object [("name", .string d.name), ("fields", .array (d.fields.map Field.toJson)),
    ("version", Json.ofWord d.version)]

/-- Reads a document. -/
def Document.ofJson? (j : Json) : Option Document := do
  let [some name, some fields, some version] ← j.parts? ["name", "fields", "version"] | none
  return ⟨← name.string?, ← fields.list? (Field.ofJson? Json.isNull), ← version.word?⟩

/-! ## What is written is read back -/

@[simp] theorem FieldType.ofJson?_toJson (nothing : Json → Bool) (t : FieldType) :
    FieldType.ofJson? nothing t.toJson = some t := by
  simp [FieldType.ofJson?, FieldType.toJson, Json.bareWord?]

@[simp] theorem Field.ofJson?_toJson (nothing : Json → Bool) (f : Field) :
    Field.ofJson? nothing f.toJson = some f := by
  rcases f with ⟨name, type, default⟩
  cases default <;>
    simp [Field.ofJson?, Field.toJson, Json.parts?, Json.member?, Json.optionalMember,
      Json.string?, Json.optionalString?, List.filter]

@[simp] theorem Document.ofJson?_toJson (d : Document) : Document.ofJson? d.toJson = some d := by
  simp [Document.ofJson?, Document.toJson, Json.parts?, Json.member?, Json.string?, List.filter,
    Json.list?_map (Field.ofJson?_toJson Json.isNull)]

end SchemaLog
