import SchemaLog.Command
import SchemaLog.Format.Field

/-!
# Format/Command — commands in scripts and artifacts

A command is an object with its kind among the members, or a list that begins with the kind; the
other members depend on the kind.  It is read as a whole before its kind is looked at, so a command
with an unreadable value anywhere inside it is none.

The kind is written as its tag.  A script, which people write by hand, may number it instead
(`CommandKind.byTagOrPlace?`); an artifact may not (`CommandKind.byTag?`).  So reading a command
takes the way in which kinds are read.
-/

namespace SchemaLog

/-- The names of the parts of a command of a kind, in order. -/
def CommandKind.parts : CommandKind → List String
  | newDocument => ["documentName", "fields", "version"]
  | addField => ["documentName", "fieldName", "fieldType", "defaultValue", "version"]
  | removeField => ["documentName", "fieldName", "version"]
  | renameField => ["documentName", "oldFieldName", "newFieldName", "version"]
  | changeType => ["documentName", "fieldName", "newType", "migrationFunction", "version"]

namespace CommandKind

/-- The kind of a command that is given as a JSON value of its own. -/
def ofJson? (j : Json) : Option CommandKind :=
  (j.bareWord? Json.isNull).bind ofTag?

/-- The kind of a command in an artifact: a tag. -/
def byTag? (j : Json) : Option CommandKind :=
  j.string?.bind ofTag?

/-- The kind of a command in a script: a tag, or the place among the kinds, counted from zero. -/
def byTagOrPlace? : Json → Option CommandKind
  | .natural place => all[place]?
  | j => byTag? j

theorem byTag?_tag (k : CommandKind) : byTag? (.string k.tag) = some k :=
  ofTag?_tag k

theorem byTagOrPlace?_tag (k : CommandKind) : byTagOrPlace? (.string k.tag) = some k :=
  ofTag?_tag k

end CommandKind

namespace Command

/-- The members behind the kind. -/
def members (c : Command) : List (String × Json) :=
  match c.action with
  | .declare fields =>
    [("documentName", .string c.document), ("fields", .array (fields.map Field.toJson)),
      ("version", Json.ofWord c.version)]
  | .change (.add f) =>
    [("documentName", .string c.document), ("fieldName", .string f.name),
      ("fieldType", f.type.toJson)] ++ Json.optionalMember "defaultValue" f.default
      ++ [("version", Json.ofWord c.version)]
  | .change (.remove name) =>
    [("documentName", .string c.document), ("fieldName", .string name),
      ("version", Json.ofWord c.version)]
  | .change (.rename old new) =>
    [("documentName", .string c.document), ("oldFieldName", .string old),
      ("newFieldName", .string new), ("version", Json.ofWord c.version)]
  | .change (.retype name type conversion) =>
    [("documentName", .string c.document), ("fieldName", .string name), ("newType", type.toJson),
      ("migrationFunction", .string conversion), ("version", Json.ofWord c.version)]

/-- The kind comes first. -/
def toJson (c : Command) : Json :=
  .object (("kind", .string c.kind.tag) :: c.members)

/-- Reads the parts of a command of a kind. -/
def ofParts? : CommandKind → List (Option Json) → Option Command
  | .newDocument, [some document, some fields, some version] => do
    return ⟨← document.string?, ← version.word?,
      .declare (← fields.list? (Field.ofJson? Json.isNothing))⟩
  | .addField, [some document, some name, some type, default, some version] => do
    return ⟨← document.string?, ← version.word?,
      .change (.add ⟨← name.string?, ← FieldType.ofJson? Json.isNothing type,
        ← Json.optionalString? default⟩)⟩
  | .removeField, [some document, some name, some version] => do
    return ⟨← document.string?, ← version.word?, .change (.remove (← name.string?))⟩
  | .renameField, [some document, some old, some new, some version] => do
    return ⟨← document.string?, ← version.word?,
      .change (.rename (← old.string?) (← new.string?))⟩
  | .changeType, [some document, some name, some type, some conversion, some version] => do
    return ⟨← document.string?, ← version.word?,
      .change (.retype (← name.string?) (← FieldType.ofJson? Json.isNothing type)
        (← conversion.string?))⟩
  | _, _ => none

/-- The kind of a command, by what reads kinds, and the value that holds its other parts. -/
def kindAndRest? (kind? : Json → Option CommandKind) : Json → Option (CommandKind × Json)
  | .object members => do
    let some kind ← Json.member? members "kind" | none
    return (← kind? kind, .object members)
  | .array (kind :: rest) => do
    return (← kind? kind, .array rest)
  | _ => none

/-- Reads a command, by what reads its kind. -/
def ofJson? (kind? : Json → Option CommandKind) (j : Json) : Option Command :=
  if j.isReadable then do
    let (kind, rest) ← kindAndRest? kind? j
    ofParts? kind (← rest.parts? kind.parts)
  else none

/-! ## What is written is read back -/

theorem isReadable_fields (fields : List Field) :
    Json.allReadable (fields.map Field.toJson) = true := by
  induction fields with
  | nil => rfl
  | cons f rest ih =>
    rcases f with ⟨name, type, default⟩
    cases default <;>
      simp [Json.allReadable, Json.isReadable, Json.membersReadable, Field.toJson, FieldType.toJson,
        Json.optionalMember, ih]

theorem isReadable_toJson (c : Command) : c.toJson.isReadable = true := by
  rcases c with ⟨document, version, fields | ⟨⟨name, type, default⟩⟩ | name | ⟨old, new⟩ |
    ⟨name, type, conversion⟩⟩
  · simp [toJson, members, Json.isReadable, Json.membersReadable, isReadable_fields, Json.ofWord]
  · cases default <;>
      simp [toJson, members, Json.isReadable, Json.membersReadable, Json.ofWord, FieldType.toJson,
        Json.optionalMember]
  all_goals
    simp [toJson, members, Json.isReadable, Json.membersReadable, Json.ofWord, FieldType.toJson]

theorem kindAndRest?_toJson {kind? : Json → Option CommandKind} (c : Command)
    (hkind : kind? (.string c.kind.tag) = some c.kind) :
    kindAndRest? kind? c.toJson = some (c.kind, c.toJson) := by
  have h : Json.member? (("kind", .string c.kind.tag) :: c.members) "kind"
      = some (some (.string c.kind.tag)) := by
    rcases c with ⟨document, version, fields | ⟨⟨name, type, default⟩⟩ | name | ⟨old, new⟩ |
      ⟨name, type, conversion⟩⟩
    · simp [members, Json.member?, List.filter]
    · cases default <;> simp [members, Json.member?, List.filter, Json.optionalMember]
    all_goals simp [members, Json.member?, List.filter]
  simp only [kindAndRest?, toJson, h, Option.bind_eq_bind, Option.bind_some, hkind,
    Option.pure_def]

/-- **A command is read back from what is written of it**, wherever tags are read as kinds. -/
theorem ofJson?_toJson {kind? : Json → Option CommandKind} (c : Command)
    (hkind : kind? (.string c.kind.tag) = some c.kind) : ofJson? kind? c.toJson = some c := by
  unfold ofJson?
  rw [if_pos (isReadable_toJson c), kindAndRest?_toJson c hkind]
  simp only [Option.bind_eq_bind, Option.bind_some]
  rcases c with ⟨document, version, fields | ⟨⟨name, type, default⟩⟩ | name | ⟨old, new⟩ |
    ⟨name, type, conversion⟩⟩
  · simp [toJson, members, kind, Json.member?, Json.parts?, CommandKind.parts, List.filter,
      ofParts?, Json.string?, Json.list?_map (Field.ofJson?_toJson Json.isNothing)]
  · cases default <;>
      simp [toJson, members, kind, Json.member?, Json.parts?, CommandKind.parts, List.filter,
        ofParts?, Json.string?, Json.optionalMember, Json.optionalString?]
  all_goals
    simp [toJson, members, kind, Json.member?, Json.parts?, CommandKind.parts, List.filter,
      ofParts?, Json.string?]

end Command

end SchemaLog
