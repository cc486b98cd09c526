import SchemaLog.Schema
import SchemaLog.Format.Command

/-!
# Format/Schema — schemas in artifacts
-/

namespace SchemaLog

/-- A step with its command and its description. -/
def Step.toJson (s : Step) : Json :=
  .object [("version", Json.ofWord s.version), ("command", s.command.toJson),
    ("description", .string s.description)]

/-- Reads a step. -/
def Step.ofJson? (j : Json) : Option Step := do
  let [some version, some command, some description] ←
    j.parts? ["version", "command", "description"] | none
  return ⟨← version.word?, ← Command.ofJson? CommandKind.byTag? command,
    ← description.string?⟩

/-- The documents, the current version and the steps. -/
def Schema.toJson (s : Schema) : Json :=
  .object [("documents", .array (s.documents.map Document.toJson)),
    ("currentVersion", Json.ofWord s.currentVersion),
    ("migrations", .array (s.steps.map Step.toJson))]

/-- Reads a schema. -/
def Schema.ofJson? (j : Json) : Option Schema := do
  let [some documents, some version, some steps] ←
    j.parts? ["documents", "currentVersion", "migrations"] | none
  return { documents := ← documents.list? Document.ofJson?, currentVersion := ← version.word?,
           steps := ← steps.list? Step.ofJson? }

@[simp] theorem Step.ofJson?_toJson (s : Step) : Step.ofJson? s.toJson = some s := by
  simp [Step.ofJson?, Step.toJson, Json.parts?, Json.member?, Json.string?, List.filter,
    Command.ofJson?_toJson s.command (CommandKind.byTag?_tag s.command.kind)]

/-- **A schema is read back from what is written of it**, whether or not a replay has made it. -/
@[simp] theorem Schema.ofJson?_toJson (s : Schema) : Schema.ofJson? s.toJson = some s := by
  simp [Schema.ofJson?, Schema.toJson, Json.parts?, Json.member?, List.filter,
    Json.list?_map Document.ofJson?_toJson, Json.list?_map Step.ofJson?_toJson]

end SchemaLog
