import SchemaLog.XXH3
import SchemaLog.Format.Schema
import SchemaLog.Json.Reader
import SchemaLog.Json.Writer

/-!
# Artifact — a schema as it is kept in a file, with its hash

The hash is taken of the schema's text without blanks, so it covers everything that the schema says
and nothing else: not the time of writing, and not the layout of the file.
-/

namespace SchemaLog

/-- The last digits of a number in base 16, as many as asked for, the last first. -/
def hexDigits : Nat → Nat → List Char
  | 0, _ => []
  | n + 1, value => Quoted.hexChar (value % 16) :: hexDigits n (value / 16)

/-- A hash as it is noted: the algorithm's name and 16 hexadecimal digits. -/
def hashText (value : UInt64) : String :=
  "xxh3:" ++ String.ofList (hexDigits 16 value.toNat).reverse

namespace Schema

/-- The text of a schema without blanks. -/
def compact (s : Schema) : String :=
  s.toJson.compact

/-- The bytes that the hash of a schema is taken of. -/
def hashedBytes (s : Schema) : ByteArray :=
  s.compact.toUTF8

/-- The hash of a schema. -/
def hash (s : Schema) : String :=
  hashText (XXH3.hash s.hashedBytes)

end Schema

/-- A schema with what is noted when it is written. -/
structure Artifact where
  formatVersion : String
  generatedAt : String
  engineVersion : String
  hash : String
  schema : Schema
  deriving DecidableEq

namespace Artifact

/-- The version of the format that is written. -/
def currentFormat : String := "1.0"

/-- The artifact of a schema. -/
def ofSchema (schema : Schema) (engineVersion generatedAt : String) : Artifact :=
  ⟨currentFormat, generatedAt, engineVersion, schema.hash, schema⟩

/-- Whether the hash is the one of the schema. -/
def isIntact (a : Artifact) : Bool :=
  a.schema.hash == a.hash

/-- The members in their order. -/
def toJson (a : Artifact) : Json :=
  .object [("formatVersion", .string a.formatVersion), ("generatedAt", .string a.generatedAt),
    ("engineVersion", .string a.engineVersion), ("hash", .string a.hash),
    ("schema", a.schema.toJson)]

/-- Reads an artifact. -/
def ofJson? (j : Json) : Option Artifact := do
  let [some formatVersion, some generatedAt, some engineVersion, some hash, some schema] ←
    j.parts? ["formatVersion", "generatedAt", "engineVersion", "hash", "schema"] | none
  return ⟨← formatVersion.string?, ← generatedAt.string?, ← engineVersion.string?, ← hash.string?,
    ← Schema.ofJson? schema⟩

/-- The text of an artifact, over several lines. -/
def text (a : Artifact) : String :=
  a.toJson.indented

/-- Reads the text of an artifact. -/
def parse? (text : String) : Option Artifact :=
  (Json.ofString? text).bind ofJson?

@[simp] theorem ofJson?_toJson (a : Artifact) : ofJson? a.toJson = some a := by
  simp [ofJson?, toJson, Json.parts?, Json.member?, Json.string?, List.filter]

@[simp] theorem isIntact_ofSchema (schema : Schema) (engineVersion generatedAt : String) :
    (ofSchema schema engineVersion generatedAt).isIntact = true := by
  simp [isIntact, ofSchema]

end Artifact

end SchemaLog
