import SchemaLog.Replay
import SchemaLog.Format.Parts
import SchemaLog.Json.Reader

/-!
# Settings — how to replay, and where files are kept
-/

namespace SchemaLog

namespace VersionPolicy

/-- Both policies. -/
def all : List VersionPolicy := [nonDecreasing, lenient]

/-- The word for a policy in settings. -/
def tag : VersionPolicy → String
  | nonDecreasing => "nonDecreasing"
  | lenient => "lenient"

/-- The policy of a tag. -/
def ofTag? (s : String) : Option VersionPolicy :=
  all.find? fun p => p.tag == s

/-- Reads a policy. -/
def ofJson? (j : Json) : Option VersionPolicy :=
  (j.bareWord? Json.isNull).bind ofTag?

end VersionPolicy

/-- The policy of a replay, the file that keeps the last schema, and the directory for generated
modules. -/
structure Settings where
  policy : VersionPolicy
  historyFile : String
  outputDirectory : String
  deriving DecidableEq

namespace Settings

/-- What holds where nothing is said. -/
def standard : Settings :=
  ⟨.nonDecreasing, "schema.history.json", "src/generated/migrations"⟩

/-- A part by what reads it, or the standard if the part is missing. -/
def partOr {α : Type} (standard : α) (read? : Json → Option α) : Option Json → Option α
  | none => some standard
  | some j => read? j

/-- Reads settings; a part that is missing is as in the standard, but `null` is no part. -/
def ofJson? (j : Json) : Option Settings := do
  let [policy, historyFile, outputDirectory] ←
    j.parts? ["versionPolicy", "historyFile", "upcastOutDir"] | none
  return ⟨← partOr standard.policy VersionPolicy.ofJson? policy,
    ← partOr standard.historyFile Json.string? historyFile,
    ← partOr standard.outputDirectory Json.string? outputDirectory⟩

/-- Reads the text of settings. -/
def parse? (text : String) : Option Settings :=
  (Json.ofString? text).bind ofJson?

end Settings

end SchemaLog
