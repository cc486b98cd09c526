import SchemaLog.Regeneration

/-!
# Diagnostics — what is said about a failure

Every cause has a code, most have a message, and some have a hint at what to do.
-/

namespace SchemaLog

namespace Rejection

/-- What is wrong with the command. -/
def message : Rejection → String
  | duplicateDocument document => "document '" ++ document ++ "' is already declared"
  | unknownDocument document => "document '" ++ document ++ "' has not been declared"
  | duplicateField document field =>
    "field '" ++ field ++ "' already exists in document '" ++ document ++ "'"
  | unknownField document field =>
    "field '" ++ field ++ "' does not exist in document '" ++ document ++ "'"
  | lowVersion version current =>
    "command version " ++ version.text ++ " is lower than the current schema version "
      ++ current.text

/-- The code of the cause. -/
def code : Rejection → String
  | duplicateDocument _ => "schema_evolution::replay::duplicate_document"
  | unknownDocument _ => "schema_evolution::replay::unknown_document"
  | duplicateField _ _ => "schema_evolution::replay::duplicate_field"
  | unknownField _ _ => "schema_evolution::replay::unknown_field"
  | lowVersion _ _ => "schema_evolution::replay::invalid_version"

/-- What to do about it. -/
def help? : Rejection → Option String
  | duplicateDocument _ =>
    some ("Each document is declared once with NewDocument; "
      ++ "evolve it afterwards with field commands.")
  | unknownDocument _ =>
    some "Declare the document with NewDocument before any command that targets it."
  | duplicateField _ _ => none
  | unknownField _ _ => none
  | lowVersion _ _ =>
    some ("Command versions start at 1 and must never decrease. "
      ++ "Use the lenient version policy to accept out-of-order stamps.")

end Rejection

namespace Refusal

/-- Which command was refused, and why. -/
def message (r : Refusal) : String :=
  "command #" ++ String.ofList (Nat.toDigits 10 r.index) ++ " (" ++ r.kind.title ++ " on '"
    ++ r.document ++ "') rejected: " ++ r.reason.message

/-- The code of every refusal; the reason has one of its own. -/
def code (_ : Refusal) : String :=
  "schema_evolution::replay::rejected"

end Refusal

namespace HistoryFault

/-- Why there is no answer. -/
def message : HistoryFault → String
  | unknownDocument document =>
    "document '" ++ document ++ "' does not appear in the schema history"
  | futureVersion stored current =>
    "record version v" ++ stored.text ++ " is newer than the current schema version v"
      ++ current.text

/-- The code of the cause. -/
def code : HistoryFault → String
  | unknownDocument _ => "schema_evolution::history::unknown_document"
  | futureVersion _ _ => "schema_evolution::history::future_version"

/-- What to do about it. -/
def help? : HistoryFault → Option String
  | unknownDocument _ => none
  | futureVersion _ _ =>
    some ("The record was written by a newer schema. "
      ++ "Upgrade the schema source before reading it.")

end HistoryFault

namespace ScriptFault

/-- What is said of a text that is no script; of a malformed text only that it is one. -/
def message? : ScriptFault → Option String
  | malformed => none
  | unrecognized =>
    some "Invalid command script: data did not match any variant of untagged enum ScriptRepr"

end ScriptFault

namespace UpcastFault

/-- Why nothing is generated. -/
def message : UpcastFault → String
  | collision file first second =>
    "Documents '" ++ first ++ "' and '" ++ second ++ "' both generate migration module '" ++ file
      ++ "'"
  | history fault => fault.message

/-- The code of the cause. -/
def code : UpcastFault → String
  | collision _ _ _ => "schema_evolution::codegen::module_collision"
  | history fault => fault.code

/-- What to do about it. -/
def help? : UpcastFault → Option String
  | collision _ _ _ =>
    some ("Generated module and type names are derived from document names. "
      ++ "Rename one of the documents.")
  | history fault => fault.help?

end UpcastFault

namespace Failure

/-- What has gone wrong, where this library has words for it. -/
def message? : Failure → Option String
  | access _ => none
  | script fault => fault.message?
  | artifact _ => none
  | hashMismatch path recorded computed =>
    some ("History artifact '" ++ path.text ++ "' hash mismatch: recorded " ++ recorded
      ++ ", computed " ++ computed)
  | upcast fault => some fault.message
  | replay refusal => some refusal.message

/-- The code of the cause. -/
def code : Failure → String
  | access _ => "schema_evolution::io::access_failed"
  | script _ => "schema_evolution::parse::invalid_script"
  | artifact _ => "schema_evolution::parse::invalid_artifact"
  | hashMismatch _ _ _ => "schema_evolution::artifact::hash_mismatch"
  | upcast fault => fault.code
  | replay refusal => refusal.code

/-- What to do about it. -/
def help? : Failure → Option String
  | access _ => none
  | script _ =>
    some ("A command script is a JSON array of commands, "
      ++ "or an object with a \"commands\" array.")
  | artifact _ => none
  | hashMismatch _ _ _ =>
    some "The artifact was edited by hand. Regenerate it from the command script."
  | upcast fault => fault.help?
  | replay _ => none

end Failure

end SchemaLog
