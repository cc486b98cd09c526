import SchemaLog.Format.Command
import SchemaLog.Json.Reader
import SchemaLog.Json.Writer

/-!
# Script — the text of a list of commands

A script is a list of commands, bare or as the member `commands` of an object.  It is written in the
second form, with the tags of the kinds; what is read may also number the kinds.
-/

namespace SchemaLog

/-- A list of commands as it is kept in a file. -/
structure Script where
  commands : List Command
  deriving DecidableEq

/-- Why a text is no script. -/
inductive ScriptFault
  /-- The text is no JSON, or holds something that cannot be read. -/
  | malformed
  /-- The text begins with a JSON value that is neither form of a script. -/
  | unrecognized
  deriving DecidableEq

namespace Script

/-- The form that is written. -/
def toJson (s : Script) : Json :=
  .object [("commands", .array (s.commands.map Command.toJson))]

/-- Reads the commands of a script. -/
def commands? : Json → Option (List Command) :=
  Json.list? (Command.ofJson? CommandKind.byTagOrPlace?)

/-- Reads either form. -/
def ofJson? : Json → Option Script
  | .array items => (commands? (.array items)).map Script.mk
  | .object members => do
    let some commands ← Json.member? members "commands" | none
    return ⟨← commands? commands⟩
  | _ => none

/-- The text of a script, over several lines. -/
def text (s : Script) : String :=
  s.toJson.indented

/-- Reads a script.  The value at the front is judged before it is asked whether anything follows.
-/
def parse (text : String) : Except ScriptFault Script :=
  match Json.read? (Token.ofChars text.toList) with
  | none => .error .malformed
  | some (j, rest) =>
    if j.isReadable then
      match ofJson? j with
      | none => .error .unrecognized
      | some script => if rest.isEmpty then .ok script else .error .malformed
    else .error .malformed

theorem commands?_toJson (commands : List Command) :
    commands? (.array (commands.map Command.toJson)) = some commands :=
  Json.list?_map (fun c => c.ofJson?_toJson (CommandKind.byTagOrPlace?_tag c.kind)) commands

@[simp] theorem ofJson?_toJson (s : Script) : ofJson? s.toJson = some s := by
  simp [ofJson?, toJson, Json.member?, List.filter, commands?_toJson]

end Script

end SchemaLog
