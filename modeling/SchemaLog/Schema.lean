import SchemaLog.Command

/-!
# Schema — the documents a log leads to, together with its steps

A `History` is the list of applied commands with their descriptions; a `Schema` is a history and the
documents that it leads to.  Neither has to come from a replay: both are also read from files.
-/

namespace SchemaLog

/-- An applied command, with the version it is stamped with and its description. -/
structure Step where
  version : Version
  command : Command
  description : String
  deriving DecidableEq

/-- The step that a command leaves in the history. -/
def Step.ofCommand (c : Command) : Step :=
  ⟨c.version, c, c.describe⟩

/-- The steps in the order of their application, and the schema version they lead to. -/
structure History where
  currentVersion : Version
  steps : List Step
  deriving DecidableEq

/-- The commands of the steps, in order. -/
def History.commands (h : History) : List Command :=
  h.steps.map Step.command

/-- A history with the documents it leads to, in the order of their declaration. -/
structure Schema extends History where
  documents : List Document
  deriving DecidableEq

/-- The first document of a name. -/
def Schema.document? (s : Schema) (name : String) : Option Document :=
  s.documents.find? fun d => d.name == name

end SchemaLog
