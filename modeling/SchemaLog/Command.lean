import SchemaLog.Document

/-!
# Command — one entry of a schema log

A command is stamped with the version at which it takes effect and names the document that it
declares or changes.  Whether it can be applied is decided by the replay and not here.
-/

namespace SchemaLog

/-- What a command does to its document. -/
inductive Action
  /-- The document is declared with its first fields. -/
  | declare (fields : List Field)
  /-- A declared document is changed. -/
  | change (change : Change)
  deriving DecidableEq

/-- A command: the document it is about, its stamp, and what it does. -/
structure Command where
  document : String
  version : Version
  action : Action
  deriving DecidableEq

/-- The five kinds of command. -/
inductive CommandKind
  | newDocument
  | addField
  | removeField
  | renameField
  | changeType
  deriving DecidableEq

namespace CommandKind

/-- Every kind. -/
def all : List CommandKind :=
  [newDocument, addField, removeField, renameField, changeType]

/-- The word for a kind in scripts and artifacts. -/
def tag : CommandKind → String
  | newDocument => "newDocument"
  | addField => "addField"
  | removeField => "removeField"
  | renameField => "renameField"
  | changeType => "changeType"

/-- The word for a kind in messages. -/
def title : CommandKind → String
  | newDocument => "NewDocument"
  | addField => "AddField"
  | removeField => "RemoveField"
  | renameField => "RenameField"
  | changeType => "ChangeType"

/-- The kind of a tag. -/
def ofTag? (s : String) : Option CommandKind :=
  all.find? fun k => k.tag == s

@[simp] theorem ofTag?_tag (k : CommandKind) : ofTag? k.tag = some k := by
  cases k <;> decide

end CommandKind

namespace Command

/-- The command's kind. -/
def kind (c : Command) : CommandKind :=
  match c.action with
  | .declare _ => .newDocument
  | .change (.add _) => .addField
  | .change (.remove _) => .removeField
  | .change (.rename _ _) => .renameField
  | .change (.retype _ _ _) => .changeType

/-- The field that the command works on; of a renaming it is the old name. -/
def field? (c : Command) : Option String :=
  match c.action with
  | .declare _ => none
  | .change (.add field) => some field.name
  | .change (.remove name) => some name
  | .change (.rename old _) => some old
  | .change (.retype name _ _) => some name

/-- The change that the command makes to a declared document. -/
def change? (c : Command) : Option Change :=
  match c.action with
  | .declare _ => none
  | .change change => some change

/-- Whether the command declares its document. -/
def declares (c : Command) : Bool :=
  c.change?.isNone

/-- The command in a sentence; of a conversion and of a version it says nothing. -/
def describe (c : Command) : String :=
  match c.action with
  | .declare fields =>
    "create document " ++ c.document ++ " with fields ["
      ++ ", ".intercalate (fields.map fun f => f.name ++ ":" ++ f.type.spelling) ++ "]"
  | .change (.add f) =>
    "add field " ++ f.name ++ ":" ++ f.type.spelling ++ " to document " ++ c.document
      ++ (match f.default with
          | some expression => " (default: " ++ expression ++ ")"
          | none => "")
  | .change (.remove name) => "remove field " ++ name ++ " from document " ++ c.document
  | .change (.rename old new) =>
    "rename field " ++ old ++ " to " ++ new ++ " in document " ++ c.document
  | .change (.retype name type _) =>
    "change type of field " ++ name ++ " to " ++ type.spelling ++ " in document " ++ c.document

theorem declares_iff {c : Command} : c.declares = true ↔ ∃ fields, c.action = .declare fields := by
  cases c with
  | mk document version action => cases action <;> simp [declares, change?]

end Command

end SchemaLog
