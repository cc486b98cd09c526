import SchemaLog.Diff.Origins

/-!
# Diff — what has changed between two schemas

Documents are matched by name, and fields through the renamings that the newer history records after
the older schema's version.  A document that is only in the newer schema is no difference, as
nothing that is stored can depend on it; one without any difference has no entry.
-/

namespace SchemaLog

/-- One difference between the fields of two versions of a document. -/
inductive FieldDiff
  | added (field : Field)
  | removed (field : Field)
  | renamed (old new : String)
  | retyped (name : String) (old new : FieldType)
  | redefaulted (name : String) (old new : Option String)
  deriving DecidableEq

/-- What has become of a document of the older schema. -/
inductive Outcome
  | removed
  | modified (fields : List FieldDiff)
  deriving DecidableEq

/-- A document of the older schema that is not the same in the newer one. -/
structure DocumentDiff where
  document : String
  outcome : Outcome
  deriving DecidableEq

/-- Whether records or readers of the older shape are affected: a new field is required, a field is
gone or has another type, or a default was dropped. -/
def FieldDiff.isBreaking : FieldDiff → Bool
  | added field => field.isRequired
  | removed _ => true
  | renamed _ _ => false
  | retyped _ _ _ => true
  | redefaulted _ _ new => new.isNone

namespace DocumentDiff

/-- The differences field by field; of a document that is gone there are none. -/
def fields (d : DocumentDiff) : List FieldDiff :=
  match d.outcome with
  | .removed => []
  | .modified fields => fields

/-- Whether the document is gone or one of its differences is breaking. -/
def isBreaking (d : DocumentDiff) : Bool :=
  match d.outcome with
  | .removed => true
  | .modified fields => fields.any FieldDiff.isBreaking

end DocumentDiff

/-! ## Comparing fields -/

namespace FieldDiff

/-- The differences of one field: first its name, then its type or else its default. -/
def between (old new : Field) (currentName : String) : List FieldDiff :=
  (if currentName = old.name then [] else [renamed old.name currentName])
    ++ if old.type ≠ new.type then [retyped new.name old.type new.type]
       else if old.default ≠ new.default then [redefaulted new.name old.default new.default]
       else []

/-- The field of the newer document in which a field of the older one lives on. -/
def counterpart? (origins : Origins) (new : Document) (old : Field) : Option Field :=
  new.field? (origins.currentName old.name)

/-- The differences of one field of the older document. -/
def ofField (origins : Origins) (new : Document) (old : Field) : List FieldDiff :=
  match counterpart? origins new old with
  | none => [removed old]
  | some field => between old field (origins.currentName old.name)

/-- The fields of the newer document in which no field of the older one lives on. -/
def addedFields (origins : Origins) (old new : Document) : List Field :=
  let kept := (old.fields.filterMap (counterpart? origins new)).map Field.name
  new.fields.filter fun f => !kept.contains f.name

/-- The differences of two versions of a document: the older fields in order, then the added. -/
def ofDocuments (origins : Origins) (old new : Document) : List FieldDiff :=
  old.fields.flatMap (ofField origins new) ++ (addedFields origins old new).map added

end FieldDiff

/-! ## Comparing schemas -/

namespace Schema

/-- The entry for one document of the older schema, if it needs one. -/
def diffOf? (older newer : Schema) (old : Document) : Option DocumentDiff :=
  match newer.document? old.name with
  | none => some ⟨old.name, .removed⟩
  | some new =>
    let origins := newer.originsSince old.name older.currentVersion
    match FieldDiff.ofDocuments origins old new with
    | [] => none
    | fields => some ⟨old.name, .modified fields⟩

/-- The differences of two schemas, in the order of the older one's documents. -/
def diff (older newer : Schema) : List DocumentDiff :=
  older.documents.filterMap (diffOf? older newer)

end Schema

/-! ## Text -/

namespace FieldDiff

/-- A default in a message. -/
def defaultText (expression : Option String) : String :=
  expression.getD "(none)"

/-- What has changed, without the judgement. -/
def text : FieldDiff → String
  | added f =>
    "+ Field '" ++ f.name ++ "': " ++ f.type.spelling
      ++ (match f.default with
          | some expression => " = " ++ expression
          | none => "")
  | removed f => "- Field '" ++ f.name ++ "' removed"
  | renamed old new => "~ Field '" ++ old ++ "' renamed to '" ++ new ++ "'"
  | retyped name old new =>
    "~ Field '" ++ name ++ "' type changed: " ++ old.spelling ++ " -> " ++ new.spelling
  | redefaulted name old new =>
    "~ Field '" ++ name ++ "' default changed: " ++ defaultText old ++ " -> " ++ defaultText new

/-- One line of a report. -/
def line (d : FieldDiff) : String :=
  "  " ++ d.text ++ if d.isBreaking then " (BREAKING)" else " (OK)"

end FieldDiff

/-- The report on one document, a line for each difference. -/
def DocumentDiff.report (d : DocumentDiff) : String :=
  match d.outcome with
  | .removed => "  - Document '" ++ d.document ++ "' removed (BREAKING)"
  | .modified fields => "\n".intercalate (fields.map FieldDiff.line)

end SchemaLog
