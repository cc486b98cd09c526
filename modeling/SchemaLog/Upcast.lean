import SchemaLog.History
import SchemaLog.Identifier
import SchemaLog.Json.Quoted

/-!
# Upcast — generated modules that bring stored records up to date

For each document a TypeScript module is generated from its plan at the version of its declaration.
Every stage becomes an exported function from the version before it to its own, and an entry point
runs those whose version is above the one a record was stored at.  `UpcastModule` holds what a
module consists of, `UpcastModule.lines` its text.
-/

namespace SchemaLog

/-- The TypeScript type of a field. -/
def FieldType.typeScript : FieldType → String
  | string => "string"
  | number => "number"
  | boolean => "boolean"
  | stringArray => "string[]"
  | numberArray => "number[]"
  | object => "Record<string, unknown>"

/-- A stage together with the version that precedes it. -/
structure Transition where
  source : Version
  stage : Stage
  deriving DecidableEq

/-- Links stages into a chain that starts at a version. -/
def Transition.chain : Version → List Stage → List Transition
  | _, [] => []
  | source, s :: rest => ⟨source, s⟩ :: chain s.version rest

/-- The module for one document. -/
structure UpcastModule where
  document : String
  currentVersion : Version
  transitions : List Transition
  deriving DecidableEq

/-! ## Statements -/

namespace Change

/-- The place of a field in the record that is being changed. -/
def slot (name : String) : String :=
  "next[" ++ Quoted.quote name ++ "]"

/-- The lines that make a change to a record.  A field that is added without a default stays unset,
and a conversion is written as it is. -/
def statements : Change → List String
  | .add f =>
    match f.default with
    | some expression =>
      ["  " ++ slot f.name ++ " = " ++ expression ++ ";  // add field " ++ f.name ++ ":"
        ++ f.type.typeScript]
    | none =>
      ["  // add field " ++ f.name ++ ":" ++ f.type.typeScript
        ++ " (required, no default; left unset)"]
  | .remove name => ["  delete " ++ slot name ++ ";  // remove field " ++ name]
  | .rename old new =>
    ["  " ++ slot new ++ " = " ++ slot old ++ ";",
      "  delete " ++ slot old ++ ";  // rename field " ++ old ++ " -> " ++ new]
  | .retype name type conversion =>
    ["  " ++ slot name ++ " = ((value: any) => (" ++ conversion ++ "))(" ++ slot name
      ++ ");  // change type of " ++ name ++ " to " ++ type.typeScript]

end Change

/-! ## Names -/

namespace UpcastModule

/-- The name that the module's identifiers are made of. -/
def typeName (m : UpcastModule) : String :=
  Identifier.pascal m.document

/-- The exported type of the document's records. -/
def recordType (m : UpcastModule) : String :=
  m.typeName ++ "Record"

/-- The exported function of a transition. -/
def functionName (m : UpcastModule) (t : Transition) : String :=
  "migrate" ++ m.typeName ++ "_v" ++ t.source.text ++ "_to_v" ++ t.stage.version.text

/-- The exported entry point. -/
def entryPoint (m : UpcastModule) : String :=
  "migrate" ++ m.typeName ++ "Record"

/-- The exported constant that holds the current version. -/
def versionConstant (m : UpcastModule) : String :=
  Identifier.screaming m.typeName ++ "_SCHEMA_VERSION"

/-- The list of the module's functions by version; it is not exported. -/
def registryName (m : UpcastModule) : String :=
  Identifier.camel m.typeName ++ "Migrations"

/-- Every identifier that the module exports. -/
def exports (m : UpcastModule) : List String :=
  m.recordType :: m.transitions.map m.functionName ++ [m.versionConstant, m.entryPoint]

/-! ## Text -/

/-- The comment and the record type at the top. -/
def headerLines (m : UpcastModule) : List String :=
  ["/**",
    " * Auto-generated record migrations for " ++ m.document ++ " document.",
    " * DO NOT EDIT - regenerate from the schema history",
    " */",
    "",
    "export type " ++ m.recordType ++ " = Record<string, unknown>;",
    ""]

/-- The statements of a transition. -/
def bodyLines (t : Transition) : List String :=
  t.stage.changes.flatMap Change.statements

/-- The function of a transition. -/
def functionLines (m : UpcastModule) (t : Transition) : List String :=
  ["// Version " ++ t.source.text ++ " -> Version " ++ t.stage.version.text ++ " for "
      ++ m.document,
    "export function " ++ m.functionName t ++ "(record: " ++ m.recordType ++ "): " ++ m.recordType
      ++ " \x7b",
    "  const next: " ++ m.recordType ++ " = \x7b ...record \x7d;"]
    ++ bodyLines t
    ++ ["  return next;", "\x7d", ""]

/-- A row of the registry. -/
def registryLine (m : UpcastModule) (t : Transition) : String :=
  "  \x7b version: " ++ t.stage.version.text ++ ", migrate: " ++ m.functionName t ++ " \x7d,"

/-- Lines that must not be missing: where there are none, one empty line stands in. -/
def orBlank : List String → List String
  | [] => [""]
  | lines => lines

/-- The constant, the registry and the entry point. -/
def entryLines (m : UpcastModule) : List String :=
  ["export const " ++ m.versionConstant ++ " = " ++ m.currentVersion.text ++ ";",
    "",
    "const " ++ m.registryName ++ ": Array<\x7b version: number; migrate: (record: " ++ m.recordType
      ++ ") => " ++ m.recordType ++ " \x7d> = ["]
    ++ orBlank (m.transitions.map m.registryLine)
    ++ ["];",
      "",
      "/**",
      " * Bring a stored " ++ m.document ++ " record up to the current schema version.",
      " *",
      " * @param record - The raw record from storage",
      " * @param storedVersion - The schema version the record was written with",
      " * @returns The record in the current schema shape",
      " */",
      "export function " ++ m.entryPoint ++ "(record: " ++ m.recordType
        ++ ", storedVersion: number): " ++ m.recordType ++ " \x7b",
      "  let current = record;",
      "  for (const step of " ++ m.registryName ++ ") \x7b",
      "    if (step.version > storedVersion) \x7b",
      "      current = step.migrate(current);",
      "    \x7d",
      "  \x7d",
      "  return current;",
      "\x7d"]

/-- All lines of the module. -/
def lines (m : UpcastModule) : List String :=
  m.headerLines ++ m.transitions.flatMap m.functionLines ++ m.entryLines

/-- A text of which every line is ended by a line feed. -/
def textOf (lines : List String) : String :=
  String.join (lines.map fun line => line ++ "\n")

/-- The text of the module. -/
def text (m : UpcastModule) : String :=
  textOf m.lines

end UpcastModule

/-- The module of a plan. -/
def UpcastModule.ofPlan (p : Plan) : UpcastModule :=
  ⟨p.document, p.currentVersion, Transition.chain p.storedVersion p.stages⟩

/-- The module for a document, from its plan at the version at which its declaration took effect. -/
def History.upcastModule (h : History) (document : String) : Except HistoryFault UpcastModule :=
  match h.declaredAt? document with
  | none => .error (.unknownDocument document)
  | some declared => do
    let p ← h.plan document declared
    return .ofPlan p

/-! ## Small laws -/

theorem UpcastModule.textOf_cons (line : String) (rest : List String) :
    textOf (line :: rest) = line ++ "\n" ++ textOf rest :=
  String.join_cons

theorem UpcastModule.textOf_append (front back : List String) :
    textOf (front ++ back) = textOf front ++ textOf back := by
  rw [textOf, List.map_append, String.join_append]
  rfl

/-- A chain has the stages it was made of. -/
@[simp] theorem Transition.map_stage_chain (source : Version) (stages : List Stage) :
    (Transition.chain source stages).map Transition.stage = stages := by
  induction stages generalizing source with
  | nil => rfl
  | cons s rest ih => simp [Transition.chain, ih]

end SchemaLog
