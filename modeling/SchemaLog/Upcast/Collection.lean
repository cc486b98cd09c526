import SchemaLog.Upcast

/-!
# Upcast/Collection — the modules of all documents, and their index

A module claims its file name and its type name, and both kinds of name are kept in one list: a
document whose claim is taken by another collides with it, and nothing is generated.
-/

namespace SchemaLog

/-- A file to be written. -/
structure GeneratedFile where
  name : String
  text : String
  deriving DecidableEq

/-- Why nothing is generated. -/
inductive UpcastFault
  /-- The second document claims, for this file, what belongs to the first. -/
  | collision (file first second : String)
  | history (fault : HistoryFault)
  deriving DecidableEq

namespace UpcastModule

/-- The module's name in the index; the file name adds an ending to it. -/
def moduleName (document : String) : String :=
  Identifier.snake document ++ ".migrations"

/-- The file of a document's module. -/
def fileName (document : String) : String :=
  moduleName document ++ ".ts"

/-- The names claimed so far, each with the document that claims it. -/
abbrev Claims := List (String × String)

/-- Claims one name for a document. -/
def claimName (claims : Claims) (document name : String) : Except UpcastFault Claims :=
  match claims.lookup name with
  | some first => .error (.collision (fileName document) first document)
  | none => .ok ((name, document) :: claims)

/-- Claims a document's file name and then its type name. -/
def claim (claims : Claims) (document : String) : Except UpcastFault Claims := do
  let claims ← claimName claims document (moduleName document)
  claimName claims document (Identifier.pascal document)

/-- The files of the modules for documents, in order. -/
def moduleFiles (h : History) (claims : Claims) :
    List Document → Except UpcastFault (List GeneratedFile)
  | [] => .ok []
  | d :: rest => do
    let claims ← claim claims d.name
    let m ← (h.upcastModule d.name).mapError .history
    let files ← moduleFiles h claims rest
    return ⟨fileName d.name, m.text⟩ :: files

/-- The line of the index that exports a document's module. -/
def exportLine (document : String) : String :=
  "export * from './" ++ moduleName document ++ "';"

/-- The index of the modules for documents. -/
def indexFile (documents : List String) : GeneratedFile :=
  ⟨"index.ts",
    textOf
      (["/**",
        " * Auto-generated record migrations index.",
        " * DO NOT EDIT - regenerate from the schema history",
        " */",
        ""] ++ orBlank (documents.map exportLine))⟩

end UpcastModule

/-- The files for all documents of a schema, in order, and the index. -/
def Schema.upcastFiles (s : Schema) : Except UpcastFault (List GeneratedFile) := do
  let files ← UpcastModule.moduleFiles s.toHistory [] s.documents
  return files ++ [UpcastModule.indexFile (s.documents.map Document.name)]

end SchemaLog
