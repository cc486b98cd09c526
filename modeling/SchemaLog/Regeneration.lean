import SchemaLog.Artifact
import SchemaLog.Diff
import SchemaLog.Disk
import SchemaLog.Script
import SchemaLog.Settings
import SchemaLog.Upcast.Collection

/-!
# Regeneration — from a script on disk to the generated files

A run reads the script, replays it, compares the result with the artifact of the last run, writes
the generated modules, and writes the new artifact last.  Everything that can go wrong without a
write is found out before the first one: `Draft` holds what a run has to write, and making it leaves
the disk alone.
-/

namespace SchemaLog

/-- Why a run, or a part of it, has failed. -/
inductive Failure
  /-- A file or directory cannot be read, made or written. -/
  | access (path : Path)
  | script (fault : ScriptFault)
  | artifact (path : Path)
  | hashMismatch (path : Path) (recorded computed : String)
  | upcast (fault : UpcastFault)
  | replay (refusal : Refusal)
  deriving DecidableEq

/-! ## Files -/

/-- Reads a script from a file. -/
def Script.load (d : Disk) (p : Path) : Except Failure Script :=
  match d.readText p with
  | .error _ => .error (.access p)
  | .ok text => (Script.parse text).mapError .script

namespace Artifact

/-- Reads an artifact from a file and checks its hash; where nothing is, there is none. -/
def load (d : Disk) (p : Path) : Except Failure (Option Artifact) :=
  if d.exists? p then
    match d.readText p with
    | .error _ => .error (.access p)
    | .ok text =>
      match parse? text with
      | none => .error (.artifact p)
      | some a =>
        if a.isIntact then .ok (some a) else .error (.hashMismatch p a.hash a.schema.hash)
  else .ok none

end Artifact

/-- A change to a disk, where a fault is a failure at the path. -/
def Failure.at (p : Path) : Disk × Option DiskFault → Disk × Option Failure
  | (d, fault) => (d, fault.map fun _ => .access p)

namespace Disk

/-- Makes the directory of a file; the failure is at the directory. -/
def prepare (d : Disk) (p : Path) : Disk × Option Failure :=
  match p.parent? with
  | none => (d, none)
  | some parent => Failure.at parent (d.createDirectories parent)

/-- Writes a text to a file, in a directory that is made if it is not there. -/
def save (d : Disk) (p : Path) (text : String) : Disk × Option Failure :=
  match d.prepare p with
  | (d, some failure) => (d, some failure)
  | (d, none) => Failure.at p (d.writeFile p (.text text))

/-- Writes files to a directory, one after the other up to the first failure. -/
def saveAll (d : Disk) (directory : Path) : List GeneratedFile → Disk × Option Failure
  | [] => (d, none)
  | file :: rest =>
    match d.save (directory.join file.name) file.text with
    | (d, some failure) => (d, some failure)
    | (d, none) => d.saveAll directory rest

/-- Makes a directory and writes files to it. -/
def saveBelow (d : Disk) (directory : Path) (files : List GeneratedFile) : Disk × Option Failure :=
  match Failure.at directory (d.createDirectories directory) with
  | (d, some failure) => (d, some failure)
  | (d, none) => d.saveAll directory files

end Disk

/-! ## A run -/

/-- What a run has to write, and what has changed since the last one. -/
structure Draft where
  artifact : Artifact
  changes : List DocumentDiff
  files : List GeneratedFile
  deriving DecidableEq

/-- What is said about a run that has succeeded. -/
structure Report where
  schema : Schema
  changes : List DocumentDiff
  hash : String
  filesWritten : Nat
  deriving DecidableEq

/-- Whether one of the changes is breaking. -/
def Report.isBreaking (r : Report) : Bool :=
  r.changes.any DocumentDiff.isBreaking

/-- The version of this engine, as it is noted in artifacts. -/
def engineVersion : String := "0.1.0"

namespace Settings

/-- The path of the artifact. -/
def historyPath (settings : Settings) : Path := ⟨settings.historyFile⟩

/-- The directory of the generated files. -/
def outputPath (settings : Settings) : Path := ⟨settings.outputDirectory⟩

/-- Finds out what a run has to write.  The time is noted in the artifact. -/
def draft (settings : Settings) (time : String) (d : Disk) (script : Path) :
    Except Failure Draft := do
  let commands ← Script.load d script
  let schema ← (replay settings.policy commands.commands).mapError .replay
  let previous ← Artifact.load d settings.historyPath
  let changes :=
    match previous with
    | none => []
    | some a => a.schema.diff schema
  let files ← schema.upcastFiles.mapError .upcast
  return ⟨.ofSchema schema engineVersion time, changes, files⟩

/-- Writes what a run has to write, the artifact last. -/
def write (settings : Settings) (d : Disk) (draft : Draft) : Disk × Option Failure :=
  match d.saveBelow settings.outputPath draft.files with
  | (d, some failure) => (d, some failure)
  | (d, none) => d.save settings.historyPath draft.artifact.text

/-- Makes a run at a given time. -/
def regenerate (settings : Settings) (time : String) (d : Disk) (script : Path) :
    Disk × Except Failure Report :=
  match settings.draft time d script with
  | .error failure => (d, .error failure)
  | .ok draft =>
    match settings.write d draft with
    | (d, some failure) => (d, .error failure)
    | (d, none) =>
      (d, .ok ⟨draft.artifact.schema, draft.changes, draft.artifact.hash, draft.files.length⟩)

end Settings

end SchemaLog
