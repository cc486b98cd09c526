import SchemaLog.Upcast.Record

/-!
# Upcast/Entry — what the entry point of a module does

    for (const step of userMigrations) {            forEach "userMigrations"
      if (step.version > storedVersion) {             whenAbove
        current = step.migrate(current);                migrate
      }
    }

An entry point goes through the registry, the rows of which hold a version and the name of a
function each.  Its `loop` is what the generated module writes, line by line, between the
declaration of `current` and its return (`entryLines_eq`).  The names in it stand for what is
declared at the top of the module (`scope`): the registry, and a function for each stage, which is
written as the programs of the stage's changes (`prints_functionText`).  What a function makes of a
record is left open here.
-/

namespace SchemaLog

universe u

/-- A row of a registry: a version, and the name of a function. -/
abbrev Row := Version × String

/-- An instruction of an entry point, which brings the record `current` further. -/
inductive Instruction
  /-- The function of the row that is looked at is applied. -/
  | migrate
  /-- The inner instruction is followed if the version of the row is above the stored one. -/
  | whenAbove (inner : Instruction)
  /-- The inner instruction is followed for each row of a list, in order. -/
  | forEach (list : String) (inner : Instruction)
  deriving DecidableEq

/-- What names stand for: lists of rows, and functions on records. -/
structure Scope (ρ : Type u) where
  rows? : String → Option (List Row)
  function? : String → Option (ρ → ρ)

namespace Instruction

/-- The lines of an instruction. -/
def lines (indent : String) : Instruction → List String
  | migrate => [indent ++ "current = step.migrate(current);"]
  | whenAbove inner =>
    [indent ++ "if (step.version > storedVersion) \x7b"] ++ inner.lines (indent ++ "  ")
      ++ [indent ++ "\x7d"]
  | forEach list inner =>
    [indent ++ "for (const step of " ++ list ++ ") \x7b"] ++ inner.lines (indent ++ "  ")
      ++ [indent ++ "\x7d"]

variable {ρ : Type u}

/-- The record after an instruction, which may be given a row to look at.  There is none where a
name stands for nothing, or where no row is looked at. -/
def run (scope : Scope ρ) (stored : Version) : Instruction → Option Row → ρ → Option ρ
  | migrate, step?, current =>
    step?.bind fun step => (scope.function? step.2).map fun function => function current
  | whenAbove inner, step?, current =>
    step?.bind fun step =>
      if stored < step.1 then inner.run scope stored step? current else some current
  | forEach list inner, _, current =>
    (scope.rows? list).bind fun rows =>
      rows.foldlM (fun current step => inner.run scope stored (some step) current) current

end Instruction

namespace UpcastModule

variable {ρ : Type u}

/-! ## The top of a module -/

/-- The rows of the registry. -/
def registry (m : UpcastModule) : List Row :=
  m.transitions.map fun t => (t.stage.version, m.functionName t)

/-- The functions by name, each with the stage whose changes it makes. -/
def functions (m : UpcastModule) : List (String × Stage) :=
  m.transitions.map fun t => (m.functionName t, t.stage)

/-- All names at the top of a module; the one of the registry is not exported. -/
def names (m : UpcastModule) : List String :=
  m.registryName :: m.exports

/-- What the names at the top of a module stand for, if the function of a stage is a given one. -/
def scope (m : UpcastModule) (call : Stage → ρ → ρ) : Scope ρ where
  rows? name := if name = m.registryName then some m.registry else none
  function? name := (m.functions.lookup name).map call

/-- The loop of the entry point. -/
def loop (m : UpcastModule) : Instruction :=
  .forEach m.registryName (.whenAbove .migrate)

/-- What the entry point makes of a record that was stored at a version. -/
def upcast (m : UpcastModule) (call : Stage → ρ → ρ) (stored : Version) (record : ρ) : Option ρ :=
  m.loop.run (m.scope call) stored none record

/-! ## Text -/

/-- A function as it is written: its head, the programs of its stage's changes and its end. -/
def functionText (m : UpcastModule) (f : String × Stage) : List String :=
  ["export function " ++ f.1 ++ "(record: " ++ m.recordType ++ "): " ++ m.recordType ++ " \x7b",
    "  const next: " ++ m.recordType ++ " = \x7b ...record \x7d;"]
    ++ (f.2.changes.flatMap fun c => Statement.lines c.remark c.program)
    ++ ["  return next;", "\x7d"]

/-- The statements of a transition are the programs of its stage's changes. -/
theorem bodyLines_eq (t : Transition) :
    bodyLines t = t.stage.changes.flatMap fun c => Statement.lines c.remark c.program := by
  rw [bodyLines, funext Change.statements_eq]

/-- The lines stand in the text of the module, one below the other and each ended by a line feed,
with nothing but whole lines around them. -/
def Prints (m : UpcastModule) (lines : List String) : Prop :=
  ∃ front back, m.text = String.join ((front ++ lines ++ back).map fun line => line ++ "\n")

variable {m : UpcastModule}

theorem prints_of_infix {lines : List String} (h : lines <:+: m.lines) : m.Prints lines := by
  obtain ⟨front, back, hsplit⟩ := h
  refine ⟨front, back, ?_⟩
  rw [hsplit, text, textOf]

/-- **The functions stand in the text of the module.** -/
theorem prints_functionText {f : String × Stage} (hf : f ∈ m.functions) :
    m.Prints (m.functionText f) := by
  obtain ⟨t, ht, rfl⟩ := List.mem_map.mp hf
  have hfunction : m.functionText (m.functionName t, t.stage) <:+: m.functionLines t := by
    refine ⟨["// Version " ++ t.source.text ++ " -> Version " ++ t.stage.version.text ++ " for "
      ++ m.document], [""], ?_⟩
    simp [functionText, functionLines, bodyLines_eq]
  have hall : m.functionLines t <:+: m.transitions.flatMap m.functionLines := by
    obtain ⟨front, back, hsplit⟩ := List.append_of_mem ht
    rw [hsplit, List.flatMap_append, List.flatMap_cons, ← List.append_assoc]
    exact List.infix_append _ _ _
  refine prints_of_infix ((hfunction.trans hall).trans ?_)
  rw [UpcastModule.lines]
  exact List.infix_append _ _ _

end UpcastModule

end SchemaLog
