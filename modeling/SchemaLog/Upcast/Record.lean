import SchemaLog.Upcast
import Std.Data.ExtTreeMap

/-!
# Upcast/Record — what the generated statements do to a record

    rename a to b:    next["b"] = next["a"];    delete next["a"];

A record is a finite map from field names to values.  A change is made by its `program`, which the
generated module writes line by line with a remark behind (`Change.statements_eq`).  The expressions
in it are passed on as they are written, so what they mean is left open (`Meaning`).
-/

namespace SchemaLog

universe u

/-- A statement on the record that is being changed. -/
inductive Statement
  /-- The value of an expression is stored. -/
  | assign (name expression : String)
  /-- What is stored under the old name is stored under the new one as well. -/
  | copy (new old : String)
  /-- What a conversion makes of the stored value is stored in its place. -/
  | convert (name conversion : String)
  /-- Nothing is stored any more. -/
  | delete (name : String)
  deriving DecidableEq

/-! ## Text -/

namespace Statement

/-- The code of a statement. -/
def code : Statement → String
  | assign name expression => Change.slot name ++ " = " ++ expression ++ ";"
  | copy new old => Change.slot new ++ " = " ++ Change.slot old ++ ";"
  | convert name conversion =>
    Change.slot name ++ " = ((value: any) => (" ++ conversion ++ "))(" ++ Change.slot name ++ ");"
  | delete name => "delete " ++ Change.slot name ++ ";"

/-- The lines of statements, with a remark behind the last one; without any statement the remark
stands alone. -/
def lines (remark : String) : List Statement → List String
  | [] => ["  // " ++ remark]
  | [s] => ["  " ++ s.code ++ "  // " ++ remark]
  | s :: rest => ("  " ++ s.code) :: lines remark rest

end Statement

namespace Change

/-- The statements that make a change to a record. -/
def program : Change → List Statement
  | .add f =>
    match f.default with
    | some expression => [.assign f.name expression]
    | none => []
  | .remove name => [.delete name]
  | .rename old new => [.copy new old, .delete old]
  | .retype name _ conversion => [.convert name conversion]

/-- The remark on a change. -/
def remark : Change → String
  | .add f =>
    "add field " ++ f.name ++ ":" ++ f.type.typeScript
      ++ (match f.default with
          | some _ => ""
          | none => " (required, no default; left unset)")
  | .remove name => "remove field " ++ name
  | .rename old new => "rename field " ++ old ++ " -> " ++ new
  | .retype name type _ => "change type of " ++ name ++ " to " ++ type.typeScript

/-- **The generated lines are those of the program.** -/
theorem statements_eq (c : Change) : c.statements = Statement.lines c.remark c.program := by
  -- In each case the fixed parts of the lines are cut where code and remark meet.
  rcases c with ⟨name, type, _ | expression⟩ | name | ⟨old, new⟩ | ⟨name, type, conversion⟩
  · change ["  // " ++ "add field " ++ name ++ ":" ++ type.typeScript
      ++ " (required, no default; left unset)"] = ["  // " ++ ("add field " ++ name ++ ":"
        ++ type.typeScript ++ " (required, no default; left unset)")]
    simp only [String.append_assoc]
  · change ["  " ++ slot name ++ " = " ++ expression ++ (";" ++ "  // " ++ "add field ") ++ name
      ++ ":" ++ type.typeScript] = ["  " ++ (slot name ++ " = " ++ expression ++ ";") ++ "  // "
        ++ ("add field " ++ name ++ ":" ++ type.typeScript ++ "")]
    simp only [String.append_assoc, String.append_empty]
  · change ["  " ++ "delete " ++ slot name ++ (";" ++ "  // " ++ "remove field ") ++ name]
      = ["  " ++ ("delete " ++ slot name ++ ";") ++ "  // " ++ ("remove field " ++ name)]
    simp only [String.append_assoc]
  · change ["  " ++ slot new ++ " = " ++ slot old ++ ";",
        "  " ++ "delete " ++ slot old ++ (";" ++ "  // " ++ "rename field ") ++ old ++ " -> "
          ++ new]
      = ["  " ++ (slot new ++ " = " ++ slot old ++ ";"),
        "  " ++ ("delete " ++ slot old ++ ";") ++ "  // "
          ++ ("rename field " ++ old ++ " -> " ++ new)]
    simp only [String.append_assoc]
  · change ["  " ++ slot name ++ " = ((value: any) => (" ++ conversion ++ "))(" ++ slot name
        ++ (");" ++ "  // " ++ "change type of ") ++ name ++ " to " ++ type.typeScript]
      = ["  " ++ (slot name ++ " = ((value: any) => (" ++ conversion ++ "))(" ++ slot name ++ ");")
        ++ "  // " ++ ("change type of " ++ name ++ " to " ++ type.typeScript)]
    simp only [String.append_assoc]

end Change

/-! ## Records -/

/-- Values by field name. -/
abbrev Record (α : Type u) := Std.ExtTreeMap String α

/-- What the expressions of a module mean. -/
structure Meaning (α : Type u) where
  /-- What is read where nothing is stored: nothing, or a value that stands for it. -/
  unset : Option α
  /-- The value of the expression of a default. -/
  value : String → α
  /-- The value that a conversion makes of a value. -/
  convert : String → α → α

variable {α : Type u}

/-- The record with a value stored under a name, if there is one to be stored. -/
def Record.store (r : Record α) (name : String) (x? : Option α) : Record α :=
  x?.elim r (r.insert name)

/-- The record after a statement. -/
def Statement.run (μ : Meaning α) (r : Record α) : Statement → Record α
  | assign name expression => r.insert name (μ.value expression)
  | copy new old => r.store new (r[old]?.or μ.unset)
  | convert name conversion => r.store name ((r[name]?.or μ.unset).map (μ.convert conversion))
  | delete name => r.erase name

namespace Change

/-- The record after a change. -/
def upcast (μ : Meaning α) (r : Record α) (c : Change) : Record α :=
  c.program.foldl (Statement.run μ) r

/-- The record after changes that are made one after the other. -/
def upcastAll (μ : Meaning α) (changes : List Change) (r : Record α) : Record α :=
  changes.foldl (upcast μ) r

end Change

end SchemaLog
