import SchemaLog.Upcast.Record
import SchemaLog.Proofs.Exports
import SchemaLog.Proofs.Schedule
import Mathlib.Algebra.Ring.Nat

/-!
# Proofs/Remarks — where a remark ends

    a field "note<LF>go()"       delete next["note\ngo()"];  // remove field note
                                 go()

In the code of a generated line the name of a field is quoted, so that none of its characters is a
line break (`Quoted.breaks_quote`).  In the remark behind the code it is bare: the remark ends at
the first line break of the name, and what follows it stands on a line of its own.  Counted over a
function, there are as many lines more than its changes ask for as there are line breaks in the
names that are remarked on (`UpcastModule.length_lines_bodyText`).
-/

namespace SchemaLog

/-! ## Lines -/

namespace Text

/-- A line feed or a carriage return. -/
def isBreak (c : Char) : Bool :=
  c == '\n' || c == '\r'

/-- How many line breaks a text has. -/
def breaks (s : String) : Nat :=
  s.toList.countP isBreak

/-- The lines of a text, which is cut at every line break. -/
def lines (s : String) : List String :=
  (s.toList.splitOnP isBreak).map String.ofList

variable {s : String}

@[simp] theorem breaks_append (s t : String) : breaks (s ++ t) = breaks s + breaks t := by
  rw [breaks, String.toList_append, List.countP_append]
  rfl

/-- A line break is below U+0020. -/
theorem isBreak_of_le {c : Char} (h : 0x20 ≤ c.toNat) : isBreak c = false := by
  rw [isBreak, Bool.or_eq_false_iff, beq_eq_false_iff_ne, beq_eq_false_iff_ne]
  constructor <;> rintro rfl <;> exact absurd h (by decide)

theorem breaks_eq_zero_iff : breaks s = 0 ↔ ∀ c ∈ s.toList, isBreak c = false := by
  simp only [breaks, List.countP_eq_zero, Bool.not_eq_true]

theorem sum_breaks_eq_zero_iff {texts : List String} :
    (texts.map breaks).sum = 0 ↔ ∀ s ∈ texts, breaks s = 0 := by
  rw [List.sum_eq_zero_iff_forall_eq_nat, List.forall_mem_map]

/-- **Every line break begins a line.** -/
theorem length_lines (s : String) : (lines s).length = breaks s + 1 := by
  rw [lines, breaks, List.length_map]
  induction s.toList with
  | nil => rfl
  | cons c rest ih =>
    rw [List.splitOnP_cons_eq_if_modifyHead, List.countP_cons]
    split
    · rw [List.length_cons, ih]
    · rw [List.length_modifyHead, ih]

theorem lines_of_breaks_eq_zero (h : breaks s = 0) : lines s = [s] := by
  rw [lines, List.splitOnP_eq_singleton (breaks_eq_zero_iff.mp h), List.map_singleton,
    String.ofList_toList]

/-- **Texts that are joined line by line** keep the lines that they have. -/
theorem lines_intercalate :
    ∀ {texts : List String}, texts ≠ [] → lines ("\n".intercalate texts) = texts.flatMap lines
  | [], h => absurd rfl h
  | [s], _ => by
    rw [String.intercalate_singleton, List.flatMap_singleton]
  | s :: t :: rest, _ => by
    have ih := lines_intercalate (List.cons_ne_nil t rest)
    have hsplit : (s ++ "\n" ++ "\n".intercalate (t :: rest)).toList
        = s.toList ++ '\n' :: ("\n".intercalate (t :: rest)).toList := by
      rw [String.toList_append, String.toList_append, List.append_assoc]
      rfl
    rw [String.intercalate_cons_cons, List.flatMap_cons, ← ih, lines, hsplit,
      List.splitOnP_append_cons _ _ rfl, List.map_append]
    rfl

theorem length_lines_intercalate {texts : List String} (h : texts ≠ []) :
    (lines ("\n".intercalate texts)).length = texts.length + (texts.map breaks).sum := by
  rw [lines_intercalate h]
  clear h
  induction texts with
  | nil => rfl
  | cons s rest ih =>
    rw [List.flatMap_cons, List.length_append, length_lines, ih, List.map_cons, List.sum_cons,
      List.length_cons]
    omega

end Text

namespace Quoted

/-- What is neither a control character nor used for the quoting stands for itself. -/
theorem escape_of_le {c : Char} (h : 0x20 ≤ c.toNat) (hquote : c ≠ '"') (hbackslash : c ≠ '\\') :
    escape c = [c] := by
  have hne {d : Char} (hd : d.toNat < 0x20) : c ≠ d := fun heq =>
    Nat.not_lt.mpr h (heq ▸ hd)
  rw [escape, if_neg hquote, if_neg hbackslash, if_neg (hne (by decide)), if_neg (hne (by decide)),
    if_neg (hne (by decide)), if_neg (hne (by decide)), if_neg (hne (by decide)),
    if_neg (Nat.not_lt.mpr h)]

/-- **Only characters from U+0020 on are written** between quotation marks. -/
theorem le_of_mem_escape {c x : Char} (hx : x ∈ escape c) : 0x20 ≤ x.toNat := by
  have hall : (escape c).all (fun x => 0x20 ≤ x.toNat) = true := by
    rcases Nat.lt_or_ge c.toNat 0x20 with hlow | hhigh
    · have hcontrol : ∀ n < 0x20,
          (escape (Char.ofNat n)).all (fun x => 0x20 ≤ x.toNat) = true := by decide
      have hc := hcontrol c.toNat hlow
      rwa [Char.ofNat_toNat] at hc
    by_cases hquote : c = '"'
    · rw [hquote]
      rfl
    by_cases hbackslash : c = '\\'
    · rw [hbackslash]
      rfl
    rw [escape_of_le hhigh hquote hbackslash, List.all_cons, decide_eq_true hhigh]
    rfl
  exact of_decide_eq_true (List.all_eq_true.mp hall x hx)

/-- **A quoted text has no line break.** -/
@[simp] theorem breaks_quote (text : String) : Text.breaks (quote text) = 0 := by
  refine Text.breaks_eq_zero_iff.mpr fun x hx => Text.isBreak_of_le ?_
  rw [quote, String.toList_ofList, write, List.mem_cons, List.mem_append, List.mem_singleton] at hx
  rcases hx with rfl | hx | rfl
  · decide
  · obtain ⟨c, -, hx⟩ := List.mem_flatMap.mp hx
    exact le_of_mem_escape hx
  · decide

end Quoted

/-! ## The lines of a change -/

namespace Change

/-- The expressions that are passed on as they are written. -/
def expressions : Change → List String
  | .add f => f.default.toList
  | .retype _ _ conversion => [conversion]
  | .remove _ | .rename _ _ => []

/-- The names that the remark on a change holds. -/
def remarked : Change → List String
  | .add f => [f.name]
  | .remove name | .retype name _ _ => [name]
  | .rename old new => [old, new]

/-- How many lines a change asks for. -/
def lineCount : Change → Nat
  | .rename _ _ => 2
  | .add _ | .remove _ | .retype _ _ _ => 1

@[simp] theorem breaks_slot (name : String) : Text.breaks (slot name) = 0 := by
  rw [slot, Text.breaks_append, Text.breaks_append, Quoted.breaks_quote]
  rfl

/-- **The code of a change takes the line breaks of its expression**, and none of a name. -/
theorem breaks_code (c : Change) :
    (c.program.map fun s => Text.breaks s.code).sum = (c.expressions.map Text.breaks).sum := by
  rcases c with ⟨name, type, _ | expression⟩ | name | ⟨old, new⟩ | ⟨name, type, conversion⟩
  all_goals
    simp only [program, expressions, Statement.code, Option.toList, List.map_cons, List.map_nil,
      List.sum_cons, List.sum_nil, Text.breaks_append, breaks_slot]
  · exact Nat.zero_add _
  · rfl
  · rfl
  · exact Nat.zero_add _

/-- **The remark on a change takes the line breaks of the names in it.** -/
theorem breaks_remark (c : Change) :
    Text.breaks c.remark = (c.remarked.map Text.breaks).sum := by
  have htype : ∀ type : FieldType, Text.breaks type.typeScript = 0 := by
    intro type
    cases type <;> rfl
  have hrename : Text.breaks "rename field " = 0 := rfl
  rcases c with ⟨name, type, _ | expression⟩ | name | ⟨old, new⟩ | ⟨name, type, conversion⟩
  · change Text.breaks ("add field " ++ name ++ ":" ++ type.typeScript
      ++ " (required, no default; left unset)") = Text.breaks name
    simp only [Text.breaks_append, htype]
    exact Nat.zero_add _
  · change Text.breaks ("add field " ++ name ++ ":" ++ type.typeScript ++ "") = Text.breaks name
    simp only [Text.breaks_append, htype]
    exact Nat.zero_add _
  · exact (Text.breaks_append _ _).trans (Nat.zero_add _)
  · change Text.breaks ("rename field " ++ old ++ " -> " ++ new)
      = Text.breaks old + Text.breaks new
    simp only [Text.breaks_append, hrename, Nat.zero_add]
    rfl
  · change Text.breaks ("change type of " ++ name ++ " to " ++ type.typeScript) = Text.breaks name
    simp only [Text.breaks_append, htype]
    exact Nat.zero_add _

end Change

/-- A remark stands behind the code of the last statement. -/
theorem Statement.breaks_lines (remark : String) :
    ∀ program : List Statement, ((lines remark program).map Text.breaks).sum
      = (program.map fun s => Text.breaks s.code).sum + Text.breaks remark
  | [] => by
    rw [lines, List.map_singleton, List.sum_singleton, Text.breaks_append]
    rfl
  | [s] => by
    rw [lines, List.map_singleton, List.map_singleton, List.sum_singleton, List.sum_singleton,
      Text.breaks_append, Text.breaks_append, Text.breaks_append]
    change 0 + _ + 0 + _ = _
    rw [Nat.zero_add, Nat.add_zero]
  | s :: t :: rest => by
    have hindent : Text.breaks "  " = 0 := rfl
    calc ((lines remark (s :: t :: rest)).map Text.breaks).sum
      _ = Text.breaks ("  " ++ s.code) + ((lines remark (t :: rest)).map Text.breaks).sum := rfl
      _ = Text.breaks s.code + (((t :: rest).map fun s => Text.breaks s.code).sum
            + Text.breaks remark) := by
          rw [Text.breaks_append, hindent, Nat.zero_add, breaks_lines remark (t :: rest)]
      _ = ((s :: t :: rest).map fun s => Text.breaks s.code).sum + Text.breaks remark :=
          (Nat.add_assoc _ _ _).symm

namespace Change

/-- A change has the lines that it asks for, as long as no line break stands in one of them. -/
theorem length_statements (c : Change) : c.statements.length = c.lineCount := by
  rcases c with ⟨name, type, _ | expression⟩ | name | ⟨old, new⟩ | ⟨name, type, conversion⟩ <;> rfl

/-- **The line breaks in the lines of a change** are those of its expression and of bare names. -/
theorem breaks_statements (c : Change) : (c.statements.map Text.breaks).sum
    = (c.expressions.map Text.breaks).sum + (c.remarked.map Text.breaks).sum := by
  rw [statements_eq, Statement.breaks_lines, breaks_code, breaks_remark]

/-- Where the expression has no line break, each statement keeps to one line, whatever the names
are. -/
theorem breaks_code_eq_zero {c : Change} (h : ∀ x ∈ c.expressions, Text.breaks x = 0) :
    ∀ statement ∈ c.program, Text.breaks statement.code = 0 := by
  have hsum := c.breaks_code
  rw [Text.sum_breaks_eq_zero_iff.mpr h, List.sum_eq_zero_iff_forall_eq_nat] at hsum
  exact List.forall_mem_map.mp hsum

/-- Where the bare names have no line break either, a line and the remark on it end together. -/
theorem breaks_statements_eq_zero {c : Change} (h : ∀ x ∈ c.expressions, Text.breaks x = 0)
    (hremarked : ∀ field ∈ c.remarked, Text.breaks field = 0) :
    ∀ line ∈ c.statements, Text.breaks line = 0 := by
  have hsum := c.breaks_statements
  rw [Text.sum_breaks_eq_zero_iff.mpr h, Text.sum_breaks_eq_zero_iff.mpr hremarked] at hsum
  exact Text.sum_breaks_eq_zero_iff.mp hsum

end Change

/-! ## The lines of a function -/

namespace Stage

/-- How many lines the changes of a stage ask for. -/
def lineCount (stage : Stage) : Nat :=
  (stage.changes.map Change.lineCount).sum

/-- The names that the remarks of a stage hold. -/
def remarked (stage : Stage) : List String :=
  stage.changes.flatMap Change.remarked

end Stage

namespace UpcastModule

variable {m : UpcastModule} {t : Transition}

/-- What stands in a function between its first line and its last one. -/
def bodyText (t : Transition) : String :=
  "\n".intercalate (bodyLines t)

/-- A function up to what it does to the record. -/
def opening (m : UpcastModule) (t : Transition) : String :=
  textOf ["export function " ++ m.functionName t ++ "(record: " ++ m.recordType ++ "): "
      ++ m.recordType ++ " \x7b", "  const next: " ++ m.recordType ++ " = \x7b ...record \x7d;"]

/-- A function after what it has done to the record. -/
def closing : String :=
  "\n" ++ textOf ["  return next;", "\x7d"]

theorem textOf_eq_intercalate :
    ∀ {texts : List String}, texts ≠ [] → textOf texts = "\n".intercalate texts ++ "\n"
  | [], h => absurd rfl h
  | [s], _ => by
    rw [String.intercalate_singleton, textOf_cons]
    exact String.append_empty
  | s :: t :: rest, _ => by
    have ih := textOf_eq_intercalate (List.cons_ne_nil t rest)
    rw [textOf_cons, ih, String.intercalate_cons_cons, ← String.append_assoc]

theorem bodyLines_ne_nil (h : t.stage.changes ≠ []) : bodyLines t ≠ [] := by
  obtain ⟨c, rest, hchanges⟩ := List.exists_cons_of_ne_nil h
  have hne : c.statements ≠ [] := by
    rcases c with ⟨name, type, _ | expression⟩ | name | ⟨old, new⟩ | ⟨name, type, conversion⟩
      <;> exact List.cons_ne_nil _ _
  rw [bodyLines, hchanges, List.flatMap_cons]
  exact List.append_ne_nil_of_left_ne_nil hne _

/-- **The body of a function stands between its opening and its closing.** -/
theorem exists_text_eq (ht : t ∈ m.transitions) (h : t.stage.changes ≠ []) :
    ∃ front back, m.text = front ++ m.opening t ++ bodyText t ++ closing ++ back := by
  have hbody : textOf (bodyLines t) = bodyText t ++ "\n" :=
    textOf_eq_intercalate (bodyLines_ne_nil h)
  have hshift : ∀ a b c d : String, a ++ (b ++ c) ++ d = a ++ b ++ (c ++ d) := by
    intro a b c d
    simp only [String.append_assoc]
  have hfunction : textOf (m.functionText (m.functionName t, t.stage))
      = m.opening t ++ bodyText t ++ closing := by
    rw [functionText, ← bodyLines_eq, textOf_append, textOf_append, hbody]
    exact hshift _ _ _ _
  have hmem : (m.functionName t, t.stage) ∈ m.functions := List.mem_map_of_mem ht
  obtain ⟨front, back, htext⟩ := prints_functionText hmem
  refine ⟨textOf front, textOf back, ?_⟩
  rw [htext, ← textOf, textOf_append, textOf_append, hfunction, ← String.append_assoc,
    ← String.append_assoc]

/-- **A function has one line more for each line break** in an expression or in a name that is
remarked on. -/
theorem length_lines_bodyText (h : t.stage.changes ≠ []) :
    (Text.lines (bodyText t)).length = t.stage.lineCount
      + ((t.stage.changes.flatMap Change.expressions).map Text.breaks).sum
      + (t.stage.remarked.map Text.breaks).sum := by
  rw [bodyText, Text.length_lines_intercalate (bodyLines_ne_nil h), bodyLines, Stage.lineCount,
    Stage.remarked]
  induction t.stage.changes with
  | nil => rfl
  | cons c rest ih =>
    simp only [List.flatMap_cons, List.length_append, List.map_append, List.sum_append,
      List.map_cons, List.sum_cons, Change.length_statements, Change.breaks_statements]
    omega

/-- Where no line breaks are, the lines are the generated ones. -/
theorem lines_bodyText (h : t.stage.changes ≠ [])
    (hbreaks : ∀ line ∈ bodyLines t, Text.breaks line = 0) :
    Text.lines (bodyText t) = bodyLines t := by
  rw [bodyText, Text.lines_intercalate (bodyLines_ne_nil h)]
  have hsingle : ∀ line ∈ bodyLines t, Text.lines line = [line] := fun line hline =>
    Text.lines_of_breaks_eq_zero (hbreaks line hline)
  rw [List.flatMap_congr hsingle, List.flatMap_singleton']

end UpcastModule

/-! ## Replayed schemas -/

namespace Evolution

open UpcastModule Command

variable {policy : VersionPolicy} {cs : List Command} {s : Schema} {name : String}
  {m : UpcastModule} {t : Transition}

/-- **A function makes changes that the log holds**, and at least one. -/
theorem changes_of_mem_transitions (h : replay policy cs = .ok s)
    (hm : s.upcastModule name = .ok m) (ht : t ∈ m.transitions) :
    t.stage.changes ≠ [] ∧ ∀ c ∈ t.stage.changes, c ∈ changesTo name cs := by
  obtain ⟨e, he, rfl⟩ := replay_eq_ok_iff.mp h
  obtain ⟨declared, p, hp, rfl⟩ := History.exists_plan_of_upcastModule hm
  have hstage : t.stage ∈ Stage.group (e.resolve.changesAfter name declared) := by
    have hmem := List.mem_map_of_mem (f := Transition.stage) ht
    rwa [map_stage_ofPlan, History.eq_of_plan hp] at hmem
  refine ⟨Stage.ne_nil_of_mem_group hstage, fun c hc => ?_⟩
  have hafter : c ∈ changesTo name (cs.dropWhile fun c => c.version ≤ declared) := by
    rw [← History.map_snd_changesAfter (steps_of_applyAll he), ← Stage.flatMap_changes_group]
    exact List.mem_flatMap.mpr ⟨t.stage, hstage, hc⟩
  exact ((List.dropWhile_sublist _).filterMap _).mem hafter

/-- **A function has the lines that its changes ask for exactly if no name that is remarked on has a
line break**, in a module whose expressions have none.  The code of a change has none either,
whatever the names are; it is the remarks that a name reaches out of. -/
theorem body_lines_iff (h : replay policy cs = .ok s) {d : Document}
    (hd : s.document? name = some d)
    (hexpressions : ∀ c ∈ changesTo name cs, ∀ x ∈ c.expressions, Text.breaks x = 0) :
    ∃ m, s.upcastModule name = .ok m ∧ ∀ t ∈ m.transitions,
      (∃ front back, m.text = front ++ m.opening t ++ bodyText t ++ closing ++ back)
        ∧ (∀ c ∈ t.stage.changes, ∀ statement ∈ c.program, Text.breaks statement.code = 0)
        ∧ (Text.lines (bodyText t)).length
          = t.stage.lineCount + (t.stage.remarked.map Text.breaks).sum
        ∧ ((Text.lines (bodyText t)).length = t.stage.lineCount
          ↔ ∀ field ∈ t.stage.remarked, Text.breaks field = 0)
        ∧ ((∀ field ∈ t.stage.remarked, Text.breaks field = 0) →
          Text.lines (bodyText t) = bodyLines t) := by
  obtain ⟨m, hm⟩ := exists_upcastModule_of_replay h hd
  refine ⟨m, hm, fun t ht => ?_⟩
  obtain ⟨hne, hchanges⟩ := changes_of_mem_transitions h hm ht
  have hnone : ∀ c ∈ t.stage.changes, ∀ x ∈ c.expressions, Text.breaks x = 0 := fun c hc =>
    hexpressions c (hchanges c hc)
  have hsum : ((t.stage.changes.flatMap Change.expressions).map Text.breaks).sum = 0 := by
    refine Text.sum_breaks_eq_zero_iff.mpr fun x hx => ?_
    obtain ⟨c, hc, hx⟩ := List.mem_flatMap.mp hx
    exact hnone c hc x hx
  have hcount : (Text.lines (bodyText t)).length
      = t.stage.lineCount + (t.stage.remarked.map Text.breaks).sum := by
    rw [length_lines_bodyText hne, hsum, Nat.add_zero]
  refine ⟨exists_text_eq ht hne, fun c hc => Change.breaks_code_eq_zero (hnone c hc), hcount, ?_,
    fun hremarked => lines_bodyText hne fun line hline => ?_⟩
  · rw [hcount, Nat.add_eq_left, Text.sum_breaks_eq_zero_iff]
  · obtain ⟨c, hc, hline⟩ := List.mem_flatMap.mp hline
    have hbare : ∀ field ∈ c.remarked, Text.breaks field = 0 := fun field hfield =>
      hremarked field (List.mem_flatMap.mpr ⟨c, hc, hfield⟩)
    exact Change.breaks_statements_eq_zero (hnone c hc) hbare line hline

/-- Field names that end a text or a comment elsewhere, or look like an escaped line break.  The one
line break is in a default of the declaration, of which a module holds nothing. -/
def oddNames : List Command :=
  [⟨"User", 1, .declare [⟨"*/ a\"b", .string, some "[\n]"⟩, ⟨"// c", .number, none⟩]⟩,
    ⟨"User", 2, .change (.rename "*/ a\"b" "a\\nb")⟩,
    ⟨"User", 2, .change (.retype "// c" .string "String(value)")⟩,
    ⟨"User", 3, .change (.add ⟨"\tnext", .object, none⟩)⟩,
    ⟨"User", 3, .change (.remove "a\\nb")⟩]

theorem body_lines_iff_oddNames :
    ∃ s d m, replay .nonDecreasing oddNames = .ok s ∧ s.document? "User" = some d
      ∧ (∀ c ∈ changesTo "User" oddNames, ∀ x ∈ c.expressions, Text.breaks x = 0)
      ∧ s.upcastModule "User" = .ok m ∧ m.transitions.map (fun t => t.stage.lineCount) = [3, 2]
      ∧ ∀ t ∈ m.transitions, (Text.lines (bodyText t)).length = t.stage.lineCount
        ∧ Text.lines (bodyText t) = bodyLines t := by
  have hok : replay .nonDecreasing oddNames = .ok _ := rfl
  have hexpressions : ∀ c ∈ changesTo "User" oddNames, ∀ x ∈ c.expressions,
      Text.breaks x = 0 := by decide
  obtain ⟨m, hm, hlines⟩ := body_lines_iff hok rfl hexpressions
  obtain rfl := Except.ok.inj hm
  refine ⟨_, _, _, hok, rfl, hexpressions, hm, rfl, fun t ht => ?_⟩
  have hremarked : ∀ field ∈ t.stage.remarked, Text.breaks field = 0 := by
    revert t
    decide
  obtain ⟨-, -, -, hcount, hequal⟩ := hlines t ht
  exact ⟨hcount.mpr hremarked, hequal hremarked⟩

/-- A field is removed whose name goes on after a line break. -/
def smuggling : List Command :=
  [⟨"User", 1, .declare [⟨"note\nnext.admin = true;", .string, none⟩]⟩,
    ⟨"User", 2, .change (.remove "note\nnext.admin = true;")⟩]

/-- The remark ends where the name has its line break, and the rest of the name is a line of code,
though no expression is passed on at all. -/
theorem name_becomes_code :
    ∃ s d m t, replay .nonDecreasing smuggling = .ok s ∧ s.document? "User" = some d
      ∧ (∀ c ∈ changesTo "User" smuggling, c.expressions = [])
      ∧ s.upcastModule "User" = .ok m ∧ m.transitions = [t] ∧ t.stage.lineCount = 1
      ∧ Text.lines (bodyText t)
        = ["  delete next[\"note\\nnext.admin = true;\"];  // remove field note",
          "next.admin = true;"] := by
  refine ⟨_, _, _, _, rfl, rfl, by decide, rfl, rfl, rfl, ?_⟩
  decide +kernel

end Evolution

end SchemaLog
