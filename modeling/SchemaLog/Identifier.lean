import SchemaLog.Text.Case

/-!
# Identifier — snake, Pascal and camel case of a name

The names of generated files and of what they export are made from document names.  A word starts at
an upper-case letter for `snake`, and after an underscore for `pascal`; neither changes anything
else, so that a name may hold any characters.
-/

namespace SchemaLog

namespace Identifier

/-- A letter inside a name: an upper-case one becomes lower case behind an underscore. -/
def snakeLetter (c : Char) : List Char :=
  if Text.isUpper c then '_' :: Text.lower c else [c]

/-- Snake case: before the first letter there is no underscore. -/
def snakeChars : List Char → List Char
  | [] => []
  | c :: rest => (if Text.isUpper c then Text.lower c else [c]) ++ rest.flatMap snakeLetter

/-- Pascal case: underscores are dropped, and the letter at the start and behind each of them
becomes upper case.  The flag says that such a letter comes next. -/
def pascalChars : Bool → List Char → List Char
  | _, [] => []
  | atStart, c :: rest =>
    if c = '_' then pascalChars true rest
    else if atStart then Text.upper c ++ pascalChars false rest
    else c :: pascalChars false rest

/-- Camel case: Pascal case with its first letter in lower case. -/
def camelChars (name : List Char) : List Char :=
  match pascalChars true name with
  | [] => []
  | c :: rest => Text.lower c ++ rest

/-- The snake case of a name. -/
def snake (name : String) : String :=
  String.ofList (snakeChars name.toList)

/-- The Pascal case of a name. -/
def pascal (name : String) : String :=
  String.ofList (pascalChars true name.toList)

/-- The camel case of a name. -/
def camel (name : String) : String :=
  String.ofList (camelChars name.toList)

/-- The snake case of a name in upper case, as constants are named. -/
def screaming (name : String) : String :=
  String.ofList (Text.upperAll (snakeChars name.toList))

theorem toList_snake (name : String) : (snake name).toList = snakeChars name.toList :=
  String.toList_ofList

theorem toList_pascal (name : String) : (pascal name).toList = pascalChars true name.toList :=
  String.toList_ofList

theorem pascalChars_false_of_notMem {name : List Char} (h : '_' ∉ name) :
    pascalChars false name = name := by
  induction name with
  | nil => rfl
  | cons c rest ih =>
    rw [List.mem_cons, not_or] at h
    rw [pascalChars, if_neg (Ne.symm h.1), if_neg Bool.false_ne_true, ih h.2]

/-- A single word has its first letter in upper case. -/
theorem pascalChars_true_of_notMem {c : Char} {rest : List Char} (h : '_' ∉ c :: rest) :
    pascalChars true (c :: rest) = Text.upper c ++ rest := by
  rw [List.mem_cons, not_or] at h
  rw [pascalChars, if_neg (Ne.symm h.1), if_pos rfl, pascalChars_false_of_notMem h.2]

end Identifier

end SchemaLog
