/-!
# Path — file paths as texts

A path is cut at its slashes into segments.  Empty segments and `.` name nothing, `..` names the
directory above; what a path leads to depends on the disk, and nothing is resolved here.  The parent
of a path is the text in front of its last segment that names something.
-/

namespace SchemaLog

/-- A path as it is written. -/
structure Path where
  text : String
  deriving DecidableEq

namespace Path

/-- Cuts a text at its slashes; there is one segment more than there are slashes. -/
def cut : List Char → List (List Char)
  | [] => [[]]
  | c :: rest =>
    if c = '/' then [] :: cut rest
    else
      match cut rest with
      | [] => [[c]]
      | segment :: segments => (c :: segment) :: segments

/-- Joins segments by slashes. -/
def glue : List (List Char) → List Char
  | [] => []
  | [segment] => segment
  | segment :: segments => segment ++ '/' :: glue segments

/-- Whether the path starts at the root, and its segments behind that. -/
def segments (p : Path) : Bool × List String :=
  match p.text.toList with
  | '/' :: rest => (true, (cut rest).map String.ofList)
  | cs => (false, (cut cs).map String.ofList)

/-- Whether a segment names nothing. -/
def isVoid (segment : List Char) : Bool :=
  segment == [] || segment == ['.']

/-- Drops segments that name nothing from the end of a path; the segments are given the last first.
A path that begins with `.` keeps it. -/
def dropVoid (fromRoot : Bool) : List (List Char) → List (List Char)
  | [] => []
  | segment :: before =>
    if isVoid segment && !(!fromRoot && before.isEmpty && segment == ['.']) then
      dropVoid fromRoot before
    else segment :: before

/-- The segments in front of the last one that names something, the last first. -/
def before? (fromRoot : Bool) (segments : List (List Char)) : Option (List (List Char)) :=
  match dropVoid fromRoot segments.reverse with
  | [] => none
  | _ :: before => some (dropVoid fromRoot before)

/-- The path in front of the last segment that names something, if there is such a segment. -/
def parent? (p : Path) : Option Path :=
  match p.text.toList with
  | '/' :: rest =>
    (before? true (cut rest)).map fun before => ⟨String.ofList ('/' :: glue before.reverse)⟩
  | cs => (before? false (cut cs)).map fun before => ⟨String.ofList (glue before.reverse)⟩

/-- A file in a directory.  A name that starts at the root stands for itself. -/
def join (directory : Path) (name : String) : Path :=
  match name.toList with
  | '/' :: _ => ⟨name⟩
  | _ =>
    match directory.text.toList.getLast? with
    | none => ⟨name⟩
    | some '/' => ⟨directory.text ++ name⟩
    | some _ => ⟨directory.text ++ "/" ++ name⟩

end Path

end SchemaLog
