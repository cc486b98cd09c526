import SchemaLog.Path

/-!
# Disk — files and directories

A disk holds files and directories at locations, and paths are looked up from a working directory.
There are two changes, `createDirectory` and `writeFile`.  Each of them is made wholly or not at
all: it fails where something is in the way, where a path is no path, and where the disk has an
outage.  `createDirectories` also makes the directories in front.

A disk is shared.  Others write files to it, take files away and look at what is there
(`writeWithParents`, `remove`, `listing`), and what they write are bytes, which need not be a text.
-/

namespace SchemaLog

/-- What a file holds: a text, or bytes that are none. -/
inductive Content
  | text (value : String)
  | bytes (value : List UInt8)
  deriving DecidableEq

/-- The bytes as a text, if they are the UTF-8 form of one. -/
def Content.ofBytes (bytes : List UInt8) : Content :=
  match String.fromUTF8? ⟨bytes.toArray⟩ with
  | some s => .text s
  | none => .bytes bytes

/-- The bytes of a text are that text. -/
theorem Content.ofBytes_data (s : String) : ofBytes s.toUTF8.data.toList = .text s := by
  have hdecoded : String.fromUTF8? s.toUTF8 = some s := dif_pos s.isValidUTF8
  rw [ofBytes, Array.toArray_toList, hdecoded]

/-- A place on a disk: the names that lead to it, the innermost first. -/
abbrev Location := List String

/-- A place and the places around it, without the root. -/
def Location.around : Location → List Location
  | [] => []
  | name :: loc => (name :: loc) :: around loc

/-- What is at a place. -/
inductive Entry
  | file (content : Content)
  | directory
  deriving DecidableEq

/-- Why a disk does not do what it is asked for. -/
inductive DiskFault
  /-- Something on the way is not there. -/
  | missing
  /-- Something is in the way, or the disk fails. -/
  | refused
  deriving DecidableEq

/-- A disk with a working directory.  `outages` says of the next changes, one after the other, which
of them fail for no reason of their own; all later ones do not. -/
structure Disk where
  workingDirectory : Location
  entries : List (Location × Entry)
  outages : List Bool
  deriving DecidableEq

namespace Disk

/-! ## Looking up -/

/-- A disk with nothing on it but the working directory and the directories around it. -/
def empty (workingDirectory : Location) : Disk :=
  ⟨workingDirectory, (Location.around workingDirectory).map fun loc => (loc, .directory), []⟩

/-- What is at a place; the root is always a directory. -/
def entry? (d : Disk) : Location → Option Entry
  | [] => some .directory
  | loc => d.entries.lookup loc

/-- The longest name of an entry, in bytes. -/
def nameLimit : Nat := 255

/-- The longest path, in bytes. -/
def pathLimit : Nat := 4095

/-- What is at a name in a directory. -/
def child (d : Disk) (loc : Location) (name : String) : Except DiskFault Entry :=
  if nameLimit < name.utf8ByteSize then .error .refused
  else
    match d.entry? (name :: loc) with
    | some e => .ok e
    | none => .error .missing

/-- Walks along segments, each of which has to name a directory. -/
def walk (d : Disk) (loc : Location) : List String → Except DiskFault Location
  | [] => .ok loc
  | segment :: rest =>
    if segment = "" ∨ segment = "." then d.walk loc rest
    else if segment = ".." then d.walk loc.tail rest
    else
      match d.child loc segment with
      | .ok .directory => d.walk (segment :: loc) rest
      | .ok (.file _) => .error .refused
      | .error fault => .error fault

/-- Whether a segment names an entry of a directory. -/
def isName (segment : String) : Bool :=
  segment != "" && segment != "." && segment != ".."

/-- Where a path starts, and its segments; an empty path leads nowhere. -/
def start (d : Disk) (p : Path) : Except DiskFault (Location × List String) :=
  if p.text = "" then .error .missing
  else if p.text.toList.contains '\x00' || pathLimit < p.text.utf8ByteSize then .error .refused
  else
    match p.segments with
    | (true, segments) => .ok ([], segments)
    | (false, segments) => .ok (d.workingDirectory, segments)

/-- The place that a path leads to, and what is there. -/
def locate (d : Disk) (p : Path) : Except DiskFault (Location × Entry) := do
  let (loc, segments) ← d.start p
  let directory ← d.walk loc segments.dropLast
  let last := segments.getLastD ""
  if isName last then
    let e ← d.child directory last
    return (last :: directory, e)
  else
    let loc ← d.walk directory [last]
    return (loc, .directory)

/-- Whether a path leads anywhere. -/
def exists? (d : Disk) (p : Path) : Bool :=
  (d.locate p).isOk

/-- Whether a path leads to a directory. -/
def isDirectory (d : Disk) (p : Path) : Bool :=
  match d.locate p with
  | .ok (_, .directory) => true
  | _ => false

/-- The text of a file. -/
def readText (d : Disk) (p : Path) : Except DiskFault String :=
  match d.locate p with
  | .ok (_, .file (.text s)) => .ok s
  | .ok _ => .error .refused
  | .error fault => .error fault

/-! ## Changing -/

/-- The entries with one place set. -/
def set (loc : Location) (e : Entry) : List (Location × Entry) → List (Location × Entry)
  | [] => [(loc, e)]
  | (l, old) :: rest => if l = loc then (l, e) :: rest else (l, old) :: set loc e rest

/-- Sets a place, unless the disk has an outage. -/
def put (d : Disk) (loc : Location) (e : Entry) : Disk × Option DiskFault :=
  match d.outages with
  | true :: rest => ({ d with outages := rest }, some .refused)
  | outages => ({ d with entries := set loc e d.entries, outages := outages.tail }, none)

/-- The directory of a new entry, and its name. -/
def target (d : Disk) (loc : Location) (segments : List String) :
    Except DiskFault (Location × String) := do
  let directory ← d.walk loc segments.dropLast
  let last := segments.getLastD ""
  if isName last && last.utf8ByteSize ≤ nameLimit then return (directory, last)
  else throw .refused

/-- The segments without empty ones at the end. -/
def withoutSlash (segments : List String) : List String :=
  (segments.reverse.dropWhile (· == "")).reverse

/-- Makes one directory, of which nothing must be there yet. -/
def createDirectory (d : Disk) (p : Path) : Disk × Option DiskFault :=
  match d.start p with
  | .error fault => (d, some fault)
  | .ok (loc, segments) =>
    match d.target loc (withoutSlash segments) with
    | .error fault => (d, some fault)
    | .ok (directory, name) =>
      match d.entry? (name :: directory) with
      | some _ => (d, some .refused)
      | none => d.put (name :: directory) .directory

/-- Writes a file; a file that is there already is overwritten. -/
def writeFile (d : Disk) (p : Path) (content : Content) : Disk × Option DiskFault :=
  match d.start p with
  | .error fault => (d, some fault)
  | .ok (loc, segments) =>
    match d.target loc segments with
    | .error fault => (d, some fault)
    | .ok (directory, name) =>
      match d.entry? (name :: directory) with
      | some .directory => (d, some .refused)
      | _ => d.put (name :: directory) (.file content)

/-- A failed attempt to make a directory does no harm if there is one. -/
def unlessDirectory (p : Path) : Disk × Option DiskFault → Disk × Option DiskFault
  | (d, none) => (d, none)
  | (d, some fault) => if d.isDirectory p then (d, none) else (d, some fault)

/-- Makes a directory and those in front of it, as far as the first argument allows; a directory
that is there already is left as it is. -/
def createDirectoriesUpTo : Nat → Disk → Path → Disk × Option DiskFault
  | 0, d, _ => (d, some .refused)
  | n + 1, d, p =>
    if p.text = "" then (d, none)
    else
      match d.createDirectory p with
      | (d, some .missing) =>
        match p.parent? with
        | none => (d, some .missing)
        | some parent =>
          match createDirectoriesUpTo n d parent with
          | (d, some fault) => (d, some fault)
          | (d, none) => unlessDirectory p (d.createDirectory p)
      | attempt => unlessDirectory p attempt

/-- Makes a directory and those in front of it; there are fewer of them than characters in the path.
-/
def createDirectories (d : Disk) (p : Path) : Disk × Option DiskFault :=
  createDirectoriesUpTo (p.text.length + 1) d p

/-! ## What others do -/

/-- Writes a file and makes the directories around it. -/
def writeWithParents (d : Disk) (p : Path) (content : Content) : Disk × Option DiskFault :=
  match p.parent? with
  | none => d.writeFile p content
  | some parent =>
    match d.createDirectories parent with
    | (d, some fault) => (d, some fault)
    | (d, none) => d.writeFile p content

/-- Takes away a file; a directory stays. -/
def remove (d : Disk) (p : Path) : Except DiskFault Disk := do
  match ← d.locate p with
  | (loc, .file _) => return { d with entries := d.entries.filter fun e => e.1 != loc }
  | (_, .directory) => throw .refused

/-- The entries below the working directory, each with the names that lead to it from there. -/
def listing (d : Disk) : List (List String × Entry) :=
  d.entries.filterMap fun (loc, e) =>
    let depth := loc.length - d.workingDirectory.length
    if loc.drop depth = d.workingDirectory ∧ 0 < depth then some ((loc.take depth).reverse, e)
    else none

/-! ## Small laws -/

theorem lookup_set (loc : Location) (e : Entry) (entries : List (Location × Entry)) :
    (set loc e entries).lookup loc = some e := by
  induction entries with
  | nil => simp [set]
  | cons first rest ih =>
    obtain ⟨l, old⟩ := first
    unfold set
    split
    · next h => simp [h]
    · next h =>
      rw [List.lookup_cons, ih]
      have : (loc == l) = false := by simpa using fun h' => h h'.symm
      simp [this]

theorem lookup_set_of_ne {loc other : Location} (h : other ≠ loc) (e : Entry)
    (entries : List (Location × Entry)) :
    (set loc e entries).lookup other = entries.lookup other := by
  induction entries with
  | nil =>
    have : (other == loc) = false := by simpa using h
    simp [set, List.lookup_cons, this]
  | cons first rest ih =>
    obtain ⟨l, old⟩ := first
    unfold set
    split
    · next hl =>
      subst hl
      have : (other == l) = false := by simpa using h
      simp [List.lookup_cons, this]
    · simp only [List.lookup_cons, ih]

theorem lookup_filter_of_ne {loc other : Location} (h : other ≠ loc)
    (entries : List (Location × Entry)) :
    (entries.filter fun e => e.1 != loc).lookup other = entries.lookup other := by
  induction entries with
  | nil => rfl
  | cons first rest ih =>
    obtain ⟨l, e⟩ := first
    rw [List.filter_cons, List.lookup_cons]
    split
    · rw [List.lookup_cons, ih]
    · next hl =>
      have hloc : l = loc := by simpa using hl
      have : (other == l) = false := by simpa [hloc] using h
      rw [ih, this]

/-- **What is listed are the entries below the working directory**, by the ways to them. -/
theorem mem_listing_iff {d : Disk} {names : List String} {e : Entry} :
    (names, e) ∈ d.listing ↔ names ≠ [] ∧ (names.reverse ++ d.workingDirectory, e) ∈ d.entries := by
  simp only [listing, List.mem_filterMap, Prod.exists, Option.ite_none_right_eq_some,
    Option.some.injEq, Prod.mk.injEq]
  constructor
  · rintro ⟨loc, e', hmem, ⟨hbelow, hdepth⟩, rfl, rfl⟩
    have hloc : loc ≠ [] := by
      rintro rfl
      simp at hdepth
    have hsplit := List.take_append_drop (loc.length - d.workingDirectory.length) loc
    rw [hbelow] at hsplit
    rw [List.reverse_reverse, hsplit]
    refine ⟨?_, hmem⟩
    simp [hloc, Nat.pos_iff_ne_zero.mp hdepth]
  · rintro ⟨hnames, hmem⟩
    have hlength : (names.reverse ++ d.workingDirectory).length - d.workingDirectory.length
        = names.reverse.length := by simp
    refine ⟨_, e, hmem, ?_, ?_, rfl⟩ <;> rw [hlength]
    · exact ⟨List.drop_left, List.length_pos_iff.mpr (mt List.reverse_eq_nil_iff.mp hnames)⟩
    · rw [List.take_left, List.reverse_reverse]

/-- A file that others have written, and the directory that they have made for it. -/
example :
    ((empty ["home"]).writeWithParents ⟨"logs/users.json"⟩ (.text "[]")).1.listing
      = [(["logs"], .directory), (["logs", "users.json"], .file (.text "[]"))] := by
  decide +kernel

/-- **A change is made wholly or not at all.** -/
theorem entries_put (d : Disk) (loc : Location) (e : Entry) :
    ((d.put loc e).2 = none ∧ (d.put loc e).1.entries = set loc e d.entries) ∨
      ((d.put loc e).2 = some .refused ∧ (d.put loc e).1.entries = d.entries) := by
  unfold put
  split
  · exact Or.inr ⟨rfl, rfl⟩
  · exact Or.inl ⟨rfl, rfl⟩

end Disk

end SchemaLog
