import SchemaLog.Disk

/-!
# Proofs/Files — what is written is read, and all else is kept

    path ──segments──▸ place          the names on the way, `..` taking back the last one
    path ──locate────▸ place          the same, if directories are all the way there

Every path has a place (`Disk.place`), and where it leads anywhere it leads there
(`file?_eq_some_iff`).  No change takes a directory away, and where there is a file only a write or
a removal takes place, so a file is kept by everything that is done at other places (`Keeps`),
whoever does it (`EditedAround`).
-/

namespace SchemaLog

/-! ## Steps that may fail -/

section Steps

variable {ε ε' α β : Type} {step : Except ε α} {fault : ε} {fault' : ε'}

theorem bind_eq_ok_iff {next : α → Except ε β} {b : β} :
    (step >>= next) = .ok b ↔ ∃ a, step = .ok a ∧ next a = .ok b := by
  rcases step with fault | a <;> simp [bind, Except.bind]

/-- The first step that fails is the one that counts. -/
theorem bind_eq_error_iff {next : α → Except ε β} :
    (step >>= next) = .error fault
      ↔ step = .error fault ∨ ∃ a, step = .ok a ∧ next a = .error fault := by
  rcases step with fault' | a <;> simp [bind, Except.bind]

theorem mapError_eq_ok_iff {wrap : ε → ε'} {a : α} :
    step.mapError wrap = .ok a ↔ step = .ok a := by
  constructor
  · intro h
    rcases step with fault | a' <;> cases h
    rfl
  · rintro rfl
    rfl

theorem mapError_eq_error_iff {wrap : ε → ε'} :
    step.mapError wrap = .error fault' ↔ ∃ fault, step = .error fault ∧ wrap fault = fault' := by
  constructor
  · intro h
    rcases step with fault | a <;> cases h
    exact ⟨fault, rfl, rfl⟩
  · rintro ⟨fault, rfl, rfl⟩
    rfl

end Steps

/-! ## The place of a path -/

/-- Follows segments from a place, whether or not anything is there. -/
def Location.follow (loc : Location) : List String → Location
  | [] => loc
  | segment :: rest =>
    if segment = "" ∨ segment = "." then Location.follow loc rest
    else if segment = ".." then Location.follow loc.tail rest
    else Location.follow (segment :: loc) rest

namespace Disk

variable {d d' d'' : Disk} {p : Path} {loc other base directory : Location} {name : String}
  {segments : List String} {content : Content} {e : Entry}

/-- The place that a path names, whether or not it leads there. -/
def place (d : Disk) (p : Path) : Location :=
  Location.follow (if p.segments.1 then [] else d.workingDirectory) p.segments.2

theorem place_congr (h : d'.workingDirectory = d.workingDirectory) (p : Path) :
    d'.place p = d.place p := by
  rw [place, place, h]

theorem start_congr (h : d'.workingDirectory = d.workingDirectory) (p : Path) :
    d'.start p = d.start p := by
  rw [start, start, h]

theorem place_of_start (h : d.start p = .ok (base, segments)) :
    d.place p = base.follow segments := by
  rw [start] at h
  split at h
  · cases h
  · split at h
    · cases h
    · split at h <;> next heq => cases h; rw [place, heq]; rfl

/-- A walk that gets through gets to where the segments lead. -/
theorem follow_of_walk : ∀ {segments : List String} {base : Location},
    d.walk base segments = .ok loc → base.follow segments = loc
  | [], base, h => by
    cases h
    rfl
  | segment :: rest, base, h => by
    rw [walk] at h
    rw [Location.follow]
    split at h
    · next hvoid => rw [if_pos hvoid, follow_of_walk h]
    · next hvoid =>
      rw [if_neg hvoid]
      split at h
      · next hup => rw [if_pos hup, follow_of_walk h]
      · next hup =>
        rw [if_neg hup]
        split at h
        · exact follow_of_walk h
        · cases h
        · cases h

theorem follow_append (base : Location) (front back : List String) :
    base.follow (front ++ back) = (base.follow front).follow back := by
  induction front generalizing base with
  | nil => rfl
  | cons segment rest ih =>
    simp only [List.cons_append, Location.follow]
    split
    · exact ih base
    · split
      · exact ih base.tail
      · exact ih (segment :: base)

theorem follow_name (h : isName name = true) (base : Location) :
    base.follow [name] = name :: base := by
  simp only [isName, Bool.and_eq_true, bne_iff_ne, ne_eq] at h
  rw [Location.follow, if_neg (not_or.mpr h.1), if_neg h.2, Location.follow]

/-- A path ends in a name behind a directory that is there; at the name there may be anything or
nothing. -/
inductive Targets (d : Disk) (p : Path) (directory : Location) (name : String) : Prop
  | intro {base : Location} {front : List String} (hstart : d.start p = .ok (base, front ++ [name]))
      (hwalk : d.walk base front = .ok directory) (hname : isName name = true)
      (hlength : name.utf8ByteSize ≤ nameLimit)

theorem Targets.place_eq (h : d.Targets p directory name) : d.place p = name :: directory := by
  obtain ⟨hstart, hwalk, hname, -⟩ := h
  rw [place_of_start hstart, follow_append, follow_of_walk hwalk, follow_name hname]

theorem targets_of_start (hstart : d.start p = .ok (base, segments))
    (hwalk : d.walk base segments.dropLast = .ok directory)
    (hname : isName (segments.getLastD "") = true)
    (hlength : ¬ nameLimit < (segments.getLastD "").utf8ByteSize) :
    d.Targets p directory (segments.getLastD "") := by
  rcases segments.eq_nil_or_concat with rfl | ⟨front, last, rfl⟩
  · cases hname
  · rw [List.concat_eq_append, List.dropLast_concat] at hwalk
    rw [List.concat_eq_append, List.getLastD_concat] at hname hlength ⊢
    exact .intro (List.concat_eq_append ▸ hstart) hwalk hname (Nat.not_lt.mp hlength)

/-! ## Files -/

/-- What the file holds that a path leads to. -/
def file? (d : Disk) (p : Path) : Option Content :=
  match d.locate p with
  | .ok (_, .file content) => some content
  | _ => none

theorem file?_eq_some_iff_locate :
    d.file? p = some content ↔ ∃ loc, d.locate p = .ok (loc, .file content) := by
  rw [file?]
  rcases d.locate p with fault | ⟨loc, _ | _⟩ <;> simp

/-- A name is looked up in its directory. -/
theorem child_eq_ok_iff : d.child loc name = .ok e
    ↔ ¬ nameLimit < name.utf8ByteSize ∧ d.entry? (name :: loc) = some e := by
  rw [child]
  split
  · next h => simp [h]
  · next h => rcases d.entry? (name :: loc) with _ | e' <;> simp [h]

/-- A path that ends in a name leads to what has the name, and any other to a directory. -/
theorem locate_eq_ok_iff : d.locate p = .ok (loc, e) ↔ ∃ base segments directory,
    d.start p = .ok (base, segments) ∧ d.walk base segments.dropLast = .ok directory
      ∧ if isName (segments.getLastD "") then
          d.child directory (segments.getLastD "") = .ok e
            ∧ loc = segments.getLastD "" :: directory
        else d.walk directory [segments.getLastD ""] = .ok loc ∧ e = .directory := by
  simp only [locate, bind_eq_ok_iff, Prod.exists]
  refine exists_congr fun base => exists_congr fun segments => ?_
  rw [← exists_and_left]
  refine exists_congr fun directory => and_congr_right fun _ => and_congr_right fun _ => ?_
  split <;> simp only [bind_eq_ok_iff, pure, Except.pure, Except.ok.injEq, Prod.mk.injEq] <;> grind

/-- Where a path leads to a file, it leads to its place. -/
theorem place_of_locate (h : d.locate p = .ok (loc, .file content)) : d.place p = loc := by
  obtain ⟨base, segments, directory, hstart, hwalk, hlast⟩ := locate_eq_ok_iff.mp h
  split at hlast
  · next hname =>
    obtain ⟨hlength, -⟩ := child_eq_ok_iff.mp hlast.1
    rw [(targets_of_start hstart hwalk hname hlength).place_eq, hlast.2]
  · cases hlast.2

/-- **A path leads to a file exactly if there is one at the name that it ends in.** -/
theorem file?_eq_some_iff :
    d.file? p = some content
      ↔ ∃ directory name, d.Targets p directory name
        ∧ d.entry? (name :: directory) = some (.file content) := by
  simp only [file?_eq_some_iff_locate, locate_eq_ok_iff]
  constructor
  · rintro ⟨loc, base, segments, directory, hstart, hwalk, hlast⟩
    split at hlast
    · next hname =>
      obtain ⟨hlength, hentry⟩ := child_eq_ok_iff.mp hlast.1
      exact ⟨directory, _, targets_of_start hstart hwalk hname hlength, hentry⟩
    · cases hlast.2
  · rintro ⟨directory, name, ⟨hstart, hwalk, hname, hlength⟩, hentry⟩
    have hchild := child_eq_ok_iff.mpr ⟨Nat.not_lt.mpr hlength, hentry⟩
    refine ⟨name :: directory, _, _, directory, hstart, ?_⟩
    rw [List.dropLast_concat, List.getLastD_concat, if_pos hname]
    exact ⟨hwalk, hchild, rfl⟩

/-- The file that a path leads to is at its place. -/
theorem entry_place_of_file? (h : d.file? p = some content) :
    d.entry? (d.place p) = some (.file content) := by
  obtain ⟨directory, name, htargets, hentry⟩ := file?_eq_some_iff.mp h
  rw [htargets.place_eq, hentry]

/-- A file is read by its path. -/
theorem readText_of_file? {s : String} (h : d.file? p = some (.text s)) :
    d.readText p = .ok s ∧ d.exists? p = true := by
  obtain ⟨loc, hloc⟩ := file?_eq_some_iff_locate.mp h
  rw [readText, exists?, hloc]
  exact ⟨rfl, rfl⟩

theorem file?_of_readText {s : String} (h : d.readText p = .ok s) :
    d.file? p = some (.text s) := by
  rw [readText] at h
  split at h
  · next hloc => cases h; exact file?_eq_some_iff_locate.mpr ⟨_, hloc⟩
  · cases h
  · cases h

theorem exists?_of_readText {s : String} (h : d.readText p = .ok s) : d.exists? p = true :=
  (readText_of_file? (file?_of_readText h)).2

/-! ## What is kept -/

/-- What a disk keeps while other places are written: its directories, and the file at a place, or
that there is none. -/
structure Keeps (loc : Location) (d d' : Disk) : Prop where
  workingDirectory_eq : d'.workingDirectory = d.workingDirectory
  directory : ∀ other, d.entry? other = some .directory → d'.entry? other = some .directory
  file_iff : ∀ content, d'.entry? loc = some (.file content) ↔ d.entry? loc = some (.file content)

namespace Keeps

theorem refl (loc : Location) (d : Disk) : Keeps loc d d :=
  ⟨rfl, fun _ => id, fun _ => Iff.rfl⟩

theorem trans (h : Keeps loc d d') (h' : Keeps loc d' d'') : Keeps loc d d'' where
  workingDirectory_eq := h'.workingDirectory_eq.trans h.workingDirectory_eq
  directory other := h'.directory other ∘ h.directory other
  file_iff content := (h'.file_iff content).trans (h.file_iff content)

/-- Where directories stay, a walk that got through still does. -/
theorem walk (h : Keeps loc d d') :
    ∀ {segments : List String} {base : Location},
      d.walk base segments = .ok directory → d'.walk base segments = .ok directory
  | [], _, hwalk => hwalk
  | segment :: rest, base, hwalk => by
    rw [Disk.walk] at hwalk ⊢
    split at hwalk
    · next hvoid => rw [if_pos hvoid, h.walk hwalk]
    · next hvoid =>
      rw [if_neg hvoid]
      split at hwalk
      · next hup => rw [if_pos hup, h.walk hwalk]
      · next hup =>
        rw [if_neg hup]
        split at hwalk
        · next hchild =>
          obtain ⟨hlength, hentry⟩ := child_eq_ok_iff.mp hchild
          rw [child_eq_ok_iff.mpr ⟨hlength, h.directory _ hentry⟩]
          exact h.walk hwalk
        · cases hwalk
        · cases hwalk

theorem targets (h : Keeps loc d d') (htargets : d.Targets p directory name) :
    d'.Targets p directory name := by
  obtain ⟨hstart, hwalk, hname, hlength⟩ := htargets
  exact .intro (start_congr h.workingDirectory_eq p ▸ hstart) (h.walk hwalk) hname hlength

end Keeps

/-- The path leads to the file that is at its place, if there is one. -/
def Reaches (d : Disk) (p : Path) : Prop :=
  ∀ content, d.entry? (d.place p) = some (.file content) → d.file? p = some content

theorem reaches_of_file? (h : d.file? p = some content) : d.Reaches p := by
  intro content' hentry
  rw [entry_place_of_file? h, Option.some.injEq, Entry.file.injEq] at hentry
  rw [h, hentry]

/-- **A file that a path leads to is kept**, and where there is none there still is none. -/
theorem Keeps.file?_eq (h : Keeps (d.place p) d d') (hreaches : d.Reaches p) :
    d'.Reaches p ∧ d'.file? p = d.file? p := by
  have hplace := place_congr h.workingDirectory_eq p
  have hkeep : ∀ content, d.file? p = some content → d'.file? p = some content := by
    intro content hfile
    obtain ⟨directory, name, htargets, hentry⟩ := file?_eq_some_iff.mp hfile
    have hentry' := (h.file_iff content).mpr (htargets.place_eq ▸ hentry)
    exact file?_eq_some_iff.mpr ⟨directory, name, h.targets htargets, htargets.place_eq ▸ hentry'⟩
  have hback : ∀ content, d'.entry? (d'.place p) = some (.file content) →
      d.file? p = some content := fun content hentry =>
    hreaches content ((h.file_iff content).mp (hplace ▸ hentry))
  refine ⟨fun content hentry => hkeep content (hback content hentry), ?_⟩
  rcases hfile : d.file? p with _ | content
  · rcases hfile' : d'.file? p with _ | content
    · rfl
    · have := hback content (entry_place_of_file? hfile')
      rw [hfile] at this
      exact this.symm
  · exact hkeep content hfile

/-! ## Changes -/

/-- A place that is set holds what it is set to, and other places what they held. -/
theorem entry_of_set (hentries : d'.entries = set loc e d.entries) (hroot : loc ≠ []) :
    d'.entry? other = if other = loc then some e else d.entry? other := by
  rcases other with _ | ⟨name, rest⟩
  · rw [if_neg hroot.symm]
    rfl
  · have hlookup : d'.entry? (name :: rest) = d'.entries.lookup (name :: rest) := rfl
    rw [hlookup, hentries]
    split
    · next heq => rw [heq, lookup_set]
    · next hne => exact lookup_set_of_ne hne e d.entries

theorem entry_congr (hentries : d'.entries = d.entries) : d'.entry? loc = d.entry? loc := by
  rcases loc with _ | ⟨name, rest⟩
  · rfl
  · exact congrArg (List.lookup (name :: rest)) hentries

@[simp] theorem workingDirectory_put (d : Disk) (loc : Location) (e : Entry) :
    (d.put loc e).1.workingDirectory = d.workingDirectory := by
  rw [put]
  split <;> rfl

/-- A change that fails changes nothing. -/
theorem keeps_of_entries_eq (hworking : d'.workingDirectory = d.workingDirectory)
    (hentries : d'.entries = d.entries) (loc : Location) : Keeps loc d d' :=
  ⟨hworking, fun _ h => (entry_congr hentries).trans h, fun _ => by rw [entry_congr hentries]⟩

/-- **Setting a place keeps a file elsewhere**, and making a directory where nothing is keeps all
files. -/
theorem keeps_put (hfree : d.entry? other ≠ some .directory)
    (hother : other = loc → d.entry? other = none ∧ e = .directory) :
    Keeps loc d (d.put other e).1 := by
  have hroot : other ≠ [] := by
    rintro rfl
    exact hfree rfl
  rcases d.entries_put other e with ⟨-, hentries⟩ | ⟨-, hentries⟩
  · refine ⟨workingDirectory_put d other e, fun l hl => ?_, fun content => ?_⟩
    · rw [entry_of_set hentries hroot, if_neg, hl]
      rintro rfl
      exact hfree hl
    · rw [entry_of_set hentries hroot]
      split
      · next heq =>
        obtain ⟨hnone, rfl⟩ := hother heq.symm
        rw [heq, hnone]
        simp
      · rfl
  · exact keeps_of_entries_eq (workingDirectory_put d other e) hentries loc

/-- A directory is made where nothing is, or nothing is changed. -/
theorem createDirectory_cases (d : Disk) (p : Path) :
    (∃ fault, d.createDirectory p = (d, some fault))
      ∨ ∃ loc, d.entry? loc = none ∧ d.createDirectory p = d.put loc .directory := by
  rw [createDirectory]
  split
  · exact .inl ⟨_, rfl⟩
  · split
    · exact .inl ⟨_, rfl⟩
    · split
      · exact .inl ⟨_, rfl⟩
      · next hnone => exact .inr ⟨_, hnone, rfl⟩

theorem keeps_createDirectory (loc : Location) (d : Disk) (p : Path) :
    Keeps loc d (d.createDirectory p).1 := by
  rcases d.createDirectory_cases p with ⟨fault, h⟩ | ⟨other, hnone, h⟩ <;> rw [h]
  · exact .refl loc d
  · exact keeps_put (by simp [hnone]) fun _ => ⟨hnone, rfl⟩

@[simp] theorem fst_unlessDirectory (p : Path) (attempt : Disk × Option DiskFault) :
    (unlessDirectory p attempt).1 = attempt.1 := by
  rcases attempt with ⟨d, _ | fault⟩
  · rfl
  · rw [unlessDirectory]
    split <;> rfl

/-- **Making directories keeps every file**, whether or not it succeeds. -/
theorem keeps_createDirectoriesUpTo (loc : Location) :
    ∀ (n : Nat) (d : Disk) (p : Path), Keeps loc d (createDirectoriesUpTo n d p).1
  | 0, d, _ => .refl loc d
  | n + 1, d, p => by
    have hfirst := keeps_createDirectory loc d p
    rw [createDirectoriesUpTo]
    split
    · exact .refl loc d
    · split
      · next d₁ h =>
        rw [h] at hfirst
        split
        · exact hfirst
        · next parent _ =>
          have hparent := hfirst.trans (keeps_createDirectoriesUpTo loc n d₁ parent)
          split
          · next heq =>
            rw [heq] at hparent
            exact hparent
          · next d₂ heq =>
            rw [heq] at hparent
            rw [fst_unlessDirectory]
            exact hparent.trans (keeps_createDirectory loc d₂ p)
      · rw [fst_unlessDirectory]
        exact hfirst

theorem keeps_createDirectories (loc : Location) (d : Disk) (p : Path) :
    Keeps loc d (d.createDirectories p).1 :=
  keeps_createDirectoriesUpTo loc _ d p

/-- A new entry goes to a name in a directory that is there. -/
theorem target_eq_ok_iff :
    d.target base segments = .ok (directory, name)
      ↔ d.walk base segments.dropLast = .ok directory ∧ segments.getLastD "" = name
        ∧ isName name = true ∧ name.utf8ByteSize ≤ nameLimit := by
  rw [target]
  rcases hwalk : d.walk base segments.dropLast with fault | directory' <;>
    simp only [bind, Except.bind]
  · simp
  split
  · next hname =>
    simp only [Bool.and_eq_true, decide_eq_true_eq] at hname
    simp only [pure, Except.pure, Except.ok.injEq, Prod.mk.injEq]
    refine and_congr_right fun _ => ⟨fun hlast => ?_, fun h => h.1⟩
    exact ⟨hlast, hlast ▸ hname.1, hlast ▸ hname.2⟩
  · next hname =>
    simp only [Bool.and_eq_true, decide_eq_true_eq] at hname
    refine ⟨nofun, fun ⟨_, hlast, hvalid⟩ => ?_⟩
    exact absurd (hlast ▸ hvalid) hname

theorem targets_of_target (hstart : d.start p = .ok (base, segments))
    (h : d.target base segments = .ok (directory, name)) : d.Targets p directory name := by
  obtain ⟨hwalk, rfl, hname, hlength⟩ := target_eq_ok_iff.mp h
  exact targets_of_start hstart hwalk hname (Nat.not_lt.mpr hlength)

theorem Targets.exists_target (h : d.Targets p directory name) :
    ∃ base segments, d.start p = .ok (base, segments)
      ∧ d.target base segments = .ok (directory, name) := by
  obtain ⟨hstart, hwalk, hname, hlength⟩ := h
  refine ⟨_, _, hstart, target_eq_ok_iff.mpr ⟨?_, List.getLastD_concat, hname, hlength⟩⟩
  rw [List.dropLast_concat, hwalk]

/-- A file is written at the name that its path ends in, or nothing is changed. -/
theorem writeFile_cases (d : Disk) (p : Path) (content : Content) :
    (∃ fault, d.writeFile p content = (d, some fault))
      ∨ ∃ directory name, d.Targets p directory name
        ∧ d.entry? (name :: directory) ≠ some .directory
        ∧ d.writeFile p content = d.put (name :: directory) (.file content) := by
  rw [writeFile]
  rcases hstart : d.start p with fault | ⟨base, segments⟩
  · exact .inl ⟨_, rfl⟩
  rcases htarget : d.target base segments with fault | ⟨directory, name⟩ <;>
    simp only [htarget]
  · exact .inl ⟨_, rfl⟩
  · have htargets := targets_of_target hstart htarget
    split
    · exact .inl ⟨_, rfl⟩
    · next hfree => exact .inr ⟨directory, name, htargets, hfree, rfl⟩

/-- **A write keeps the files at other places.** -/
theorem keeps_writeFile (h : d.place p ≠ loc) (content : Content) :
    Keeps loc d (d.writeFile p content).1 := by
  rcases d.writeFile_cases p content with ⟨fault, heq⟩ | ⟨directory, name, htargets, hfree, heq⟩ <;>
    rw [heq]
  · exact .refl loc d
  · exact keeps_put hfree fun hloc => absurd (htargets.place_eq.trans hloc) h

/-- **A write that fails keeps all files.** -/
theorem keeps_writeFile_of_failed {fault : DiskFault}
    (h : d.writeFile p content = (d', some fault)) (loc : Location) : Keeps loc d d' := by
  rcases d.writeFile_cases p content with ⟨_, heq⟩ | ⟨directory, name, -, -, heq⟩ <;>
    rw [heq] at h
  · cases h
    exact .refl loc d
  · have hworking := workingDirectory_put d (name :: directory) (.file content)
    rcases d.entries_put (name :: directory) (.file content) with ⟨hnone, -⟩ | ⟨-, hentries⟩
    · rw [h] at hnone
      cases hnone
    · rw [h] at hworking hentries
      exact keeps_of_entries_eq hworking hentries loc

/-- A write takes no directory away. -/
theorem keeps_root_writeFile (d : Disk) (p : Path) (content : Content) :
    Keeps [] d (d.writeFile p content).1 := by
  rcases d.writeFile_cases p content with ⟨fault, heq⟩ | ⟨directory, name, -, hfree, heq⟩ <;>
    rw [heq]
  · exact .refl [] d
  · exact keeps_put hfree fun heq => nomatch heq

/-- **What is written is read.** -/
theorem file?_of_writeFile (h : d.writeFile p content = (d', none)) :
    d'.file? p = some content := by
  -- The directory in front of the name is not touched, so the path still leads there.
  have hkeep := keeps_root_writeFile d p content
  rcases d.writeFile_cases p content with ⟨_, heq⟩ | ⟨directory, name, htargets, hfree, heq⟩
  · rw [h] at heq
    cases heq
  · have hput := d.entries_put (name :: directory) (.file content)
    rw [h] at hkeep heq
    rw [← heq] at hput
    rcases hput with ⟨-, hentries⟩ | ⟨hsome, -⟩
    · refine file?_eq_some_iff.mpr ⟨directory, name, hkeep.targets htargets, ?_⟩
      rw [entry_of_set hentries (List.cons_ne_nil name directory), if_pos rfl]
    · cases hsome

/-! ## What others do -/

theorem keeps_writeWithParents (h : d.place p ≠ loc) (content : Content) :
    Keeps loc d (d.writeWithParents p content).1 := by
  rw [writeWithParents]
  split
  · exact keeps_writeFile h content
  · next parent _ =>
    have hmade := keeps_createDirectories loc d parent
    rcases heq : d.createDirectories parent with ⟨d₁, _ | fault⟩ <;> rw [heq] at hmade
    · rw [← place_congr hmade.workingDirectory_eq] at h
      exact hmade.trans (keeps_writeFile h content)
    · exact hmade

/-- **Taking a file away keeps the files at other places.** -/
theorem keeps_remove (hremove : d.remove p = .ok d') (h : d.place p ≠ loc) : Keeps loc d d' := by
  rw [remove] at hremove
  obtain ⟨⟨other, _ | _⟩, hlocate, hremove⟩ := bind_eq_ok_iff.mp hremove <;> cases hremove
  have hfile := file?_eq_some_iff_locate.mpr ⟨other, hlocate⟩
  obtain rfl : d.place p = other := place_of_locate hlocate
  have hentry := entry_place_of_file? hfile
  have hothers {l : Location} (hl : l ≠ d.place p) :
      Disk.entry? { d with entries := d.entries.filter fun e => e.1 != d.place p } l
        = d.entry? l := by
    rcases l with _ | ⟨name, rest⟩
    · rfl
    · exact lookup_filter_of_ne hl d.entries
  refine ⟨rfl, fun l hl => ?_, fun content => by rw [hothers h.symm]⟩
  rw [hothers, hl]
  rintro rfl
  cases hentry.symm.trans hl

/-- What others have made of a disk: they have written files and taken files away, but none at a
place. -/
inductive EditedAround (loc : Location) (d : Disk) : Disk → Prop
  | refl : EditedAround loc d d
  | write {d' : Disk} (h : EditedAround loc d d') {p : Path} (hne : d'.place p ≠ loc)
      (bytes : List UInt8) : EditedAround loc d (d'.writeWithParents p (.ofBytes bytes)).1
  | remove {d' d'' : Disk} (h : EditedAround loc d d') {p : Path} (hne : d'.place p ≠ loc)
      (hremove : d'.remove p = .ok d'') : EditedAround loc d d''

/-- **Whatever others write and take away elsewhere, a file is kept.** -/
theorem EditedAround.keeps (h : EditedAround loc d d') : Keeps loc d d' := by
  induction h with
  | refl => exact .refl loc d
  | write _ hne bytes ih => exact ih.trans (keeps_writeWithParents hne (.ofBytes bytes))
  | remove _ hne hremove ih => exact ih.trans (keeps_remove hremove hne)

end Disk

end SchemaLog
