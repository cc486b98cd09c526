import SchemaLog.Proofs.Compatibility
import SchemaLog.Proofs.Directories
import SchemaLog.Proofs.Sessions

/-!
# Proofs/Repetition — a run that is made again writes nothing new but the time

    run ✓ ──▸ script, modules, history ──again──▸ the same, with another `generatedAt`

The second run reads the script, which the first one has left alone, and the artifact that the first
one has written; a schema does not differ from itself, so there are no changes to report, and the
files to write are the same (`Settings.draft_again`).  The directories for them have been made, and
each file is there, so every write sets a place that is set already (`Settings.Written.write`).
-/

namespace SchemaLog

/-! ## Writing to files that are there -/

namespace Disk

variable {d d' : Disk} {p directory : Path} {loc : Location} {e : Entry} {old content : Content}
  {text : String} {entries : List (Location × Entry)} {files : List GeneratedFile}

/-- Setting a place to what it holds changes nothing. -/
theorem set_of_lookup (h : entries.lookup loc = some e) : set loc e entries = entries := by
  induction entries with
  | nil => cases h
  | cons first rest ih =>
    obtain ⟨l, old⟩ := first
    rw [List.lookup_cons] at h
    rw [set]
    split
    · next hl =>
      rw [hl, beq_self_eq_true] at h
      rw [hl, Option.some.inj h]
    · next hl =>
      rw [beq_eq_false_iff_ne.mpr (Ne.symm hl)] at h
      rw [ih h]

theorem put_of_steady (hsteady : true ∉ d.outages) :
    d.put loc e
      = ({ d with entries := set loc e d.entries, outages := d.outages.tail }, none) := by
  rw [put]
  split
  · next heq =>
    rw [heq] at hsteady
    exact absurd List.mem_cons_self hsteady
  · rfl

/-- Which changes are going to fail does not matter for what is there. -/
theorem keeps_outages (loc : Location) (d : Disk) (outages : List Bool) :
    Keeps loc d { d with outages := outages } :=
  ⟨rfl, fun _ => id, fun _ => Iff.rfl⟩

/-- **A file that is there is overwritten**, if the disk does not fail. -/
theorem writeFile_of_file? (hfile : d.file? p = some old) (hsteady : true ∉ d.outages) :
    d.writeFile p content = ({ d with
      entries := set (d.place p) (.file content) d.entries, outages := d.outages.tail }, none) := by
  obtain ⟨directory, name, htargets, hentry⟩ := file?_eq_some_iff.mp hfile
  obtain ⟨base, segments, hstart, htarget⟩ := htargets.exists_target
  rw [htargets.place_eq, ← put_of_steady hsteady]
  simp only [writeFile, hstart, htarget, hentry]

theorem place_ne_nil_of_file? (h : d.file? p = some content) : d.place p ≠ [] := by
  obtain ⟨directory, name, htargets, -⟩ := file?_eq_some_iff.mp h
  exact htargets.place_eq ▸ List.cons_ne_nil name directory

theorem lookup_of_file? (h : d.file? p = some content) :
    d.entries.lookup (d.place p) = some (.file content) := by
  obtain ⟨directory, name, htargets, hentry⟩ := file?_eq_some_iff.mp h
  exact htargets.place_eq ▸ hentry

/-- The path leads to a file with the text, and its directory is there. -/
structure Saved (d : Disk) (p : Path) (text : String) : Prop where
  prepared : ∀ parent, p.parent? = some parent → d.Prepared parent
  file?_eq : d.file? p = some (.text text)

theorem saved_of_save (h : d.save p text = (d', none)) : d'.Saved p text := by
  refine ⟨fun parent hparent => ?_, file?_of_save h⟩
  rw [save, prepare, hparent] at h
  rcases hmade : d.createDirectories parent with ⟨d₁, _ | fault⟩ <;>
    simp only [hmade, Failure.at, Option.map] at h
  · have hkeeps := keeps_root_writeFile d₁ p (.text text)
    rw [show (d₁.writeFile p (.text text)).1 = d' from congrArg Prod.fst h] at hkeeps
    exact hkeeps.prepared (prepared_of_createDirectories hmade)
  · cases h

theorem Saved.keeps (h : d.Saved p text) (hkeeps : Keeps (d.place p) d d') : d'.Saved p text where
  prepared parent hparent := hkeeps.prepared (h.prepared parent hparent)
  file?_eq := (hkeeps.file?_eq (reaches_of_file? h.file?_eq)).2.trans h.file?_eq

/-- **Saving again overwrites the file and makes no directory.** -/
theorem Saved.save (h : d.Saved p text) (hsteady : true ∉ d.outages) (next : String) :
    d.save p next = ({ d with
      entries := set (d.place p) (.file (.text next)) d.entries, outages := d.outages.tail },
      none) := by
  have hprepare : d.prepare p = (d, none) := by
    rw [prepare]
    split
    · rfl
    · next parent hparent =>
      rw [createDirectories_of_prepared (h.prepared parent hparent)]
      rfl
  rw [Disk.save, hprepare]
  simp only [writeFile_of_file? h.file?_eq hsteady]
  rfl

/-- **Saving the same text again changes no entry.** -/
theorem Saved.save_same (h : d.Saved p text) (hsteady : true ∉ d.outages) :
    d.save p text = ({ d with outages := d.outages.tail }, none) := by
  rw [h.save hsteady, set_of_lookup (lookup_of_file? h.file?_eq)]

/-- What has been saved one after the other is all there, if each file has its own place. -/
theorem saved_of_saveAll :
    ∀ {files : List GeneratedFile} {d d' : Disk},
      (files.map fun file => d.place (directory.join file.name)).Nodup →
      d.saveAll directory files = (d', none) →
      ∀ file ∈ files, d'.Saved (directory.join file.name) file.text
  | [], _, _, _, _ => by simp
  | file :: rest, d, d', hnodup, h => by
    obtain ⟨hfirst, hrest⟩ := List.nodup_cons.mp hnodup
    have hroot := keeps_root_save d (directory.join file.name) file.text
    rw [saveAll] at h
    rcases hsave : d.save (directory.join file.name) file.text with ⟨d₁, _ | failure⟩ <;>
      rw [hsave] at h hroot
    · have hplaces (p : Path) : d₁.place p = d.place p := place_congr hroot.workingDirectory_eq p
      have hapart : ∀ other ∈ rest,
          d₁.place (directory.join other.name) ≠ d₁.place (directory.join file.name) := by
        intro other hother heq
        rw [hplaces, hplaces] at heq
        exact hfirst (List.mem_map.mpr ⟨other, hother, heq⟩)
      have hlater : d₁.saveAll directory rest = (d', none) := h
      have hkeeps := keeps_saveAll hapart
      rw [hlater] at hkeeps
      have hsaved := (saved_of_save hsave).keeps hkeeps
      refine List.forall_mem_cons.mpr ⟨hsaved, saved_of_saveAll ?_ hlater⟩
      simpa only [hplaces] using hrest
    · cases h

/-- **Saving the same files again changes no entry.** -/
theorem saveAll_same :
    ∀ {files : List GeneratedFile} {d : Disk},
      (∀ file ∈ files, d.Saved (directory.join file.name) file.text) → true ∉ d.outages →
      d.saveAll directory files = ({ d with outages := d.outages.drop files.length }, none)
  | [], _, _, _ => rfl
  | file :: rest, d, h, hsteady => by
    obtain ⟨hfirst, hrest⟩ := List.forall_mem_cons.mp h
    let d₁ : Disk := { d with outages := d.outages.tail }
    have hrest₁ : ∀ other ∈ rest, d₁.Saved (directory.join other.name) other.text :=
      fun other hother => (hrest other hother).keeps (keeps_outages _ d _)
    have hsteady₁ : true ∉ d₁.outages := fun htrue => hsteady (List.mem_of_mem_tail htrue)
    rw [saveAll, hfirst.save_same hsteady]
    simp only
    rw [saveAll_same hrest₁ hsteady₁, List.drop_tail, List.length_cons]

end Disk

/-! ## What a schema says of itself -/

/-- **A schema that a replay gives does not differ from itself.** -/
theorem Schema.diff_self_of_replay {policy : VersionPolicy} {cs : List Command} {s : Schema}
    (h : replay policy cs = .ok s) : s.diff s = [] := by
  refine List.filterMap_eq_nil_iff.mpr fun d hd => ?_
  have hthere : s.document? d.name = some d :=
    (Evolution.document?_eq_some_iff_of_replay h).mpr ⟨hd, rfl⟩
  have horigins := Evolution.originsSince_currentVersion_of_replay h d.name
  have hsame := FieldDiff.ofDocuments_nil_self (Evolution.nodup_fieldNames_of_replay h hd)
  exact Document.entryOf?_eq_none_iff.mpr ⟨d, hthere, horigins.symm ▸ hsame⟩

/-! ## Drafting again -/

namespace Script

variable {d d' : Disk} {p : Path} {script : Script}

theorem file?_of_load (h : load d p = .ok script) : ∃ text, d.file? p = some (.text text) := by
  rw [load] at h
  split at h
  · cases h
  · next text hread => exact ⟨text, Disk.file?_of_readText hread⟩

/-- A script is read from its text alone. -/
theorem load_congr (hfile : d'.file? p = d.file? p) (h : load d p = .ok script) :
    load d' p = .ok script := by
  obtain ⟨text, htext⟩ := file?_of_load h
  rw [load, (Disk.readText_of_file? htext).1] at h
  rw [load, (Disk.readText_of_file? (hfile.trans htext)).1]
  exact h

end Script

namespace Settings

open Disk

variable {settings : Settings} {time : String} {d d' : Disk} {script : Path} {draft next : Draft}

/-- **With the same script and the artifact of the last draft, the same is drafted**, for another
time and without changes. -/
theorem draft_again (h : settings.draft time d script = .ok draft)
    (hscript : d'.file? script = d.file? script)
    (hhistory : d'.file? settings.historyPath = some (.text draft.artifact.text))
    (later : String) :
    settings.draft later d' script
      = .ok ⟨{ draft.artifact with generatedAt := later }, [], draft.files⟩ := by
  obtain ⟨commands, schema, -, hload, hreplay, -, hfiles, hartifact, -⟩ := draft_eq_ok_iff.mp h
  rw [hartifact] at hhistory ⊢
  have hprevious := Artifact.load_of_file? hhistory
  rw [Artifact.isIntact_ofSchema, if_pos rfl] at hprevious
  have hnone : (Artifact.ofSchema schema engineVersion time).schema.diff schema = [] :=
    Schema.diff_self_of_replay hreplay
  exact draft_eq_ok_iff.mpr ⟨commands, schema, _, Script.load_congr hscript hload, hreplay,
    hprevious, hfiles, rfl, hnone.symm⟩

/-! ## Writing again -/

/-- The script, the history file and the files of the draft all have places of their own. -/
def FilesApart (settings : Settings) (d : Disk) (script : Path) (draft : Draft) : Prop :=
  (d.place script :: d.place settings.historyPath
    :: draft.files.map fun file => d.place (settings.outputPath.join file.name)).Nodup

/-- All that the draft says has been written. -/
structure Written (settings : Settings) (d : Disk) (draft : Draft) : Prop where
  output : d.Prepared settings.outputPath
  files : ∀ file ∈ draft.files, d.Saved (settings.outputPath.join file.name) file.text
  history : d.Saved settings.historyPath draft.artifact.text

/-- **What is written is there, and the script still is.** -/
theorem written_of_write (hapart : settings.FilesApart d script draft)
    (h : settings.write d draft = (d', none)) :
    settings.Written d' draft ∧ Keeps (d.place script) d d' := by
  obtain ⟨hscript, hrest⟩ := List.nodup_cons.mp hapart
  obtain ⟨hhistory, hfiles⟩ := List.nodup_cons.mp hrest
  rw [List.mem_cons, not_or] at hscript
  obtain ⟨d₁, d₂, hmade, hsaved, hlast⟩ := write_eq_none_iff.mp h
  -- What each of the three steps keeps, where places are those on the first disk.
  have hmaking (loc : Location) : Keeps loc d d₁ := by
    have hkeeps := keeps_createDirectories loc d settings.outputPath
    rwa [hmade] at hkeeps
  have hplace₁ (p : Path) : d₁.place p = d.place p :=
    place_congr (hmaking []).workingDirectory_eq p
  have hsaving {loc : Location}
      (hloc : loc ∉ draft.files.map fun file => d.place (settings.outputPath.join file.name)) :
      Keeps loc d₁ d₂ := by
    have hkeeps : Keeps loc d₁ (d₁.saveAll settings.outputPath draft.files).1 :=
      keeps_saveAll fun file hfile heq =>
        hloc (List.mem_map.mpr ⟨file, hfile, (hplace₁ _).symm.trans heq⟩)
    rwa [hsaved] at hkeeps
  have hplace₂ (p : Path) : d₂.place p = d.place p :=
    (place_congr (hsaving hhistory).workingDirectory_eq p).trans (hplace₁ p)
  have hending {loc : Location} (hloc : loc ≠ d.place settings.historyPath) : Keeps loc d₂ d' := by
    have hkeeps := keeps_save (hplace₂ settings.historyPath ▸ hloc.symm) draft.artifact.text
    rwa [hlast] at hkeeps
  have hkept : Keeps (d.place script) d₁ d' := (hsaving hscript.2).trans (hending hscript.1)
  refine ⟨⟨?_, fun file hfile => ?_, saved_of_save hlast⟩, (hmaking _).trans hkept⟩
  · exact hkept.prepared (prepared_of_createDirectories hmade)
  · have hfiles₁ : (draft.files.map fun file =>
        d₁.place (settings.outputPath.join file.name)).Nodup := by simpa only [hplace₁] using hfiles
    refine (saved_of_saveAll hfiles₁ hsaved file hfile).keeps (hplace₂ _ ▸ hending ?_)
    exact fun heq => hhistory (List.mem_map.mpr ⟨file, hfile, heq⟩)

/-- **What has been written is written again as if only the artifact were**: no entry of the disk
changes but the history file. -/
theorem Written.write (h : settings.Written d draft) (hsteady : true ∉ d.outages)
    (hfiles : next.files = draft.files) :
    ∃ d', settings.write d next = (d', none)
      ∧ d'.entries = set (d.place settings.historyPath) (.file (.text next.artifact.text))
          d.entries := by
  let d₁ : Disk := { d with outages := d.outages.drop draft.files.length }
  have hhistory : d₁.Saved settings.historyPath draft.artifact.text :=
    h.history.keeps (keeps_outages _ d _)
  have hsteady₁ : true ∉ d₁.outages := fun htrue => hsteady (List.mem_of_mem_drop htrue)
  have hlast := hhistory.save hsteady₁ next.artifact.text
  refine ⟨_, write_eq_none_iff.mpr ⟨d, d₁, createDirectories_of_prepared h.output, ?_, hlast⟩, rfl⟩
  rw [hfiles]
  exact saveAll_same h.files hsteady

end Settings

/-! ## The run made again -/

namespace Run

open Disk

variable {run : Run} {report : Report}

/-- The same run on the disk that it has left, at another time. -/
def again (run : Run) (time : String) : Run :=
  { run with time := time, before := run.after }

/-- The script, the history file and the files that the run generates all have places of their own.
-/
def FilesApart (run : Run) : Prop :=
  ∀ draft, run.settings.draft run.time run.before run.script = .ok draft →
    run.settings.FilesApart run.before run.script draft

theorem filesApart_of_names {script : Script} {s : Schema} {names : List String}
    (hscript : Script.load run.before run.script = .ok script)
    (hreplay : replay run.settings.policy script.commands = .ok s)
    (hnames : s.upcastFiles.map (List.map GeneratedFile.name) = .ok names)
    (hapart : (run.before.place run.script :: run.before.place run.settings.historyPath
      :: names.map fun name => run.before.place (run.settings.outputPath.join name)).Nodup) :
    run.FilesApart := by
  intro draft hdraft
  obtain rfl := Settings.names_of_draft hdraft hscript hreplay hnames
  rwa [List.map_map] at hapart

/-- **A run that has succeeded succeeds again**, unless the disk fails.  It reports the same, but no
changes, and leaves everything as it was but the time that is noted in the history file. -/
theorem again_changes_only_time (hreport : run.report? = some report) (hapart : run.FilesApart)
    (hsteady : true ∉ run.after.outages) (time : String) :
    (run.again time).report? = some { report with changes := [] }
      ∧ Report.isBreaking { report with changes := [] } = false
      ∧ (∀ loc, loc ≠ run.after.place run.settings.historyPath →
          (run.again time).after.entry? loc = run.after.entry? loc)
      ∧ ∃ a : Artifact, run.after.file? run.settings.historyPath = some (.text a.text)
        ∧ (run.again time).after.file? run.settings.historyPath
          = some (.text { a with generatedAt := time }.text) := by
  obtain ⟨draft, hdraft, hwrite, rfl⟩ := exists_draft_of_report hreport
  obtain ⟨hwritten, hkeeps⟩ := Settings.written_of_write (hapart draft hdraft) hwrite
  obtain ⟨commands, -, -, hload, -⟩ := Settings.draft_eq_ok_iff.mp hdraft
  obtain ⟨text, htext⟩ := Script.file?_of_load hload
  have hscript := (hkeeps.file?_eq (reaches_of_file? htext)).2
  let next : Draft := ⟨{ draft.artifact with generatedAt := time }, [], draft.files⟩
  have hnext : run.settings.draft time run.after run.script = .ok next :=
    Settings.draft_again hdraft hscript hwritten.history.file?_eq time
  have hfiles : next.files = draft.files := rfl
  obtain ⟨d, hrewrite, hentries⟩ := hwritten.write hsteady hfiles
  have hresult : (run.again time).result = _ := result_of_write hnext hrewrite
  have hafter : (run.again time).after = d := congrArg Prod.fst hresult
  have hhistory : d.file? run.settings.historyPath = some (.text next.artifact.text) :=
    Settings.file?_of_write hrewrite
  rw [report?, hresult, hafter]
  refine ⟨rfl, rfl, fun loc hne => ?_, draft.artifact, hwritten.history.file?_eq, hhistory⟩
  rw [entry_of_set hentries (place_ne_nil_of_file? hwritten.history.file?_eq), if_neg hne]

/-- The run that follows the broken-off one, made again the day after. -/
theorem again_changes_only_time_repeatedRun :
    let run := Session.repeatedRun
    ∃ report, run.report? = some report ∧ report.schema = Session.declaredSchema ∧ run.FilesApart
      ∧ true ∉ run.after.outages
      ∧ (run.again "2024-02-01T09:30:00Z").report? = some { report with changes := [] }
      ∧ Report.isBreaking { report with changes := [] } = false
      ∧ (∀ loc, loc ≠ run.after.place run.settings.historyPath →
          (run.again "2024-02-01T09:30:00Z").after.entry? loc = run.after.entry? loc)
      ∧ ∃ a : Artifact, run.after.file? run.settings.historyPath = some (.text a.text)
        ∧ (run.again "2024-02-01T09:30:00Z").after.file? run.settings.historyPath
          = some (.text { a with generatedAt := "2024-02-01T09:30:00Z" }.text) := by
  intro run
  obtain ⟨report, hreport, hschema⟩ := Option.map_eq_some_iff.mp Session.schema_repeatedRun
  have hscript : Script.load run.before run.script = .ok ⟨[⟨"U", 1, .declare []⟩]⟩ := by
    decide +kernel
  have hreplay : replay run.settings.policy [⟨"U", 1, .declare []⟩] = .ok Session.declaredSchema :=
    rfl
  have hnames : Session.declaredSchema.upcastFiles.map (List.map GeneratedFile.name)
      = .ok ["u.migrations.ts", "index.ts"] := by decide +kernel
  have hapart : run.FilesApart := filesApart_of_names hscript hreplay hnames (by decide +kernel)
  have hsteady : true ∉ run.after.outages := by decide +kernel
  exact ⟨report, hreport, hschema, hapart, hsteady,
    again_changes_only_time hreport hapart hsteady _⟩

end Run

end SchemaLog
