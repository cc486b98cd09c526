import SchemaLog.Proofs.Saving
import Mathlib.Data.List.Chain

/-!
# Proofs/Sessions — every run compares with the last one that succeeded

    run ✓        run ✗        run ✗        run ✓
      └─ history ─────────────────────────▸ ┘        differences to the first run's schema

Runs share a history file and nothing else.  A run that succeeds writes it last (`Settings.write`),
and one that fails keeps it, wherever it has come to; so what a run finds there is what the last run
that succeeded has left (`Session.holds`).  That others change scripts and outputs between the runs
plays no part, as they leave the history file alone (`LeavesAlone.of_editedAround`).
-/

namespace SchemaLog

/-! ## One run -/

namespace Settings

open Disk

variable {settings : Settings} {time : String} {d d' : Disk} {script : Path} {draft : Draft}

/-- A draft is made of the script that is read and of the artifact that is there. -/
theorem draft_eq_ok_iff :
    settings.draft time d script = .ok draft
      ↔ ∃ commands schema previous, Script.load d script = .ok commands
          ∧ replay settings.policy commands.commands = .ok schema
          ∧ Artifact.load d settings.historyPath = .ok previous
          ∧ schema.upcastFiles = .ok draft.files
          ∧ draft.artifact = .ofSchema schema engineVersion time
          ∧ draft.changes = (previous.map Artifact.schema).elim [] fun s => s.diff schema := by
  simp only [Settings.draft, bind_eq_ok_iff, mapError_eq_ok_iff]
  constructor
  · rintro ⟨commands, hscript, s, hreplay, previous, hload, files, hfiles, h⟩
    cases h
    exact ⟨commands, s, previous, hscript, hreplay, hload, hfiles, rfl, by cases previous <;> rfl⟩
  · rintro ⟨commands, s, previous, hscript, hreplay, hload, hfiles, hartifact, hchanges⟩
    obtain ⟨artifact, changes, files⟩ := draft
    obtain rfl : artifact = _ := hartifact
    obtain rfl : changes = _ := hchanges
    exact ⟨commands, hscript, s, hreplay, previous, hload, files, hfiles, by cases previous <;> rfl⟩

/-- What the script leads to decides which files are generated. -/
theorem names_of_draft {commands : Script} {s : Schema} {names : List String}
    (h : settings.draft time d script = .ok draft) (hscript : Script.load d script = .ok commands)
    (hreplay : replay settings.policy commands.commands = .ok s)
    (hnames : s.upcastFiles.map (List.map GeneratedFile.name) = .ok names) :
    draft.files.map GeneratedFile.name = names := by
  obtain ⟨commands', s', -, hscript', hreplay', -, hfiles, -⟩ := draft_eq_ok_iff.mp h
  obtain rfl : commands = commands' := Except.ok.inj (hscript.symm.trans hscript')
  obtain rfl : s = s' := Except.ok.inj (hreplay.symm.trans hreplay')
  rw [hfiles] at hnames
  exact Except.ok.inj hnames

/-- **The artifact is written last**: a run that fails keeps the history file if no generated file
goes to its place. -/
theorem keeps_write_of_failed {failure : Failure}
    (hapart : ∀ file ∈ draft.files,
      d.place (settings.outputPath.join file.name) ≠ d.place settings.historyPath)
    (h : settings.write d draft = (d', some failure)) :
    Keeps (d.place settings.historyPath) d d' := by
  have hkeeps := keeps_saveBelow hapart
  rw [write] at h
  rcases heq : d.saveBelow settings.outputPath draft.files with ⟨d₁, _ | failure'⟩ <;>
    rw [heq] at h hkeeps
  · exact hkeeps.trans (keeps_save_of_failed h _)
  · cases h
    exact hkeeps

/-- Writing makes the directory, saves the files, and saves the artifact. -/
theorem write_eq_none_iff :
    settings.write d draft = (d', none) ↔ ∃ d₁ d₂,
      d.createDirectories settings.outputPath = (d₁, none)
        ∧ d₁.saveAll settings.outputPath draft.files = (d₂, none)
        ∧ d₂.save settings.historyPath draft.artifact.text = (d', none) := by
  rw [Settings.write, saveBelow, Failure.at]
  rcases d.createDirectories settings.outputPath with ⟨d₁, _ | fault⟩ <;> simp only [Option.map]
  · rcases hsaved : d₁.saveAll settings.outputPath draft.files with ⟨d₂, _ | failure⟩ <;>
      simp [hsaved]
  · simp

theorem file?_of_write (h : settings.write d draft = (d', none)) :
    d'.file? settings.historyPath = some (.text draft.artifact.text) := by
  obtain ⟨_, _, -, -, hlast⟩ := write_eq_none_iff.mp h
  exact file?_of_save hlast

end Settings

/-- A run, and the disk that it finds. -/
structure Run where
  settings : Settings
  time : String
  script : Path
  before : Disk

namespace Run

/-- What the run leaves, and its report or why it has failed. -/
def result (run : Run) : Disk × Except Failure Report :=
  run.settings.regenerate run.time run.before run.script

/-- The disk that the run leaves. -/
def after (run : Run) : Disk := run.result.1

/-- The report, if the run succeeds. -/
def report? (run : Run) : Option Report := run.result.2.toOption

/-- The report of the last run that succeeded. -/
def lastReport? (runs : List Run) : Option Report :=
  (runs.filterMap report?).getLast?

/-- No file that the run generates has the place of the history file. -/
def WritesApart (run : Run) (history : Path) : Prop :=
  ∀ draft, run.settings.draft run.time run.before run.script = .ok draft →
    ∀ file ∈ draft.files,
      run.before.place (run.settings.outputPath.join file.name) ≠ run.before.place history

theorem writesApart_of_names {run : Run} {history : Path} {script : Script} {s : Schema}
    {names : List String} (hscript : Script.load run.before run.script = .ok script)
    (hreplay : replay run.settings.policy script.commands = .ok s)
    (hnames : s.upcastFiles.map (List.map GeneratedFile.name) = .ok names)
    (hapart : ∀ name ∈ names,
      run.before.place (run.settings.outputPath.join name) ≠ run.before.place history) :
    run.WritesApart history := by
  intro draft hdraft file hfile
  obtain rfl := Settings.names_of_draft hdraft hscript hreplay hnames
  exact hapart file.name (List.mem_map_of_mem hfile)

@[simp] theorem lastReport?_nil : lastReport? [] = none := rfl

theorem lastReport?_concat (runs : List Run) (run : Run) :
    lastReport? (runs ++ [run]) = run.report?.or (lastReport? runs) := by
  rw [lastReport?, lastReport?, List.filterMap_append]
  rcases hreport : run.report? with _ | report <;> simp [hreport]

end Run

/-- The history file is as the last run that succeeded has left it. -/
structure Holds (history : Path) (last : Option Report) (d : Disk) : Prop where
  reaches : d.Reaches history
  file?_eq : match last with
    | none => d.file? history = none
    | some report => ∃ a : Artifact, a.isIntact ∧ a.schema = report.schema ∧ a.hash = report.hash
        ∧ d.file? history = some (.text a.text)

namespace Holds

variable {history : Path} {last : Option Report} {d d' : Disk} {report : Report}

/-- **What is loaded is the schema of the last run that succeeded.** -/
theorem map_schema_of_load (h : Holds history last d) {previous : Option Artifact}
    (hload : Artifact.load d history = .ok previous) :
    previous.map Artifact.schema = last.map Report.schema := by
  have hfile := h.file?_eq
  rcases last with _ | report
  · rcases previous with _ | a
    · rfl
    · obtain ⟨s, hs⟩ := Artifact.file?_of_load hload
      cases hfile.symm.trans hs
  · obtain ⟨a, hintact, hschema, -, htext⟩ := hfile
    rw [Artifact.load_of_file? htext, if_pos hintact] at hload
    cases hload
    exact congrArg some hschema

/-- Where the history file is kept, it still is what it was. -/
theorem keeps (h : Holds history last d) (hkeeps : Disk.Keeps (d.place history) d d') :
    Holds history last d' ∧ d'.file? history = d.file? history := by
  obtain ⟨hreaches, hfile⟩ := hkeeps.file?_eq h.reaches
  exact ⟨⟨hreaches, hfile ▸ h.file?_eq⟩, hfile⟩

end Holds

/-! ## What a run does to the history file -/

namespace Run

variable {history : Path} {last : Option Report} {run : Run} {report : Report}

/-- **A run that fails keeps the history file**: before all that is to be written is known nothing
is, and what is written then is something else. -/
theorem keeps_of_failed (hapart : run.WritesApart run.settings.historyPath)
    (h : run.report? = none) :
    Disk.Keeps (run.before.place run.settings.historyPath) run.before run.after := by
  rw [report?, result, Settings.regenerate] at h
  rw [after, result, Settings.regenerate]
  rcases hdraft : run.settings.draft run.time run.before run.script with failure | draft
  · exact .refl _ _
  · simp only [hdraft] at h ⊢
    rcases hwrite : run.settings.write run.before draft with ⟨d', _ | failure⟩ <;> rw [hwrite] at h
    · cases h
    · exact Settings.keeps_write_of_failed (hapart draft hdraft) hwrite

/-- A run that has drafted and written succeeds. -/
theorem result_of_write {draft : Draft} {d' : Disk}
    (hdraft : run.settings.draft run.time run.before run.script = .ok draft)
    (hwrite : run.settings.write run.before draft = (d', none)) :
    run.result = (d', .ok
      ⟨draft.artifact.schema, draft.changes, draft.artifact.hash, draft.files.length⟩) := by
  simp only [result, Settings.regenerate, hdraft, hwrite]

/-- What is reported of a run that has drafted and written. -/
theorem report?_of_write {draft : Draft}
    (hdraft : run.settings.draft run.time run.before run.script = .ok draft)
    (hwrite : (run.settings.write run.before draft).2 = none) :
    run.report? = some
      ⟨draft.artifact.schema, draft.changes, draft.artifact.hash, draft.files.length⟩ := by
  rw [report?, result_of_write hdraft (Prod.ext rfl hwrite)]
  rfl

/-- A run that succeeds has written what it has drafted. -/
theorem exists_draft_of_report (h : run.report? = some report) :
    ∃ draft, run.settings.draft run.time run.before run.script = .ok draft
      ∧ run.settings.write run.before draft = (run.after, none)
      ∧ report
        = ⟨draft.artifact.schema, draft.changes, draft.artifact.hash, draft.files.length⟩ := by
  rw [after]
  rw [report?] at h
  rcases hdraft : run.settings.draft run.time run.before run.script with failure | draft
  · simp only [result, Settings.regenerate, hdraft] at h
    cases h
  rcases hwrite : run.settings.write run.before draft with ⟨d', _ | failure⟩
  · rw [result_of_write hdraft hwrite] at h ⊢
    cases h
    exact ⟨draft, rfl, hwrite, rfl⟩
  · simp only [result, Settings.regenerate, hdraft, hwrite] at h
    cases h

/-- **A run that succeeds leaves the artifact of what it reports.** -/
theorem exists_artifact_of_report (h : run.report? = some report) :
    ∃ previous, Artifact.load run.before run.settings.historyPath = .ok previous
      ∧ report.changes = (previous.map Artifact.schema).elim [] (fun s => s.diff report.schema)
      ∧ ∃ a : Artifact, a.isIntact ∧ a.schema = report.schema ∧ a.hash = report.hash
        ∧ run.after.file? run.settings.historyPath = some (.text a.text) := by
  obtain ⟨draft, hdraft, hwrite, rfl⟩ := exists_draft_of_report h
  obtain ⟨-, schema, previous, -, -, hload, -, hartifact, hchanges⟩ :=
    Settings.draft_eq_ok_iff.mp hdraft
  have hintact : draft.artifact.isIntact := by
    rw [hartifact]
    exact Artifact.isIntact_ofSchema schema engineVersion run.time
  refine ⟨previous, hload, ?_, draft.artifact, hintact, rfl, rfl, Settings.file?_of_write hwrite⟩
  rw [hchanges, hartifact]
  rfl

/-- What holds of a run if `last` is the report of the last one before it that succeeded. -/
structure Follows (run : Run) (history : Path) (last : Option Report) : Prop where
  /-- The differences that it reports are those to the last schema. -/
  changes_eq : ∀ report, run.report? = some report →
    report.changes = last.elim [] fun earlier => earlier.schema.diff report.schema
  /-- What it has reported is loaded from the history file. -/
  load_eq : ∀ report, run.report? = some report →
    ∃ a, Artifact.load run.after history = .ok (some a)
      ∧ a.isIntact ∧ a.schema = report.schema ∧ a.hash = report.hash
  /-- If it fails, the history file is what it was. -/
  file?_eq : run.report? = none → run.after.file? history = run.before.file? history

/-- **A run that finds the last schema leaves the last schema**, which is its own if it succeeds. -/
theorem follows_and_holds (hshared : run.settings.historyPath = history)
    (hapart : run.WritesApart history) (h : Holds history last run.before) :
    run.Follows history last ∧ Holds history (run.report?.or last) run.after := by
  subst hshared
  rcases hreport : run.report? with _ | report
  · obtain ⟨hholds, hfile⟩ := h.keeps (keeps_of_failed hapart hreport)
    exact ⟨⟨by simp [hreport], by simp [hreport], fun _ => hfile⟩, hholds⟩
  · obtain ⟨previous, hload, hchanges, a, hintact, hschema, hhash, hfile⟩ :=
      exists_artifact_of_report hreport
    have hprevious := h.map_schema_of_load hload
    have hloaded : Artifact.load run.after run.settings.historyPath = .ok (some a) := by
      rw [Artifact.load_of_file? hfile, if_pos hintact]
    refine ⟨⟨fun report' h' => ?_, fun report' h' => ?_, by simp [hreport]⟩, ?_, ?_⟩
    · obtain rfl : report = report' := Option.some.inj (hreport.symm.trans h')
      rw [hchanges, hprevious]
      cases last <;> rfl
    · obtain rfl : report = report' := Option.some.inj (hreport.symm.trans h')
      exact ⟨a, hloaded, hintact, hschema, hhash⟩
    · exact Disk.reaches_of_file? hfile
    · exact ⟨a, hintact, hschema, hhash, hfile⟩

end Run

/-! ## Runs one after the other -/

/-- Others have left the history file alone: what is at its place, and that the path leads there. -/
structure LeavesAlone (history : Path) (d d' : Disk) : Prop where
  workingDirectory_eq : d'.workingDirectory = d.workingDirectory
  entry_eq : d'.entry? (d.place history) = d.entry? (d.place history)
  file?_eq : d'.file? history = d.file? history

/-- **Others who write and take away no more than other files leave a history file alone.** -/
theorem LeavesAlone.of_editedAround {history : Path} {content : Content} {d d' : Disk}
    (hfile : d.file? history = some content) (h : d.EditedAround (d.place history) d') :
    LeavesAlone history d d' where
  workingDirectory_eq := h.keeps.workingDirectory_eq
  entry_eq := by
    have hentry := Disk.entry_place_of_file? hfile
    rw [hentry]
    exact (h.keeps.file_iff content).mpr hentry
  file?_eq := (h.keeps.file?_eq (Disk.reaches_of_file? hfile)).2

theorem Holds.leavesAlone {history : Path} {last : Option Report} {d d' : Disk}
    (h : Holds history last d) (halone : LeavesAlone history d d') : Holds history last d' where
  reaches content hentry := by
    rw [Disk.place_congr halone.workingDirectory_eq, halone.entry_eq] at hentry
    rw [halone.file?_eq, h.reaches content hentry]
  file?_eq := halone.file?_eq ▸ h.file?_eq

/-- Runs that share a history file, which is not there at first; between them others may change the
disk. -/
structure Session (history : Path) (runs : List Run) : Prop where
  shared : ∀ run ∈ runs, run.settings.historyPath = history
  apart : ∀ run ∈ runs, run.WritesApart history
  fresh : ∀ run ∈ runs.head?, ∀ content,
    run.before.entry? (run.before.place history) ≠ some (.file content)
  alone : runs.IsChain fun run next => LeavesAlone history run.after next.before

namespace Session

open Run

variable {history : Path} {runs earlier later : List Run} {run : Run}

theorem left_of_append (h : Session history (earlier ++ later)) : Session history earlier where
  shared run hrun := h.shared run (List.mem_append_left later hrun)
  apart run hrun := h.apart run (List.mem_append_left later hrun)
  fresh run hrun := h.fresh run (by rw [List.head?_append, Option.mem_def.mp hrun]; rfl)
  alone := h.alone.left_of_append

/-- **A run finds the history file as the last run that succeeded has left it.** -/
theorem holds (h : Session history (earlier ++ [run])) :
    Holds history (lastReport? earlier) run.before := by
  induction earlier using List.reverseRecOn generalizing run with
  | nil =>
    have hfresh := h.fresh run rfl
    refine ⟨fun content hentry => absurd hentry (hfresh content), ?_⟩
    rcases hfile : run.before.file? history with _ | content
    · rfl
    · exact absurd (Disk.entry_place_of_file? hfile) (hfresh content)
  | append_singleton earlier previous ih =>
    have hmem : previous ∈ earlier ++ [previous] ++ [run] := by simp
    have hholds := (follows_and_holds (h.shared previous hmem) (h.apart previous hmem)
      (ih h.left_of_append)).2
    rw [lastReport?_concat]
    exact hholds.leavesAlone ((List.isChain_append.mp h.alone).2.2 previous (by simp) run rfl)

/-- **Every run compares with the last one before it that succeeded**, and leaves its own schema in
the history file if it succeeds, and what it has found there if it fails. -/
theorem compares_with_last_success (h : Session history (earlier ++ run :: later)) :
    run.Follows history (lastReport? earlier) := by
  have hmem : run ∈ earlier ++ run :: later := by simp
  have hcut : Session history (earlier ++ [run] ++ later) := by
    rwa [List.append_assoc, List.singleton_append]
  have hholds := hcut.left_of_append.holds
  exact (follows_and_holds (h.shared run hmem) (h.apart run hmem) hholds).1

/-- A disk with a script, which fails when it is changed for the second time. -/
def scriptDisk : Disk :=
  ⟨["home"], [(["home"], .directory),
      (["one.json", "home"], .file (.text "[[\"newDocument\",\"U\",[],1]]"))],
    [false, true]⟩

/-- A run that keeps its history beside the script. -/
def runAt (before : Disk) (script : String) : Run :=
  ⟨⟨.nonDecreasing, "history.json", "out"⟩, "2024-01-31T12:00:00Z", ⟨script⟩, before⟩

theorem before_runAt (before : Disk) (script : String) :
    (runAt before script).before = before := rfl

/-- Fails when it writes the module for the document. -/
def brokenOffRun : Run := runAt scriptDisk "one.json"

/-- The same again, on the disk that the first try has left. -/
def repeatedRun : Run := runAt brokenOffRun.after "one.json"

/-- Somebody has emptied the script. -/
def emptiedDisk : Disk := (repeatedRun.after.writeWithParents ⟨"one.json"⟩ (.text "[]")).1

/-- Finds a script without any document. -/
def emptyingRun : Run := runAt emptiedDisk "one.json"

/-- What the first script leads to. -/
def declaredSchema : Schema :=
  ⟨⟨1, [.ofCommand ⟨"U", 1, .declare []⟩]⟩, [⟨"U", [], 1⟩]⟩

theorem schema_repeatedRun : repeatedRun.report?.map Report.schema = some declaredSchema := by
  decide +kernel

/-- Emptying the script is no business of the history file. -/
theorem leavesAlone_emptiedDisk :
    LeavesAlone ⟨"history.json"⟩ repeatedRun.after emptyingRun.before := by
  rw [emptyingRun, before_runAt, emptiedDisk]
  obtain ⟨report, hreport, -⟩ := Option.map_eq_some_iff.mp schema_repeatedRun
  obtain ⟨-, -, -, a, -, -, -, hfile⟩ := exists_artifact_of_report hreport
  have hapart : repeatedRun.after.place ⟨"one.json"⟩
      ≠ repeatedRun.after.place ⟨"history.json"⟩ := by decide +kernel
  have hedited := Disk.EditedAround.write .refl hapart "[]".toUTF8.data.toList
  rw [Content.ofBytes_data] at hedited
  exact .of_editedAround hfile hedited

/-- Each of the runs finds what has been left, and generates no file at the place of the history. -/
theorem session_emptyingRun :
    Session ⟨"history.json"⟩ [brokenOffRun, repeatedRun, emptyingRun] := by
  have halone : LeavesAlone ⟨"history.json"⟩ brokenOffRun.after repeatedRun.before := by
    rw [repeatedRun, before_runAt]
    exact ⟨rfl, rfl, rfl⟩
  have hdeclared : declaredSchema.upcastFiles.map (List.map GeneratedFile.name)
      = .ok ["u.migrations.ts", "index.ts"] := by decide +kernel
  have hfirst : ∀ run ∈ [brokenOffRun, repeatedRun],
      Script.load run.before run.script = .ok ⟨[⟨"U", 1, .declare []⟩]⟩
        ∧ replay run.settings.policy [⟨"U", 1, .declare []⟩] = .ok declaredSchema
        ∧ ∀ name ∈ ["u.migrations.ts", "index.ts"],
          run.before.place (run.settings.outputPath.join name)
            ≠ run.before.place ⟨"history.json"⟩ := by decide +kernel
  have hempty : (Schema.upcastFiles ⟨⟨0, []⟩, []⟩).map (List.map GeneratedFile.name)
      = .ok ["index.ts"] := rfl
  have hthird : Script.load emptyingRun.before emptyingRun.script = .ok ⟨[]⟩
      ∧ ∀ name ∈ ["index.ts"],
        emptyingRun.before.place (emptyingRun.settings.outputPath.join name)
          ≠ emptyingRun.before.place ⟨"history.json"⟩ := by decide +kernel
  have hfirstApart : ∀ run ∈ [brokenOffRun, repeatedRun], run.WritesApart ⟨"history.json"⟩ := by
    intro run hrun
    obtain ⟨hload, hreplay, hapart⟩ := hfirst run hrun
    exact writesApart_of_names hload hreplay hdeclared hapart
  have hthirdApart : emptyingRun.WritesApart ⟨"history.json"⟩ :=
    writesApart_of_names hthird.1 (replay_nil _) hempty hthird.2
  exact {
    shared := by decide +kernel
    apart := List.forall_mem_append.mpr ⟨hfirstApart, List.forall_mem_singleton.mpr hthirdApart⟩
    fresh := by
      rintro run ⟨⟩ content
      exact fun h => nomatch h
    alone := .cons_cons halone (.cons_cons leavesAlone_emptiedDisk (.singleton emptyingRun)) }

/-- What the third run writes: an index without any module. -/
def emptyingDraft : Draft :=
  ⟨.ofSchema ⟨⟨0, []⟩, []⟩ engineVersion "2024-01-31T12:00:00Z", [⟨"U", .removed⟩],
    [UpcastModule.indexFile []]⟩

/-- With the artifact of the second run, the third run succeeds. -/
theorem report?_emptyingRun {a : Artifact}
    (hload : Artifact.load emptyingRun.before ⟨"history.json"⟩ = .ok (some a))
    (hschema : a.schema = declaredSchema) :
    emptyingRun.report?
      = some ⟨⟨⟨0, []⟩, []⟩, [⟨"U", .removed⟩], emptyingDraft.artifact.hash, 1⟩ := by
  have hscript : Script.load emptyingRun.before emptyingRun.script = .ok ⟨[]⟩ := by decide +kernel
  have hchanges : (some a.schema).elim [] (fun s => s.diff ⟨⟨0, []⟩, []⟩) = [⟨"U", .removed⟩] :=
    hschema ▸ by decide
  have hwrite : (emptyingRun.settings.write emptyingRun.before emptyingDraft).2 = none :=
    Option.isNone_iff_eq_none.mp (by decide +kernel)
  have hdraft : emptyingRun.settings.draft emptyingRun.time emptyingRun.before emptyingRun.script
      = .ok emptyingDraft :=
    Settings.draft_eq_ok_iff.mpr
      ⟨⟨[]⟩, _, some a, hscript, replay_nil _, hload, rfl, rfl, hchanges.symm⟩
  exact report?_of_write hdraft hwrite

/-- The first of the runs is no success; the third is one, and compares with the second. -/
theorem compares_with_last_success_emptyingRun :
    Session ⟨"history.json"⟩ [brokenOffRun, repeatedRun, emptyingRun]
      ∧ brokenOffRun.report? = none
      ∧ repeatedRun.report?.map Report.schema = some declaredSchema
      ∧ emptyingRun.Follows ⟨"history.json"⟩ repeatedRun.report?
      ∧ ∃ report, emptyingRun.report? = some report
        ∧ report.changes = declaredSchema.diff report.schema
        ∧ report.changes = [⟨"U", .removed⟩] := by
  have hbrokenOff : brokenOffRun.report? = none := Option.isNone_iff_eq_none.mp (by decide +kernel)
  obtain ⟨declared, hdeclared, hschema⟩ := Option.map_eq_some_iff.mp schema_repeatedRun
  have hlast : lastReport? [brokenOffRun, repeatedRun] = repeatedRun.report? := by
    have hnone := lastReport?_concat [] brokenOffRun
    rw [List.nil_append, hbrokenOff, lastReport?_nil, Option.or_none] at hnone
    have hlast := lastReport?_concat [brokenOffRun] repeatedRun
    rwa [hnone, Option.or_none] at hlast
  have hthird : emptyingRun.Follows ⟨"history.json"⟩ (lastReport? [brokenOffRun, repeatedRun]) :=
    compares_with_last_success session_emptyingRun
  rw [hlast] at hthird
  have hholds : Holds ⟨"history.json"⟩ (lastReport? [brokenOffRun, repeatedRun])
      emptyingRun.before := session_emptyingRun.holds
  rw [hlast, hdeclared] at hholds
  obtain ⟨a, hintact, ha, -, hfile⟩ := hholds.file?_eq
  have hload := Artifact.load_of_file? hfile
  rw [if_pos hintact] at hload
  have hreport := report?_emptyingRun hload (ha.trans hschema)
  have hchanges := hthird.changes_eq _ hreport
  rw [hdeclared, Option.elim_some, hschema] at hchanges
  exact ⟨session_emptyingRun, hbrokenOff, schema_repeatedRun, hthird, _, hreport, hchanges, rfl⟩

end Session

end SchemaLog
