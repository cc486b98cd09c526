import SchemaLog.Proofs.Collisions
import SchemaLog.Proofs.Sessions

/-!
# Proofs/Hindrances — what fails before the first write leaves the disk alone

    script ──▸ schema ──▸ artifact of the last run ──▸ modules    ┊  directories, files
    unloadable refused    unloadable                   colliding  ┊  access

A run learns from the disk as it finds it what it has to write, and whatever keeps it from that
(`Settings.Hindered`) comes in front of the dotted line: the script cannot be loaded, its replay is
refused, the last artifact cannot be loaded, or two documents collide.  These are exactly the ways
in which no draft is made (`Settings.draft_eq_error_iff`).  Behind the line only the disk itself can
fail, and all that is said then is at which path (`Settings.access_of_write`).
-/

namespace SchemaLog

/-! ## Loading -/

/-- What keeps a script from being loaded: its file cannot be read, or holds no script. -/
inductive Script.Unloadable (d : Disk) (p : Path) : Failure → Prop
  | unread (fault : DiskFault) (hread : d.readText p = .error fault) : Unloadable d p (.access p)
  | malformed (text : String) (fault : ScriptFault) (hread : d.readText p = .ok text)
      (hparse : parse text = .error fault) : Unloadable d p (.script fault)

/-- What keeps an artifact from being loaded: there is something that cannot be read, or that is no
artifact, or the hash in it is not the one of its schema. -/
inductive Artifact.Unloadable (d : Disk) (p : Path) : Failure → Prop
  | unread (fault : DiskFault) (hexists : d.exists? p = true)
      (hread : d.readText p = .error fault) : Unloadable d p (.access p)
  | malformed (text : String) (hread : d.readText p = .ok text) (hparse : parse? text = none) :
      Unloadable d p (.artifact p)
  | altered (text : String) (a : Artifact) (hread : d.readText p = .ok text)
      (hparse : parse? text = some a) (hhash : a.schema.hash ≠ a.hash) :
      Unloadable d p (.hashMismatch p a.hash a.schema.hash)

variable {d d' : Disk} {p script directory : Path} {failure : Failure}

theorem Script.load_eq_error_iff : load d p = .error failure ↔ Unloadable d p failure := by
  constructor
  · intro h
    rw [load] at h
    rcases hread : d.readText p with fault | text <;> simp only [hread] at h
    · cases h
      exact .unread fault hread
    · rcases hparse : parse text with fault | s <;> rw [hparse] at h <;> cases h
      exact .malformed text fault hread hparse
  · rintro (⟨fault, hread⟩ | ⟨text, fault, hread, hparse⟩)
    · simp only [load, hread]
    · simp only [load, hread, hparse, Except.mapError]

theorem Artifact.load_eq_error_iff : load d p = .error failure ↔ Unloadable d p failure := by
  constructor
  · intro h
    rw [load] at h
    split at h
    · next hexists =>
      rcases hread : d.readText p with fault | text <;> simp only [hread] at h
      · cases h
        exact .unread fault hexists hread
      rcases hparse : parse? text with _ | a <;> simp only [hparse] at h
      · cases h
        exact .malformed text hread hparse
      split at h
      · cases h
      · next hbroken =>
        cases h
        exact .altered text a hread hparse fun hhash => hbroken (beq_iff_eq.mpr hhash)
    · cases h
  · rintro (⟨fault, hexists, hread⟩ | ⟨text, hread, hparse⟩ | ⟨text, a, hread, hparse, hhash⟩)
    · simp only [load, hexists, if_true, hread]
    · simp only [load, Disk.exists?_of_readText hread, if_true, hread, hparse]
    · have hbroken : ¬ a.isIntact = true := fun h => hhash (beq_iff_eq.mp h)
      simp only [load, Disk.exists?_of_readText hread, if_true, hread, hparse, if_neg hbroken]

/-! ## Writing -/

theorem Failure.eq_access_of_at {attempt : Disk × Option DiskFault}
    (h : Failure.at p attempt = (d', some failure)) : failure = .access p := by
  obtain ⟨d₁, _ | fault⟩ := attempt <;> cases h
  rfl

namespace Disk

variable {text : String}

theorem access_of_save (h : d.save p text = (d', some failure)) :
    ∃ path, failure = .access path := by
  rw [save] at h
  rcases hprepare : d.prepare p with ⟨d₁, _ | fault⟩ <;> rw [hprepare] at h
  · exact ⟨p, Failure.eq_access_of_at h⟩
  · cases h
    rw [prepare] at hprepare
    split at hprepare
    · cases hprepare
    · next parent _ => exact ⟨parent, Failure.eq_access_of_at hprepare⟩

theorem access_of_saveAll : ∀ {files : List GeneratedFile} {d : Disk},
    d.saveAll directory files = (d', some failure) → ∃ path, failure = .access path
  | [], d, h => by cases h
  | file :: rest, d, h => by
    rw [saveAll] at h
    rcases hsave : d.save (directory.join file.name) file.text with ⟨d₁, _ | fault⟩ <;>
      rw [hsave] at h
    · exact access_of_saveAll h
    · cases h
      exact access_of_save hsave

theorem access_of_saveBelow {files : List GeneratedFile}
    (h : d.saveBelow directory files = (d', some failure)) : ∃ path, failure = .access path := by
  rw [saveBelow] at h
  rcases hmade : Failure.at directory (d.createDirectories directory) with ⟨d₁, _ | fault⟩ <;>
    rw [hmade] at h
  · exact access_of_saveAll h
  · cases h
    exact ⟨directory, Failure.eq_access_of_at hmade⟩

end Disk

namespace Settings

variable {settings : Settings} {time : String} {draft : Draft} {s : Schema}

/-- **Where writing fails, what is said is at which path.** -/
theorem access_of_write (h : settings.write d draft = (d', some failure)) :
    ∃ path, failure = .access path := by
  rw [write] at h
  rcases hbelow : d.saveBelow settings.outputPath draft.files with ⟨d₁, _ | fault⟩ <;>
    rw [hbelow] at h
  · exact Disk.access_of_save h
  · cases h
    exact Disk.access_of_saveBelow hbelow

/-! ## Drafting -/

/-- The script leads to a schema. -/
def LeadsTo (settings : Settings) (d : Disk) (script : Path) (s : Schema) : Prop :=
  ∃ commands, Script.load d script = .ok commands
    ∧ replay settings.policy commands.commands = .ok s

/-- What keeps a run from knowing what it has to write, the earlier causes first. -/
inductive Hindered (settings : Settings) (d : Disk) (script : Path) : Failure → Prop
  | unloadable {failure : Failure} (hscript : Script.Unloadable d script failure) :
      Hindered settings d script failure
  | refused (commands : Script) (refusal : Refusal) (hload : Script.load d script = .ok commands)
      (hreplay : replay settings.policy commands.commands = .error refusal) :
      Hindered settings d script (.replay refusal)
  | unloadableArtifact {failure : Failure} (s : Schema) (hleads : settings.LeadsTo d script s)
      (hartifact : Artifact.Unloadable d settings.historyPath failure) :
      Hindered settings d script failure
  | colliding (s : Schema) (previous : Option Artifact) (file first second : String)
      (hleads : settings.LeadsTo d script s)
      (hprevious : Artifact.load d settings.historyPath = .ok previous)
      (hfault : s.upcastFiles = .error (.collision file first second)) :
      Hindered settings d script (.upcast (.collision file first second))

/-- **No draft is made exactly where something hinders it.** -/
theorem draft_eq_error_iff :
    settings.draft time d script = .error failure ↔ settings.Hindered d script failure := by
  simp only [draft, bind_eq_error_iff, mapError_eq_error_iff, mapError_eq_ok_iff, pure, Except.pure,
    reduceCtorEq, and_false, exists_false, or_false]
  constructor
  · rintro (hscript | ⟨commands, hload, ⟨refusal, hreplay, rfl⟩ | ⟨s, hreplay,
      hartifact | ⟨previous, hprevious, fault, hfault, rfl⟩⟩⟩)
    · exact .unloadable (Script.load_eq_error_iff.mp hscript)
    · exact .refused commands refusal hload hreplay
    · have hartifact := Artifact.load_eq_error_iff.mp hartifact
      exact .unloadableArtifact s ⟨commands, hload, hreplay⟩ hartifact
    · obtain ⟨file, first, second, rfl⟩ := Schema.exists_collision_of_fault hreplay hfault
      exact .colliding s previous file first second ⟨commands, hload, hreplay⟩ hprevious hfault
  · rintro (hscript | ⟨commands, refusal, hload, hreplay⟩
      | ⟨s, ⟨commands, hload, hreplay⟩, hartifact⟩
      | ⟨s, previous, file, first, second, ⟨commands, hload, hreplay⟩, hprevious, hfault⟩)
    · exact .inl (Script.load_eq_error_iff.mpr hscript)
    · exact .inr ⟨commands, hload, .inl ⟨refusal, hreplay, rfl⟩⟩
    · have hartifact := Artifact.load_eq_error_iff.mpr hartifact
      exact .inr ⟨commands, hload, .inr ⟨s, hreplay, .inl hartifact⟩⟩
    · exact .inr ⟨commands, hload, .inr ⟨s, hreplay, .inr ⟨previous, hprevious, _, hfault, rfl⟩⟩⟩

/-- Two documents that meet hinder a run, once the last artifact is loaded. -/
theorem exists_hindered_of_meets {previous : Option Artifact} {a b : Document}
    (hleads : settings.LeadsTo d script s)
    (hprevious : Artifact.load d settings.historyPath = .ok previous)
    (ha : a ∈ s.documents) (hb : b ∈ s.documents) (hne : a ≠ b)
    (hmeets : UpcastModule.Meets a.name b.name) :
    ∃ file first second, settings.Hindered d script (.upcast (.collision file first second)) := by
  obtain ⟨commands, hload, hreplay⟩ := hleads
  rcases Schema.upcastFiles_cases hreplay with ⟨hapart, -⟩ | ⟨first, second, -, hfault⟩
  · exact absurd hmeets ((Schema.pairwise_apart_iff hreplay).mp hapart a ha b hb hne)
  · exact ⟨_, first, second,
      .colliding s previous _ first second ⟨commands, hload, hreplay⟩ hprevious hfault⟩

/-- **A run fails as it is hindered, or else in writing.** -/
theorem failed_cases (h : settings.regenerate time d script = (d', .error failure)) :
    (settings.Hindered d script failure ∧ d' = d)
      ∨ ∃ draft, settings.draft time d script = .ok draft
        ∧ settings.write d draft = (d', some failure) := by
  rw [regenerate] at h
  rcases hdraft : settings.draft time d script with fault | draft <;> simp only [hdraft] at h
  · cases h
    exact .inl ⟨draft_eq_error_iff.mp hdraft, rfl⟩
  · rcases hwrite : settings.write d draft with ⟨d₁, _ | fault⟩ <;> rw [hwrite] at h <;> cases h
    exact .inr ⟨draft, rfl, hwrite⟩

end Settings

/-! ## Runs that fail -/

namespace Run

/-- What keeps a run from knowing what it has to write. -/
def Hindered (run : Run) (failure : Failure) : Prop :=
  run.settings.Hindered run.before run.script failure

theorem exists_failure_of_report? {run : Run} (h : run.report? = none) :
    ∃ failure, run.result = (run.after, .error failure) := by
  rcases hresult : run.result with ⟨d', failure | report⟩
  · exact ⟨failure, by rw [after, hresult]⟩
  · rw [report?, hresult] at h
    cases h

/-- **A run that is hindered leaves the disk as it was**, the outages too, so that not even an
attempt has been made to change it.  A run that fails has been hindered, or its failure is that of a
path and nothing has hindered it; so no failure of another kind comes with a changed disk. -/
theorem unchanged_of_hindered (run : Run) :
    (∀ failure, run.Hindered failure → run.result = (run.before, .error failure))
      ∧ (∀ d' failure, run.result = (d', .error failure) →
          (run.Hindered failure ∧ d' = run.before)
            ∨ ((∀ other, ¬ run.Hindered other) ∧ ∃ path, failure = .access path))
      ∧ ∀ d' failure, run.result = (d', .error failure) →
          (∀ path, failure ≠ .access path) → d' = run.before := by
  have hcases (d' failure) (h : run.result = (d', .error failure)) :
      (run.Hindered failure ∧ d' = run.before)
        ∨ ((∀ other, ¬ run.Hindered other) ∧ ∃ path, failure = .access path) := by
    refine (Settings.failed_cases h).imp_right ?_
    rintro ⟨draft, hdraft, hwrite⟩
    refine ⟨fun other hother => ?_, Settings.access_of_write hwrite⟩
    cases hdraft.symm.trans (Settings.draft_eq_error_iff.mpr hother)
  refine ⟨fun failure h => ?_, hcases, fun d' failure h hkind => ?_⟩
  · rw [result, Settings.regenerate, Settings.draft_eq_error_iff.mpr h]
  · rcases hcases d' failure h with ⟨-, heq⟩ | ⟨-, path, heq⟩
    · exact heq
    · exact absurd heq (hkind path)

/-- A run whose script declares two documents that ask for one file. -/
def meetingRun : Run :=
  Session.runAt ⟨["home"], [(["home"], .directory),
      (["one.json", "home"],
        .file (.text "[[\"newDocument\",\"User\",[],1],[\"newDocument\",\"user\",[],1]]"))],
    []⟩ "one.json"

theorem hindered_meetingRun : ∃ file first second,
    meetingRun.Hindered (.upcast (.collision file first second)) := by
  have hfacts : Script.load meetingRun.before meetingRun.script
        = .ok ⟨[⟨"User", 1, .declare []⟩, ⟨"user", 1, .declare []⟩]⟩
      ∧ Artifact.load meetingRun.before meetingRun.settings.historyPath = .ok none
      ∧ UpcastModule.Meets "User" "user" := by decide +kernel
  obtain ⟨hload, hprevious, hmeets⟩ := hfacts
  exact Settings.exists_hindered_of_meets (a := ⟨"User", [], 1⟩) (b := ⟨"user", [], 1⟩)
    ⟨_, hload, rfl⟩ hprevious (.head _) (.tail _ (.head _)) (by decide) hmeets

/-- The run with the two documents writes nothing, while the one that breaks off has not been
hindered and has changed the disk. -/
theorem unchanged_of_hindered_meetingRun :
    (∃ failure, meetingRun.Hindered failure
        ∧ meetingRun.result = (meetingRun.before, .error failure)
        ∧ (∀ path, failure ≠ .access path) ∧ meetingRun.after = meetingRun.before)
      ∧ ∃ path, Session.brokenOffRun.result
          = (Session.brokenOffRun.after, .error (.access path))
        ∧ Session.brokenOffRun.after ≠ Session.brokenOffRun.before
        ∧ ∀ other, ¬ Session.brokenOffRun.Hindered other := by
  obtain ⟨file, first, second, hhindered⟩ := hindered_meetingRun
  obtain ⟨hunchanged, -, hkind⟩ := unchanged_of_hindered meetingRun
  have hresult := hunchanged _ hhindered
  have hafter : meetingRun.after = meetingRun.before :=
    hkind _ (.upcast (.collision file first second)) (by rw [after, hresult]) nofun
  refine ⟨⟨_, hhindered, hresult, nofun, hafter⟩, ?_⟩
  have hfacts : Session.brokenOffRun.report?.isNone
      ∧ Session.brokenOffRun.after ≠ Session.brokenOffRun.before := by decide +kernel
  obtain ⟨hfailed, hchanged⟩ := hfacts
  obtain ⟨failure, hresult⟩ := exists_failure_of_report? (Option.isNone_iff_eq_none.mp hfailed)
  rcases (unchanged_of_hindered Session.brokenOffRun).2.1 _ failure hresult with
    ⟨-, heq⟩ | ⟨hnone, path, rfl⟩
  · exact absurd heq hchanged
  · exact ⟨path, hresult, hchanged, hnone⟩

end Run

end SchemaLog
