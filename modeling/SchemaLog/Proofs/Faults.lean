import SchemaLog.Proofs.Stages
import SchemaLog.Upcast.Collection

/-!
# Proofs/Faults — what cannot go wrong once a log is replayed

A schema keeps its documents beside the history that they come from, and the history is asked
without a look at the documents.  After a replay the two agree on which documents there are
(`WellFormed.declaredAt?_eq_none_iff`), and a declaration takes effect between its own stamp and the
current version.  So a history has an answer for every document, and what can go wrong when modules
are generated is left to their names.
-/

namespace SchemaLog

/-! ## The version of a declaration -/

/-- No step takes effect below its stamp. -/
theorem Step.version_le_of_mem_effectiveFrom :
    ∀ {steps : List Step} {reached : Version} {x : Version × Step},
      x ∈ effectiveFrom reached steps → x.2.version ≤ x.1
  | [], _, _, hx => absurd hx List.not_mem_nil
  | s :: rest, reached, x, hx => by
    rcases List.mem_cons.mp hx with rfl | hx
    · exact Std.right_le_max
    · exact version_le_of_mem_effectiveFrom hx

namespace Evolution

variable {e : Evolution} {name : String} {d : Document} {declared : Version}

/-- **The history declares the documents that are there**, and no others. -/
theorem WellFormed.declaredAt?_eq_none_iff (h : e.WellFormed) :
    e.resolve.declaredAt? name = none ↔ e.resolve.document? name = none := by
  rw [h.document?_resolve]
  constructor
  · intro hnone
    cases hd : e.document? name with
    | none => rfl
    | some d =>
      have hmem : d ∈ e.documents :=
        h.mem_documents_iff.mpr ((h.entry name d hd).name_eq.symm ▸ hd)
      obtain ⟨declared, hdeclared, -⟩ := h.exists_declaredAt? (h.resolve_documents ▸ hmem)
      rw [(h.entry name d hd).name_eq, hnone] at hdeclared
      cases hdeclared
  · intro hnone
    cases hdeclared : e.resolve.declaredAt? name with
    | none => rfl
    | some declared =>
      obtain ⟨s, hs, -, hdecl, rfl⟩ := History.exists_step_of_declaredAt? hdeclared
      obtain ⟨c, hc, rfl⟩ := List.mem_map.mp (h.steps_eq ▸ hs : s ∈ e.commands.map Step.ofCommand)
      exact absurd (h.mem_catalog_of_declares hc hdecl) (document?_eq_none_iff.mp hnone)

/-- A document is declared by one command only. -/
theorem WellFormed.version_of_declares (h : e.WellFormed) {c : Command} (hc : c ∈ e.commands)
    (hdecl : c.declares) (hd : e.document? c.document = some d) : c.version = d.version := by
  obtain ⟨b, hb, hdecl', hname, hversion⟩ := (h.entry c.document d hd).declaration
  have hnodup : ((e.commands.filter Command.declares).map Command.document).Nodup :=
    h.order_eq ▸ h.nodup_order
  have heq : b = c := List.inj_on_of_nodup_map hnodup (List.mem_filter.mpr ⟨hb, hdecl'⟩)
    (List.mem_filter.mpr ⟨hc, hdecl⟩) hname
  rw [← heq, hversion]

/-- **A declaration takes effect between its stamp and the current version.** -/
theorem WellFormed.declaredAt?_bounds (h : e.WellFormed)
    (hdeclared : e.resolve.declaredAt? name = some declared)
    (hd : e.resolve.document? name = some d) :
    d.version ≤ declared ∧ declared ≤ e.resolve.currentVersion := by
  rw [h.document?_resolve] at hd
  obtain ⟨s, hs, heffective, hdecl, rfl⟩ := History.exists_step_of_declaredAt? hdeclared
  refine ⟨?_, h.effective_le heffective⟩
  obtain ⟨c, hc, rfl⟩ := List.mem_map.mp (h.steps_eq ▸ hs : s ∈ e.commands.map Step.ofCommand)
  rw [← h.version_of_declares hc hdecl hd]
  exact Step.version_le_of_mem_effectiveFrom heffective

end Evolution

/-! ## Answers of a history -/

namespace History

variable {h : History} {document : String} {version : Version}

theorem plan_of_undeclared (hnone : h.declaredAt? document = none) (version : Version) :
    h.plan document version = .error (.unknownDocument document) := by
  rw [plan, if_pos (Option.isNone_iff_eq_none.mpr hnone)]

theorem plan_of_future (hdecl : (h.declaredAt? document).isSome)
    (hv : h.currentVersion < version) :
    h.plan document version = .error (.futureVersion version h.currentVersion) := by
  obtain ⟨declared, hdeclared⟩ := Option.isSome_iff_exists.mp hdecl
  rw [plan, hdeclared, if_neg (by simp), if_pos hv]

/-- There is a module for each document that was declared, and not ahead of the history. -/
theorem exists_upcastModule {declared : Version}
    (hdeclared : h.declaredAt? document = some declared) (hle : declared ≤ h.currentVersion) :
    ∃ m, h.upcastModule document = .ok m := by
  have hsome : (h.declaredAt? document).isSome := hdeclared ▸ rfl
  rw [upcastModule, hdeclared]
  simp only [plan_eq_ok hsome hle]
  exact ⟨_, rfl⟩

end History

/-! ## Claims on names -/

namespace UpcastModule

/-- **A claim is refused only for a name that is taken.** -/
theorem claim_refused {claims : Claims} {document : String} {fault : UpcastFault}
    (h : claim claims document = .error fault) :
    ∃ first, fault = .collision (fileName document) first document := by
  have hname : ∀ {claims name fault}, claimName claims document name = .error fault →
      ∃ first, fault = .collision (fileName document) first document := by
    intro claims name fault h
    rw [claimName] at h
    split at h
    · next first _ => exact ⟨first, (Except.error.inj h).symm⟩
    · cases h
  rw [claim] at h
  rcases hfile : claimName claims document (moduleName document) with fault' | claims'
  · rw [hfile] at h
    obtain rfl := Except.error.inj h
    exact hname hfile
  · rw [hfile] at h
    exact hname h

variable {h : History} {claims claims' : Claims} {d : Document} {m : UpcastModule}

theorem moduleFiles_of_refused {fault : UpcastFault} (hclaim : claim claims d.name = .error fault)
    (rest : List Document) : moduleFiles h claims (d :: rest) = .error fault := by
  rw [moduleFiles, hclaim]
  rfl

/-- A module is put in front of those of the other documents, if they can be generated. -/
theorem moduleFiles_of_claimed (hclaim : claim claims d.name = .ok claims')
    (hm : h.upcastModule d.name = .ok m) (rest : List Document) :
    moduleFiles h claims (d :: rest)
      = (moduleFiles h claims' rest).map (⟨fileName d.name, m.text⟩ :: ·) := by
  rw [moduleFiles, hclaim, hm]
  change (moduleFiles h claims' rest >>= fun files => _) = _
  cases moduleFiles h claims' rest <;> rfl

/-- **Where every document has its module, names are all that can collide.** -/
theorem moduleFiles_ok_or_collision :
    ∀ {documents : List Document} (claims : Claims),
      (∀ d ∈ documents, ∃ m, h.upcastModule d.name = .ok m) →
        (∃ files, moduleFiles h claims documents = .ok files)
          ∨ ∃ file first second,
              moduleFiles h claims documents = .error (.collision file first second)
  | [], _, _ => .inl ⟨[], rfl⟩
  | d :: rest, claims, hmodules => by
    obtain ⟨⟨m, hm⟩, hrest⟩ := List.forall_mem_cons.mp hmodules
    rcases hclaim : claim claims d.name with fault | claims'
    · obtain ⟨first, rfl⟩ := claim_refused hclaim
      exact .inr ⟨_, _, _, moduleFiles_of_refused hclaim rest⟩
    · rw [moduleFiles_of_claimed hclaim hm]
      rcases moduleFiles_ok_or_collision claims' hrest with ⟨files, hok⟩ | ⟨_, _, _, hfault⟩
      · exact .inl ⟨_, by rw [hok]; rfl⟩
      · exact .inr ⟨_, _, _, by rw [hfault]; rfl⟩

end UpcastModule

/-! ## Replayed schemas -/

namespace Evolution

variable {policy : VersionPolicy} {cs : List Command} {s : Schema} {name : String}

theorem declaredAt?_eq_none_iff_of_replay (h : replay policy cs = .ok s) :
    s.declaredAt? name = none ↔ s.document? name = none := by
  obtain ⟨e, he, rfl⟩ := replay_eq_ok_iff.mp h
  exact (wellFormed_of_applyAll he).declaredAt?_eq_none_iff

/-- A document of a replayed schema was declared, and not ahead of it. -/
theorem exists_declaredAt?_of_replay (h : replay policy cs = .ok s) {d : Document}
    (hd : s.document? name = some d) :
    ∃ declared, s.declaredAt? name = some declared ∧ d.version ≤ declared
      ∧ declared ≤ s.currentVersion := by
  cases hdeclared : s.declaredAt? name with
  | none =>
    rw [(declaredAt?_eq_none_iff_of_replay h).mp hdeclared] at hd
    cases hd
  | some declared =>
    obtain ⟨e, he, rfl⟩ := replay_eq_ok_iff.mp h
    exact ⟨declared, rfl, (wellFormed_of_applyAll he).declaredAt?_bounds hdeclared hd⟩

/-- Every document of a replayed schema has its module. -/
theorem exists_upcastModule_of_replay (h : replay policy cs = .ok s) {d : Document}
    (hd : s.document? name = some d) : ∃ m, s.upcastModule name = .ok m := by
  obtain ⟨declared, hdeclared, -, hle⟩ := exists_declaredAt?_of_replay h hd
  exact History.exists_upcastModule hdeclared hle

/-- **After a replay a history has an answer for every document of the schema and for no other**,
at every version that is not ahead, and nothing but a collision of names keeps the modules from
being generated. -/
theorem answers_of_replay (h : replay policy cs = .ok s) (name : String) :
    ((s.declaredAt? name).isSome ↔ (s.document? name).isSome)
      ∧ (∀ d declared, s.document? name = some d → s.declaredAt? name = some declared →
          d.version ≤ declared ∧ declared ≤ s.currentVersion)
      ∧ (∀ version,
          (s.plan name version = .error (.unknownDocument name) ↔ s.document? name = none)
            ∧ ((s.document? name).isSome →
                (s.plan name version = .error (.futureVersion version s.currentVersion)
                  ↔ s.currentVersion < version)
                ∧ ((∃ plan, s.plan name version = .ok plan) ↔ version ≤ s.currentVersion)))
      ∧ ((∃ m, s.upcastModule name = .ok m) ↔ (s.document? name).isSome)
      ∧ ((∃ files, s.upcastFiles = .ok files)
          ∨ ∃ file first second, s.upcastFiles = .error (.collision file first second)) := by
  have hmodules : ∀ d ∈ s.documents, ∃ m, s.upcastModule d.name = .ok m := fun d hd =>
    exists_upcastModule_of_replay h ((document?_eq_some_iff_of_replay h).mpr ⟨hd, rfl⟩)
  have hfiles : (∃ files, s.upcastFiles = .ok files)
      ∨ ∃ file first second, s.upcastFiles = .error (.collision file first second) := by
    rcases UpcastModule.moduleFiles_ok_or_collision [] hmodules with
      ⟨files, hok⟩ | ⟨file, first, second, hfault⟩
    · exact .inl ⟨_, by rw [Schema.upcastFiles, hok]; rfl⟩
    · exact .inr ⟨file, first, second, by rw [Schema.upcastFiles, hfault]; rfl⟩
  cases hd : s.document? name with
  | none =>
    have hnone := (declaredAt?_eq_none_iff_of_replay h).mpr hd
    simp [hnone, History.plan_of_undeclared hnone, History.upcastModule, hfiles]
  | some d =>
    obtain ⟨declared, hdeclared, hversion, hle⟩ := exists_declaredAt?_of_replay h hd
    have hsome : (s.declaredAt? name).isSome := hdeclared ▸ rfl
    refine ⟨iff_of_true hsome rfl, ?_, fun version => ?_,
      iff_of_true (exists_upcastModule_of_replay h hd) rfl, hfiles⟩
    · rintro d' declared' hd' hdeclared'
      obtain rfl := Option.some.inj hd'
      obtain rfl := Option.some.inj (hdeclared.symm.trans hdeclared')
      exact ⟨hversion, hle⟩
    · rcases UInt32.lt_or_le s.currentVersion version with hfuture | hpast
      · have hplan := History.plan_of_future hsome hfuture
        simp [hplan, hfuture]
      · have hplan := History.plan_eq_ok hsome hpast
        simp [hplan, hpast, UInt32.not_lt.mpr hpast]

/-- A document is declared with a stamp below the current version, and under a name that gives the
same file as another one. -/
def lateLog : List Command :=
  [⟨"User", 5, .declare [⟨"name", .string, none⟩]⟩,
    ⟨"user", 2, .declare [⟨"name", .string, none⟩]⟩,
    ⟨"user", 1, .change (.rename "name" "title")⟩]

theorem answers_of_replay_lateLog :
    ∃ s d, replay .lenient lateLog = .ok s ∧ s.document? "user" = some d
      ∧ d.version = 2 ∧ s.declaredAt? "user" = some 5 ∧ d.version ≤ 5 ∧ 5 ≤ s.currentVersion
      ∧ (∃ plan, s.plan "user" 1 = .ok plan)
      ∧ s.plan "user" 6 = .error (.futureVersion 6 5)
      ∧ (∃ m, s.upcastModule "user" = .ok m)
      ∧ s.upcastFiles = .error (.collision "user.migrations.ts" "User" "user") := by
  refine ⟨_, _, rfl, rfl, rfl, rfl, ?_⟩
  obtain ⟨-, hbounds, hplan, hmodule, -⟩ :=
    @answers_of_replay .lenient lateLog _ rfl "user"
  have hpast := ((hplan 1).2 rfl).2.mpr (by decide)
  have hfuture := ((hplan 6).2 rfl).1.mpr (by decide)
  exact ⟨(hbounds _ _ rfl rfl).1, (hbounds _ _ rfl rfl).2, hpast, hfuture, hmodule.mpr rfl, by
    decide +kernel⟩

end Evolution

end SchemaLog
