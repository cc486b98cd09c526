import SchemaLog.Proofs.Refusals

/-!
# Proofs/Plans — a plan leads to the current fields

    declared fields ──changes up to v──▸ fields at v ──plan from v──▸ current fields

A replay changes documents where they stand; a plan picks its changes out of the history by the
versions at which they take effect, and groups them.  Both make the changes of a stretch of the log
in order (`fields?_of_applyAll`, `map_snd_changesAfter`), and the log is cut at one place.
-/

namespace SchemaLog

/-! ## Interpreting a plan -/

/-- The fields after changes that are made one after the other. -/
def Change.effects (changes : List Change) (fields : List Field) : List Field :=
  changes.foldl (fun fields change => change.effect fields) fields

/-- The fields after the changes of a stage. -/
def Stage.interpret (stage : Stage) (fields : List Field) : List Field :=
  Change.effects stage.changes fields

/-- The fields after the stages of a plan, one after the other. -/
def Plan.interpret (plan : Plan) (fields : List Field) : List Field :=
  plan.stages.foldl (fun fields stage => stage.interpret fields) fields

/-- The borders between the stages play no part. -/
theorem Plan.interpret_eq (plan : Plan) : plan.interpret = Change.effects plan.changes :=
  funext fun _ => List.foldl_flatMap.symm

theorem Stage.flatMap_changes_group (changes : List (Version × Change)) :
    (group changes).flatMap Stage.changes = changes.map Prod.snd := by
  have h := congrArg (List.map Prod.snd) (ungroup_group changes)
  rw [← h, ungroup, List.map_flatMap]
  simp only [List.map_map, Function.comp_def, List.map_id']

/-! ## The fields that a log leads to -/

namespace Command

/-- The fields that the command declares a document with. -/
def fields? (document : String) (c : Command) : Option (List Field) :=
  match c.action with
  | .declare fields => if c.document = document then some fields else none
  | .change _ => none

/-- The change that the command makes to a document. -/
def changeTo? (document : String) (c : Command) : Option Change :=
  if c.document = document then c.change? else none

/-- The fields with which commands declare a document first. -/
def firstFields? (document : String) (cs : List Command) : Option (List Field) :=
  cs.findSome? (fields? document)

/-- The changes that commands make to a document, in order. -/
def changesTo (document : String) (cs : List Command) : List Change :=
  cs.filterMap (changeTo? document)

/-- The fields that commands lead a document to from those that it has, if it has any. -/
def fieldsAfter? (document : String) (before : Option (List Field)) (cs : List Command) :
    Option (List Field) :=
  (before.or (firstFields? document cs)).map (Change.effects (changesTo document cs))

variable {document : String} {c : Command}

@[simp] theorem fieldsAfter?_nil (before : Option (List Field)) :
    fieldsAfter? document before [] = before := by
  rw [fieldsAfter?, firstFields?, List.findSome?_nil, Option.or_none]
  exact Option.map_id'

/-- Commands on other documents play no part. -/
theorem fieldsAfter?_cons_of_ne (hne : c.document ≠ document) (before : Option (List Field))
    (cs : List Command) :
    fieldsAfter? document before (c :: cs) = fieldsAfter? document before cs := by
  have hfields : c.fields? document = none := by
    unfold fields?
    split
    · exact if_neg hne
    · rfl
  have hchange : c.changeTo? document = none := if_neg hne
  simp only [fieldsAfter?, firstFields?, changesTo, List.findSome?_cons, hfields,
    List.filterMap_cons, hchange]

theorem fieldsAfter?_cons_declare {fields : List Field} (haction : c.action = .declare fields)
    (cs : List Command) :
    fieldsAfter? c.document none (c :: cs) = fieldsAfter? c.document (some fields) cs := by
  have hfields : c.fields? c.document = some fields := by simp [fields?, haction]
  have hchange : c.changeTo? c.document = none := by simp [changeTo?, change?, haction]
  simp only [fieldsAfter?, firstFields?, changesTo, List.findSome?_cons, hfields,
    List.filterMap_cons, hchange, Option.none_or, Option.some_or]

theorem fieldsAfter?_cons_change {change : Change} (haction : c.action = .change change)
    (fields : List Field) (cs : List Command) :
    fieldsAfter? c.document (some fields) (c :: cs)
      = fieldsAfter? c.document (some (change.effect fields)) cs := by
  have hchange : c.changeTo? c.document = some change := by simp [changeTo?, change?, haction]
  simp only [fieldsAfter?, changesTo, List.filterMap_cons, hchange, Option.some_or,
    Option.map_some, Change.effects, List.foldl_cons]

end Command

/-- **The fields of a document at a version**: those that the commands in effect by then have led
to, or those that the document is declared with if it is declared only later. -/
def fieldsAt? (policy : VersionPolicy) (cs : List Command) (document : String)
    (version : Version) : Option (List Field) :=
  match replay policy (Command.upTo version cs) with
  | .ok earlier =>
    ((earlier.document? document).map Document.fields).or (Command.firstFields? document cs)
  | .error _ => none

/-! ## The changes of a history

The history keeps the steps with their effective versions, and the changes after a version are
those of the steps behind the first stamp above it. -/

namespace History

variable {h : History} {cs : List Command} {document : String}

theorem map_snd_changesAfter (hsteps : h.steps = cs.map Step.ofCommand) (version : Version) :
    (h.changesAfter document version).map Prod.snd
      = Command.changesTo document (cs.dropWhile fun c => c.version ≤ version) := by
  calc (h.changesAfter document version).map Prod.snd
    _ = (h.effective.filter fun e => !decide (e.1 ≤ version)).filterMap
          fun e => e.2.command.changeTo? document := by
        rw [changesAfter, effectiveOf, List.filterMap_filter, List.filterMap_filter,
          List.map_filterMap]
        refine List.filterMap_congr fun e _ => ?_
        by_cases hd : e.2.command.document = document <;> by_cases hv : e.1 ≤ version
          <;> simp [Command.changeTo?, hd, hv, Function.comp_def]
    _ = ((h.effective.filter fun e => !decide (e.1 ≤ version)).map Prod.snd).filterMap
          fun s => s.command.changeTo? document := by
        rw [List.filterMap_map]
        rfl
    _ = (h.steps.dropWhile fun s => s.version ≤ version).filterMap
          fun s => s.command.changeTo? document :=
        congrArg _ (Step.filter_not_effectiveFrom h.steps UInt32.zero_le)
    _ = Command.changesTo document (cs.dropWhile fun c => c.version ≤ version) := by
        rw [hsteps, List.dropWhile_map, List.filterMap_map]
        rfl

theorem plan_eq_ok {version : Version} (hdecl : (h.declaredAt? document).isSome)
    (hv : version ≤ h.currentVersion) :
    h.plan document version = .ok ⟨document, version, h.currentVersion,
      Stage.group (h.changesAfter document version)⟩ := by
  have hnone : ¬ (h.declaredAt? document).isNone := by
    rw [Option.isNone_iff_eq_none, ← ne_eq, Option.ne_none_iff_isSome]
    exact hdecl
  rw [plan, if_neg hnone, if_neg (UInt32.not_lt.mpr hv)]

/-- A plan is made of the changes after its version, and of nothing else. -/
theorem eq_of_plan {version : Version} {p : Plan} (hp : h.plan document version = .ok p) :
    p = ⟨document, version, h.currentVersion,
      Stage.group (h.changesAfter document version)⟩ := by
  rw [plan] at hp
  split at hp
  · cases hp
  · split at hp
    · cases hp
    · exact (Except.ok.inj hp).symm

/-- A document is declared in the history where one of the commands declares it. -/
theorem isSome_declaredAt? (hsteps : h.steps = cs.map Step.ofCommand) {c : Command}
    (hc : c ∈ cs) (hdecl : c.declares) : (h.declaredAt? c.document).isSome := by
  have hmem : Step.ofCommand c ∈ h.effective.map Prod.snd := by
    rw [effective, Step.map_snd_effectiveFrom, hsteps]
    exact List.mem_map_of_mem hc
  obtain ⟨⟨v, s⟩, he, rfl⟩ := List.mem_map.mp hmem
  rw [declaredAt?, List.isSome_findSome?]
  refine List.any_eq_true.mpr ⟨_, List.mem_filter.mpr ⟨he, beq_self_eq_true _⟩, ?_⟩
  simp [hdecl, Step.ofCommand]

end History

/-! ## The fields in a replay -/

namespace Evolution

open Command

variable {e e' : Evolution} {c : Command} {cs : List Command}

/-- The fields of a document. -/
def fields? (e : Evolution) (name : String) : Option (List Field) :=
  (e.document? name).map Document.fields

/-- **An accepted command brings the fields one step further.** -/
theorem Accepts.fieldsAfter? (hwf : e.WellFormed) (hacc : Accepts e c e') (name : String)
    (rest : List Command) :
    fieldsAfter? name (e.fields? name) (c :: rest) = fieldsAfter? name (e'.fields? name) rest := by
  by_cases hname : c.document = name
  swap
  · rw [fieldsAfter?_cons_of_ne hname, fields?, fields?, hacc.document?_of_ne hname]
  subst hname
  cases hacc with
  | @declared fields hstamp haction hnew hfields =>
    rw [fields?, fields?, note_document?, document?_put_self, document?_eq_none_iff.mpr hnew]
    exact fieldsAfter?_cons_declare haction rest
  | @changed change d hstamp haction hd hchange =>
    have hnodup := (hwf.entry c.document d hd).nodup_fieldNames
    rw [fields?, fields?, note_document?, document?_put_self, hd,
      Document.change_of_accepted hnodup hchange]
    exact fieldsAfter?_cons_change haction d.fields rest

/-- **The log leads to the fields.** -/
theorem fields?_of_applyAll (hwf : e.WellFormed) (h : e.applyAll cs = (e', none)) (name : String) :
    e'.fields? name = fieldsAfter? name (e.fields? name) cs := by
  induction cs generalizing e with
  | nil =>
    cases h
    exact (fieldsAfter?_nil _).symm
  | cons c rest ih =>
    obtain ⟨e₁, hc, hrest⟩ := applyAll_cons_iff.mp h
    have hacc := accepts_of_apply hc
    rw [ih (hwf.accepts hacc) hrest, hacc.fieldsAfter? hwf]

/-- Where the first commands declare nothing, the first declaration is among the others. -/
theorem fields?_or_firstFields? {policy : VersionPolicy}
    (h : (start policy).applyAll cs = (e, none)) (name : String) (rest : List Command) :
    (e.fields? name).or (firstFields? name (cs ++ rest))
      = (e.fields? name).or (firstFields? name rest) := by
  have hfields := fields?_of_applyAll (wellFormed_start policy) h name
  rcases hnone : e.fields? name with _ | fields
  · have hfirst : firstFields? name cs = none := by
      rw [hnone, eq_comm, fieldsAfter?, Option.map_eq_none_iff] at hfields
      exact (Option.or_eq_none_iff.mp hfields).2
    rw [firstFields?, List.findSome?_append, ← firstFields?, hfirst, Option.none_or, firstFields?]
  · rfl

/-- The log is cut where the first stamp is above the version. -/
theorem exists_applyAll_upTo {policy : VersionPolicy} (h : (start policy).applyAll cs = (e, none))
    (version : Version) :
    ∃ e₀, (start policy).applyAll (upTo version cs) = (e₀, none)
      ∧ e₀.applyAll (cs.dropWhile fun c => c.version ≤ version) = (e, none) := by
  rw [upTo_eq_takeWhile]
  exact applyAll_append_iff.mp (by rwa [List.takeWhile_append_dropWhile])

/-- The fields at a version are those at the cut, or else the rest of the log declares them. -/
theorem fieldsAt?_eq {policy : VersionPolicy} (h : (start policy).applyAll cs = (e, none))
    (name : String) (version : Version) :
    ∃ e₀ : Evolution, e₀.WellFormed
      ∧ e₀.applyAll (cs.dropWhile fun c => c.version ≤ version) = (e, none)
      ∧ fieldsAt? policy cs name version = (e₀.fields? name).or
        (firstFields? name (cs.dropWhile fun c => c.version ≤ version)) := by
  have hcut : upTo version cs ++ cs.dropWhile (fun c => c.version ≤ version) = cs := by
    rw [upTo_eq_takeWhile, List.takeWhile_append_dropWhile]
  obtain ⟨e₀, h₀, hrest⟩ := exists_applyAll_upTo h version
  have hwf := wellFormed_of_applyAll h₀
  refine ⟨e₀, hwf, hrest, ?_⟩
  have hreplay := replay_eq_ok_iff.mpr ⟨e₀, h₀, rfl⟩
  rw [fieldsAt?, hreplay]
  simp only [hwf.document?_resolve]
  rw [← fields?_or_firstFields? h₀, hcut, fields?]

/-- **A plan leads to the current fields**, from the fields at any version that is not ahead. -/
theorem plan_interpret {policy : VersionPolicy} {s : Schema} (h : replay policy cs = .ok s)
    {d : Document} (hd : d ∈ s.documents) {version : Version} (hv : version ≤ s.currentVersion) :
    s.document? d.name = some d ∧ ∃ plan, s.plan d.name version = .ok plan
      ∧ (fieldsAt? policy cs d.name version).map plan.interpret = some d.fields := by
  obtain ⟨e, he, rfl⟩ := replay_eq_ok_iff.mp h
  have hwf := wellFormed_of_applyAll he
  have hcommands : e.commands = cs := commands_of_applyAll he
  have hsteps : e.resolve.steps = cs.map Step.ofCommand := hcommands ▸ hwf.steps_eq
  rw [hwf.resolve_documents, hwf.mem_documents_iff] at hd
  have hdeclared : (e.resolve.declaredAt? d.name).isSome := by
    obtain ⟨c, hc, hdecl, hname, -⟩ := (hwf.entry d.name d hd).declaration
    exact hname ▸ History.isSome_declaredAt? hsteps (hcommands ▸ hc) hdecl
  refine ⟨(hwf.document?_resolve d.name).trans hd, _, History.plan_eq_ok hdeclared hv, ?_⟩
  obtain ⟨e₀, hwf₀, hrest, hfields⟩ := fieldsAt?_eq he d.name version
  rw [hfields, Plan.interpret_eq, Plan.changes, Stage.flatMap_changes_group,
    History.map_snd_changesAfter hsteps]
  change fieldsAfter? d.name (e₀.fields? d.name) _ = some d.fields
  rw [← fields?_of_applyAll hwf₀ hrest, fields?, hd]
  rfl

/-- Two documents under stamps that go down and up again: what takes effect after version 1 begins
with the declaration of the second one, and a field name is given to another field. -/
def unevenLog : List Command :=
  [⟨"user", 1, .declare [⟨"age", .number, some "0"⟩, ⟨"mail", .string, none⟩]⟩,
    ⟨"order", 3, .declare [⟨"total", .string, none⟩]⟩,
    ⟨"user", 2, .change (.rename "age" "years")⟩,
    ⟨"user", 3, .change (.add ⟨"age", .boolean, some "false"⟩)⟩,
    ⟨"order", 5, .change (.retype "total" .number "Number(total)")⟩,
    ⟨"user", 1, .change (.remove "mail")⟩,
    ⟨"user", 4, .change (.retype "years" .string "String(years)")⟩]

theorem plan_interpret_unevenLog :
    ∃ s d, replay .lenient unevenLog = .ok s ∧ d ∈ s.documents ∧ 1 ≤ s.currentVersion
      ∧ d.fields = [⟨"years", .string, none⟩, ⟨"age", .boolean, some "false"⟩]
      ∧ s.document? d.name = some d ∧ ∃ plan, s.plan d.name 1 = .ok plan
        ∧ (fieldsAt? .lenient unevenLog d.name 1).map plan.interpret = some d.fields :=
  ⟨_, _, rfl, List.mem_cons_self, by decide, rfl,
    plan_interpret rfl List.mem_cons_self (by decide)⟩

/-- The schema that `unevenLog` leads to. -/
def unevenSchema : Schema :=
  ⟨⟨5, unevenLog.map Step.ofCommand⟩,
    [⟨"user", [⟨"years", .string, none⟩, ⟨"age", .boolean, some "false"⟩], 1⟩,
      ⟨"order", [⟨"total", .number, none⟩], 3⟩]⟩

theorem replay_unevenLog : replay .lenient unevenLog = .ok unevenSchema := rfl

end Evolution

end SchemaLog
