import SchemaLog.Diff
import SchemaLog.Upcast
import SchemaLog.Proofs.Plans

/-!
# Proofs/Restamping — a lenient log is a log in order, stamped late

    stamps        1   3   2   3   5   1   4
    in effect at  1   3   3   3   5   5   5

Restamping gives every command the version at which it takes effect.  A restamped log has no stamp
that goes down, and what its commands do to the documents is the same: the two replays run side by
side (`Mirrors`).  What plans, generated modules and differences read of a history is its `course`,
in which a stamp does not occur apart from the version that it leads to; so they cannot tell the two
histories apart (`replay_restamp`).
-/

namespace SchemaLog

/-! ## Restamped commands -/

/-- A version that is already reached is not reached again. -/
theorem Version.max_max_left (v w : Version) : max v (max v w) = max v w := by
  rw [Version.max_eq_ite v (max v w), if_pos Std.left_le_max]

namespace Command

/-- Every command with the version at which it takes effect for its stamp. -/
def restamp (cs : List Command) : List Command :=
  (withEffect cs).map fun e => { e.2 with version := e.1 }

theorem restamp_concat (cs : List Command) (c : Command) :
    restamp (cs ++ [c]) = restamp cs ++ [{ c with version := highest (cs ++ [c]) }] := by
  rw [restamp, withEffect_concat, List.map_append, List.map_singleton, ← restamp]

/-- Restamping goes no higher than the stamps do. -/
theorem highest_restamp (cs : List Command) : highest (restamp cs) = highest cs := by
  induction cs using List.reverseRecOn with
  | nil => rfl
  | append_singleton cs c ih =>
    rw [restamp_concat, highest_concat, ih, highest_concat, Version.max_max_left]

/-- **Restamped commands take effect where they took effect before.** -/
theorem withEffect_restamp (cs : List Command) :
    withEffect (restamp cs) = (withEffect cs).map fun e => (e.1, { e.2 with version := e.1 }) := by
  induction cs using List.reverseRecOn with
  | nil => rfl
  | append_singleton cs c ih =>
    rw [restamp_concat, withEffect_concat, ← restamp_concat, highest_restamp, ih, withEffect_concat,
      List.map_append, List.map_singleton]

end Command

/-! ## What is read of a history -/

namespace History

/-- What happens to a document, and the versions at which it takes effect. -/
def course (h : History) (document : String) : List (Version × Action) :=
  (h.effectiveOf document).map fun e => (e.1, e.2.command.action)

variable {h h' : History} {document : String}

theorem course_of_steps {cs : List Command} (hsteps : h.steps = cs.map Step.ofCommand)
    (document : String) :
    h.course document = ((Command.withEffect cs).filter fun e => e.2.document == document).map
      fun e => (e.1, e.2.action) := by
  rw [course, effectiveOf, effective, hsteps, Command.effectiveFrom_map_ofCommand, List.filter_map,
    List.map_map]
  rfl

theorem declaredAt?_congr (hcourse : h'.course document = h.course document) :
    h'.declaredAt? document = h.declaredAt? document := by
  have hread (h : History) : h.declaredAt? document = (h.course document).findSome? fun e =>
      if (Command.mk document e.1 e.2).declares then some e.1 else none := by
    rw [course, List.findSome?_map]
    rfl
  rw [hread, hread, hcourse]

theorem changesAfter_congr (hcourse : h'.course document = h.course document) (version : Version) :
    h'.changesAfter document version = h.changesAfter document version := by
  have hread (h : History) :
      h.changesAfter document version = (h.course document).filterMap fun e =>
        if e.1 ≤ version then none
        else (Command.mk document e.1 e.2).change?.map fun c => (e.1, c) := by
    rw [course, List.filterMap_map]
    rfl
  rw [hread, hread, hcourse]

end History

/-! ## Documents without the versions of their declarations -/

namespace Document

/-- What a document says apart from the version of its declaration. -/
def shape (d : Document) : String × List Field :=
  (d.name, d.fields)

theorem exists_version_of_shape {d d' : Document} (h : d'.shape = d.shape) :
    ∃ v, d' = { d with version := v } := by
  obtain ⟨hname, hfields⟩ := Prod.mk.inj h
  exact ⟨d'.version, by rw [← hname, ← hfields]⟩

/-- A change does not look at the version. -/
theorem change_of_version (d : Document) (v : Version) (c : Change) :
    ({ d with version := v } : Document).change c
      = ({ (d.change c).1 with version := v }, (d.change c).2) := by
  cases c <;> simp only [change] <;> (repeat' split) <;> rfl

end Document

/-- What has become of a document does not depend on the versions of declarations. -/
theorem Schema.diffOf?_of_version (older newer : Schema) (d : Document) (v : Version) :
    diffOf? older newer { d with version := v } = diffOf? older newer d := rfl

/-! ## Schemas that say the same -/

/-- Two schemas with the same documents, to which the same happens at the same versions. -/
structure Schema.Agrees (s s' : Schema) : Prop where
  documents_eq : s'.documents.map Document.shape = s.documents.map Document.shape
  currentVersion_eq : s'.currentVersion = s.currentVersion
  course_eq : ∀ document, s'.course document = s.course document

namespace Schema.Agrees

variable {s s' : Schema}

theorem refl (s : Schema) : Agrees s s := ⟨rfl, rfl, fun _ => rfl⟩

theorem document?_eq (h : Agrees s s') (name : String) :
    (s'.document? name).map Document.shape = (s.document? name).map Document.shape := by
  have hread (s : Schema) : (s.document? name).map Document.shape
      = (s.documents.map Document.shape).find? fun x => x.1 == name := by
    rw [List.find?_map]
    rfl
  rw [hread, hread, h.documents_eq]

theorem plan_eq (h : Agrees s s') (document : String) (version : Version) :
    s'.plan document version = s.plan document version := by
  have hcourse := h.course_eq document
  rw [History.plan, History.plan, History.declaredAt?_congr hcourse, h.currentVersion_eq,
    History.changesAfter_congr hcourse]

theorem upcastModule_eq (h : Agrees s s') (document : String) :
    s'.upcastModule document = s.upcastModule document := by
  rw [History.upcastModule, History.upcastModule, History.declaredAt?_congr (h.course_eq document)]
  simp only [h.plan_eq]

theorem originsSince_eq (h : Agrees s s') (document : String) (version : Version) :
    s'.originsSince document version = s.originsSince document version := by
  rw [History.originsSince, History.originsSince,
    History.changesAfter_congr (h.course_eq document)]

theorem diffOf?_eq {older older' newer newer' : Schema} (hold : Agrees older older')
    (hnew : Agrees newer newer') (d : Document) :
    diffOf? older' newer' d = diffOf? older newer d := by
  have hfound := hnew.document?_eq d.name
  simp only [diffOf?, hold.currentVersion_eq, hnew.originsSince_eq]
  rcases hnow : newer.document? d.name with _ | new <;> rw [hnow] at hfound
  · rw [Option.map_eq_none_iff.mp hfound]
  · obtain ⟨new', hnow', hshape⟩ := Option.map_eq_some_iff.mp hfound
    obtain ⟨v, rfl⟩ := Document.exists_version_of_shape hshape
    rw [hnow']
    rfl

/-- **Differences to or from schemas that say the same are the same.** -/
theorem diff_eq {older older' newer newer' : Schema} (hold : Agrees older older')
    (hnew : Agrees newer newer') : older'.diff newer' = older.diff newer := by
  have hread (s : Schema) : s.documents.filterMap (diffOf? older newer)
      = (s.documents.map Document.shape).filterMap fun x => diffOf? older newer ⟨x.1, x.2, 0⟩ := by
    rw [List.filterMap_map]
    exact List.filterMap_congr fun d _ => (diffOf?_of_version older newer d 0).symm
  calc older'.diff newer'
    _ = older'.documents.filterMap (diffOf? older newer) :=
        List.filterMap_congr fun d _ => diffOf?_eq hold hnew d
    _ = older.documents.filterMap (diffOf? older newer) := by
        rw [hread, hold.documents_eq, ← hread]
    _ = older.diff newer := rfl

end Schema.Agrees

/-! ## The two replays side by side -/

namespace Evolution

variable {e e' e₁ : Evolution} {c : Command}

/-- The second replay has come as far as the first one, and stamps may not go down in it. -/
structure Mirrors (e e' : Evolution) : Prop where
  policy_eq : e'.policy = .nonDecreasing
  order_eq : e'.order = e.order
  currentVersion_eq : e'.currentVersion = e.currentVersion
  document?_eq : ∀ name,
    (e'.document? name).map Document.shape = (e.document? name).map Document.shape

theorem mirrors_start (policy : VersionPolicy) : Mirrors (start policy) (start .nonDecreasing) :=
  ⟨rfl, rfl, rfl, fun _ => rfl⟩

namespace Mirrors

theorem exists_document? (h : Mirrors e e') {name : String} {d : Document}
    (hd : e.document? name = some d) :
    ∃ v, e'.document? name = some { d with version := v } := by
  have hshape := h.document?_eq name
  rw [hd] at hshape
  obtain ⟨d', hd', hshape⟩ := Option.map_eq_some_iff.mp hshape
  obtain ⟨v, rfl⟩ := Document.exists_version_of_shape hshape
  exact ⟨v, hd'⟩

theorem notMem_catalog (h : Mirrors e e') {name : String} (hnew : name ∉ e.catalog) :
    name ∉ e'.catalog := by
  have hshape := h.document?_eq name
  rw [document?_eq_none_iff.mpr hnew] at hshape
  exact document?_eq_none_iff.mp (Option.map_eq_none_iff.mp hshape)

/-- The restamped command comes at the right time. -/
theorem stampFault?_eq (h : Mirrors e e') (hstamp : e.stampFault? c.version = none) :
    e'.stampFault? (max e.currentVersion c.version) = none := by
  obtain ⟨hpos, -⟩ := stampFault?_eq_none_iff.mp hstamp
  refine stampFault?_eq_none_iff.mpr ⟨UInt32.le_trans hpos Std.right_le_max, fun _ => ?_⟩
  exact h.currentVersion_eq ▸ Std.left_le_max

/-- Both put their document and note the command, the one at its stamp and the other at the version
at which it takes effect. -/
theorem note_put (h : Mirrors e e') {name : String} {d d' : Document} (hshape : d'.shape = d.shape)
    (c : Command) :
    Mirrors ((e.put name d).note c)
      ((e'.put name d').note { c with version := max e.currentVersion c.version }) where
  policy_eq := h.policy_eq
  order_eq := h.order_eq
  currentVersion_eq := by
    change max e'.currentVersion (max e.currentVersion c.version) = max e.currentVersion c.version
    rw [h.currentVersion_eq, Version.max_max_left]
  document?_eq other := by
    rw [note_document?, note_document?, document?_put, document?_put]
    split
    · exact congrArg some hshape
    · exact h.document?_eq other

/-- **What the one replay accepts, the other accepts at the version at which it takes effect.** -/
theorem apply (h : Mirrors e e') (hc : e.apply c = (e₁, none)) :
    ∃ e₁', e'.apply { c with version := max e.currentVersion c.version } = (e₁', none)
      ∧ Mirrors e₁ e₁' := by
  have hacc := accepts_of_apply hc
  have hstamp := h.stampFault?_eq hacc.stampFault?_eq
  cases hacc with
  | @declared fields _ haction hnew hfields =>
    have hordered : Mirrors { e with order := e.order ++ [c.document] }
        { e' with order := e'.order ++ [c.document] } :=
      ⟨h.policy_eq, congrArg (· ++ _) h.order_eq, h.currentVersion_eq, h.document?_eq⟩
    have hshape : Document.shape ⟨c.document, fields, max e.currentVersion c.version⟩
        = Document.shape ⟨c.document, fields, c.version⟩ := rfl
    exact ⟨_, apply_of_accepts (.declared hstamp haction (h.notMem_catalog hnew) hfields),
      hordered.note_put hshape c⟩
  | @changed change d _ haction hd hchange =>
    obtain ⟨v, hd'⟩ := h.exists_document? hd
    have hsame := d.change_of_version v change
    refine ⟨_, apply_of_accepts (.changed hstamp haction hd' ?_), h.note_put ?_ c⟩
    · rw [hsame, hchange]
    · rw [hsame]
      rfl

end Mirrors

/-- **The two replays stay side by side.** -/
theorem exists_mirrors {policy : VersionPolicy} {cs : List Command}
    (h : (start policy).applyAll cs = (e, none)) :
    ∃ e', (start .nonDecreasing).applyAll (Command.restamp cs) = (e', none) ∧ Mirrors e e' := by
  induction cs using List.reverseRecOn generalizing e with
  | nil =>
    cases h
    exact ⟨_, rfl, mirrors_start policy⟩
  | append_singleton cs c ih =>
    obtain ⟨e₀, he₀, hc⟩ := applyAll_concat_iff.mp h
    obtain ⟨e₀', he₀', hmirrors⟩ := ih he₀
    obtain ⟨e', hc', hmirrors'⟩ := hmirrors.apply hc
    have hlog : e₀.commands = cs := commands_of_applyAll he₀
    have hcurrent : Command.highest (cs ++ [c]) = max e₀.currentVersion c.version := by
      rw [Command.highest_concat, (wellFormed_of_applyAll he₀).currentVersion_eq, hlog]
    refine ⟨e', ?_, hmirrors'⟩
    rw [Command.restamp_concat, hcurrent]
    exact applyAll_concat_iff.mpr ⟨e₀', he₀', hc'⟩

/-- Side by side, the same documents are in the same order. -/
theorem Mirrors.documents_eq (h : Mirrors e e') :
    e'.documents.map Document.shape = e.documents.map Document.shape := by
  simp only [documents, List.map_filterMap, h.order_eq, h.document?_eq]

/-- **A restamped log says what the log says.** -/
theorem exists_agrees {policy : VersionPolicy} {cs : List Command} {s : Schema}
    (h : replay policy cs = .ok s) :
    ∃ s', replay .nonDecreasing (Command.restamp cs) = .ok s' ∧ Schema.Agrees s s' := by
  obtain ⟨e, he, rfl⟩ := replay_eq_ok_iff.mp h
  obtain ⟨e', he', hmirrors⟩ := exists_mirrors he
  refine ⟨e'.resolve, replay_eq_ok_iff.mpr ⟨e', he', rfl⟩, ?_, hmirrors.currentVersion_eq, ?_⟩
  · rw [(wellFormed_of_applyAll he).resolve_documents,
      (wellFormed_of_applyAll he').resolve_documents, hmirrors.documents_eq]
  · intro document
    rw [History.course_of_steps (steps_of_applyAll he'),
      History.course_of_steps (steps_of_applyAll he), Command.withEffect_restamp, List.filter_map,
      List.map_map]
    rfl

/-- **A lenient log is as good as its restamped one**, which has no stamp that goes down: both lead
to the same fields and to the same current version; the plans and the generated modules are the
same, and so are the renamings that are followed and the differences to and from any schema. -/
theorem replay_restamp {cs : List Command} {s : Schema} (h : replay .lenient cs = .ok s) :
    ∃ s', replay .nonDecreasing (Command.restamp cs) = .ok s'
      ∧ s'.documents.map Document.shape = s.documents.map Document.shape
      ∧ s'.currentVersion = s.currentVersion
      ∧ (∀ document version, s'.plan document version = s.plan document version)
      ∧ (∀ document, s'.upcastModule document = s.upcastModule document)
      ∧ (∀ document version, s'.originsSince document version = s.originsSince document version)
      ∧ ∀ p : Schema, p.diff s' = p.diff s ∧ s'.diff p = s.diff p := by
  obtain ⟨s', hs', hagrees⟩ := exists_agrees h
  exact ⟨s', hs', hagrees.documents_eq, hagrees.currentVersion_eq, hagrees.plan_eq,
    hagrees.upcastModule_eq, hagrees.originsSince_eq,
    fun p => ⟨Schema.Agrees.diff_eq (.refl p) hagrees, hagrees.diff_eq (.refl p)⟩⟩

/-- `unevenLog` itself is refused where the stamps go down for the first time. -/
theorem replay_restamp_unevenLog :
    replay .lenient unevenLog = .ok unevenSchema
      ∧ replay .nonDecreasing unevenLog
        = .error ⟨2, .renameField, "user", some "age", .lowVersion 2 3⟩
      ∧ (Command.restamp unevenLog).map Command.version = [1, 3, 3, 3, 5, 5, 5]
      ∧ ∃ s', replay .nonDecreasing (Command.restamp unevenLog) = .ok s'
        ∧ s'.documents.map Document.shape = unevenSchema.documents.map Document.shape
        ∧ s'.currentVersion = unevenSchema.currentVersion
        ∧ (∀ document version, s'.plan document version = unevenSchema.plan document version)
        ∧ (∀ document, s'.upcastModule document = unevenSchema.upcastModule document)
        ∧ (∀ document version,
            s'.originsSince document version = unevenSchema.originsSince document version)
        ∧ ∀ p : Schema, p.diff s' = p.diff unevenSchema ∧ s'.diff p = unevenSchema.diff p :=
  ⟨replay_unevenLog, rfl, rfl, replay_restamp replay_unevenLog⟩

end Evolution

end SchemaLog
