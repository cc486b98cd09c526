import SchemaLog.Proofs.Plans

/-!
# Proofs/Independence — a document is what its own commands make it

    log           a₁   b₁   a₂   b₂   a₃
    alone, of a   a₁        a₂        a₃

Two documents meet in one place only: a stamp is compared with the current version, which the
commands of all documents have brought up.  Without the others' commands that version is lower, so
no stamp that was let through is refused, and a command changes no document but its own.  A replay
of the commands of one document therefore goes along with the replay of all (`Isolates`), and what
it leads to does not depend on how the logs of several documents are interleaved.
-/

namespace SchemaLog

/-- The commands that are about one document, in order. -/
def Command.about (document : String) (cs : List Command) : List Command :=
  cs.filter fun c => c.document == document

namespace Command

variable {document : String} {c : Command}

theorem about_concat_self (cs : List Command) :
    about c.document (cs ++ [c]) = about c.document cs ++ [c] := by
  simp [about]

theorem about_concat_of_ne (hne : c.document ≠ document) (cs : List Command) :
    about document (cs ++ [c]) = about document cs := by
  simp [about, hne]

end Command

/-- The steps of a document are those of the commands that are about it. -/
theorem History.map_command_stepsOf {h : History} {cs : List Command}
    (hsteps : h.steps = cs.map Step.ofCommand) (document : String) :
    (h.stepsOf document).map Step.command = Command.about document cs := by
  rw [stepsOf, hsteps, List.filter_map, List.map_map]
  exact List.map_id _

namespace Evolution

open Command

variable {e e' alone : Evolution} {c : Command} {name : String}

/-- The second replay has the same document of this name, and asks no more of a stamp. -/
structure Isolates (name : String) (e alone : Evolution) : Prop where
  document?_eq : alone.document? name = e.document? name
  currentVersion_le : alone.currentVersion ≤ e.currentVersion
  policy_le : alone.policy = .nonDecreasing → e.policy = .nonDecreasing

theorem isolates_start (name : String) {policy policy' : VersionPolicy}
    (hpolicy : policy' = .nonDecreasing → policy = .nonDecreasing) :
    Isolates name (start policy) (start policy') :=
  ⟨rfl, UInt32.le_refl _, hpolicy⟩

namespace Isolates

/-- A stamp that the replay of all lets through is let through. -/
theorem stampFault?_eq (h : Isolates name e alone) {version : Version}
    (hstamp : e.stampFault? version = none) : alone.stampFault? version = none := by
  rw [stampFault?_eq_none_iff] at hstamp ⊢
  exact ⟨hstamp.1, fun hpolicy =>
    UInt32.le_trans h.currentVersion_le (hstamp.2 (h.policy_le hpolicy))⟩

/-- **A command on another document is not missed.** -/
theorem skip (h : Isolates name e alone) (hne : c.document ≠ name)
    (hc : e.apply c = (e', none)) : Isolates name e' alone := by
  have hacc := accepts_of_apply hc
  refine ⟨?_, ?_, ?_⟩
  · rw [hacc.document?_of_ne hne, h.document?_eq]
  · rw [hacc.currentVersion_eq]
    exact UInt32.le_trans h.currentVersion_le Std.left_le_max
  · rw [hacc.policy_eq]
    exact h.policy_le

/-- Both replays have accepted a command and have the same document. -/
theorem of_accepts {alone' : Evolution} (h : Isolates c.document e alone) (hacc : Accepts e c e')
    (hacc' : Accepts alone c alone')
    (hsame : alone'.document? c.document = e'.document? c.document) :
    Isolates c.document e' alone' where
  document?_eq := hsame
  currentVersion_le := by
    rw [hacc.currentVersion_eq, hacc'.currentVersion_eq, Std.max_le_iff]
    exact ⟨UInt32.le_trans h.currentVersion_le Std.left_le_max, Std.right_le_max⟩
  policy_le := by
    rw [hacc.policy_eq, hacc'.policy_eq]
    exact h.policy_le

/-- **A command on the document does the same in both replays.** -/
theorem apply (h : Isolates c.document e alone) (hc : e.apply c = (e', none)) :
    ∃ alone', alone.apply c = (alone', none) ∧ Isolates c.document e' alone' := by
  have hacc := accepts_of_apply hc
  have hstamp := h.stampFault?_eq hacc.stampFault?_eq
  cases accepts_of_apply hc with
  | @declared fields _ haction hnew hfields =>
    rw [← document?_eq_none_iff, ← h.document?_eq, document?_eq_none_iff] at hnew
    have hacc' := Accepts.declared hstamp haction hnew hfields
    refine ⟨_, apply_of_accepts hacc', h.of_accepts hacc hacc' ?_⟩
    rw [note_document?, note_document?, document?_put_self, document?_put_self]
  | @changed change d _ haction hd hchange =>
    rw [← h.document?_eq] at hd
    have hacc' := Accepts.changed hstamp haction hd hchange
    refine ⟨_, apply_of_accepts hacc', h.of_accepts hacc hacc' ?_⟩
    rw [note_document?, note_document?, document?_put_self, document?_put_self]

end Isolates

variable {policy policy' : VersionPolicy} {cs : List Command}

/-- **The commands of one document can be replayed alone**, and lead to the same document. -/
theorem exists_isolates (hpolicy : policy' = .nonDecreasing → policy = .nonDecreasing)
    (h : (start policy).applyAll cs = (e, none)) (name : String) :
    ∃ alone, (start policy').applyAll (about name cs) = (alone, none)
      ∧ Isolates name e alone := by
  induction cs using List.reverseRecOn generalizing e with
  | nil =>
    cases h
    exact ⟨_, rfl, isolates_start name hpolicy⟩
  | append_singleton cs c ih =>
    obtain ⟨e₀, h₀, hc⟩ := applyAll_concat_iff.mp h
    obtain ⟨alone, halone, hisolates⟩ := ih h₀
    by_cases hname : c.document = name
    · subst hname
      obtain ⟨alone', hc', hisolates'⟩ := hisolates.apply hc
      rw [about_concat_self]
      exact ⟨alone', applyAll_concat_iff.mpr ⟨alone, halone, hc'⟩, hisolates'⟩
    · rw [about_concat_of_ne hname]
      exact ⟨alone, halone, hisolates.skip hname hc⟩

/-- A replay of the commands of one document has no other document. -/
theorem order_of_about (h : (start policy).applyAll cs = (e, none)) {d : Document}
    (hd : e.document? name = some d)
    (halone : (start policy').applyAll (about name cs) = (alone, none)) :
    alone.order = [name] := by
  have hwf := wellFormed_of_applyAll h
  have hcommands : e.commands = cs := commands_of_applyAll h
  have hcommands' : alone.commands = about name cs := commands_of_applyAll halone
  have hmem : name ∈ e.order :=
    (hwf.mem_catalog_iff name).mp (mem_catalog_iff_document?.mpr ⟨d, hd⟩)
  calc alone.order
    _ = ((about name cs).filter declares).map Command.document := by
        rw [(wellFormed_of_applyAll halone).order_eq, hcommands']
    _ = ((cs.filter declares).map Command.document).filter (· == name) := by
        rw [about, List.filter_comm, List.filter_map]
        rfl
    _ = e.order.filter (· == name) := by rw [hwf.order_eq, hcommands]
    _ = [name] := by
        rw [List.filter_beq, List.count_eq_one_of_mem hwf.nodup_order hmem]
        rfl

/-- **Documents evolve independently**: the commands of a document, replayed alone, lead to it and
to nothing else, and logs in which a document has the same commands lead to the same document,
whatever stands between these commands. -/
theorem documents_independent {s : Schema} (h : replay policy cs = .ok s) :
    (∀ d ∈ s.documents, (s.stepsOf d.name).map Step.command = about d.name cs
        ∧ ∃ alone, replay policy ((s.stepsOf d.name).map Step.command) = .ok alone
          ∧ alone.documents = [d])
      ∧ ∀ policy' cs' s', replay policy' cs' = .ok s' → ∀ name, about name cs' = about name cs →
          s'.document? name = s.document? name := by
  obtain ⟨e, he, rfl⟩ := replay_eq_ok_iff.mp h
  have hwf := wellFormed_of_applyAll he
  refine ⟨fun d hd => ?_, fun policy' cs' s' h' name hsame => ?_⟩
  · have habout := History.map_command_stepsOf (steps_of_applyAll he) d.name
    rw [hwf.resolve_documents, hwf.mem_documents_iff] at hd
    obtain ⟨alone, halone, hisolates⟩ := exists_isolates id he d.name
    refine ⟨habout, alone.resolve, habout ▸ replay_eq_ok_iff.mpr ⟨alone, halone, rfl⟩, ?_⟩
    rw [(wellFormed_of_applyAll halone).resolve_documents, documents,
      order_of_about he hd halone, List.filterMap_cons, hisolates.document?_eq, hd,
      List.filterMap_nil]
  · -- Both logs are accepted under the policy that asks less, where the two parts are one.
    obtain ⟨e', he', rfl⟩ := replay_eq_ok_iff.mp h'
    have hlenient (p : VersionPolicy) (hp : VersionPolicy.lenient = .nonDecreasing) :
        p = .nonDecreasing := by cases hp
    obtain ⟨alone, halone, hisolates⟩ := exists_isolates (hlenient policy) he name
    obtain ⟨alone', halone', hisolates'⟩ := exists_isolates (hlenient policy') he' name
    rw [hsame, halone] at halone'
    obtain rfl : alone = alone' := congrArg Prod.fst halone'
    rw [hwf.document?_resolve, (wellFormed_of_applyAll he').document?_resolve,
      ← hisolates.document?_eq, hisolates'.document?_eq]

/-- The commands of `unevenLog`, one document after the other: the second document is declared with
a stamp that goes down, and so at a later version. -/
theorem documents_independent_unevenLog :
    replay .lenient unevenLog = .ok unevenSchema
      ∧ (∀ d ∈ unevenSchema.documents,
          (unevenSchema.stepsOf d.name).map Step.command = about d.name unevenLog
            ∧ ∃ alone,
                replay .lenient ((unevenSchema.stepsOf d.name).map Step.command) = .ok alone
                  ∧ alone.documents = [d])
      ∧ ∃ sorted, replay .lenient (about "user" unevenLog ++ about "order" unevenLog) = .ok sorted
        ∧ sorted.documents.map Document.name = ["user", "order"]
        ∧ sorted.declaredAt? "order" ≠ unevenSchema.declaredAt? "order"
        ∧ ∀ name ∈ ["user", "order"], sorted.document? name = unevenSchema.document? name := by
  have hindependent := documents_independent replay_unevenLog
  refine ⟨replay_unevenLog, hindependent.1, _, rfl, rfl, by decide, fun name hname => ?_⟩
  refine hindependent.2 .lenient (about "user" unevenLog ++ about "order" unevenLog) _ rfl name ?_
  simp only [List.mem_cons, List.not_mem_nil, or_false] at hname
  rcases hname with rfl | rfl <;> rfl

end Evolution

end SchemaLog
