import SchemaLog.Proofs.WellFormed

/-!
# Proofs/Refusals — a refused command leaves no trace

A list of commands is applied up to the first one that is refused; that one changes nothing and the
rest are not tried (`applyAll_refused`).  So an evolution is at any time what its own log leads to,
however many commands were refused on the way (`applyAll_commands`).
-/

namespace SchemaLog

/-- What a refusal says about the refused command and the place it would have had in the log. -/
structure Refusal.IsAt (r : Refusal) (index : Nat) (c : Command) : Prop where
  index_eq : r.index = index
  kind_eq : r.kind = c.kind
  document_eq : r.document = c.document
  field?_eq : r.field? = c.field?

namespace Evolution

variable {e e' : Evolution} {c : Command} {cs : List Command} {r : Refusal}

theorem isAt_of_apply (h : e.apply c = (e', some r)) : r.IsAt e.commands.length c := by
  obtain ⟨-, -, hr⟩ := apply_refused h
  rw [hr]
  exact ⟨rfl, rfl, rfl, rfl⟩

theorem commands_of_apply (h : e.apply c = (e', none)) : e'.commands = e.commands ++ [c] :=
  (accepts_of_apply h).commands_eq

/-- **Commands are applied up to the first refusal**, and what is left is what the accepted ones
before it have led to. -/
theorem applyAll_refused (h : e.applyAll cs = (e', some r)) :
    ∃ before c after, cs = before ++ c :: after
      ∧ e.applyAll before = (e', none) ∧ e'.apply c = (e', some r) := by
  induction cs generalizing e with
  | nil => cases h
  | cons c rest ih =>
    rw [applyAll] at h
    rcases hres : e.apply c with ⟨e₁, _ | r₁⟩ <;> rw [hres] at h
    · obtain ⟨before, b, after, rfl, hbefore, hb⟩ := ih h
      refine ⟨c :: before, b, after, rfl, ?_, hb⟩
      rw [applyAll, hres]
      exact hbefore
    · cases h
      obtain ⟨rfl, -, -⟩ := apply_refused hres
      exact ⟨[], c, rest, rfl, rfl, hres⟩

/-- The rest of the list plays no part in a refusal. -/
theorem applyAll_of_refused (h : e.applyAll cs = (e', none)) (hc : e'.apply c = (e', some r))
    (rest : List Command) : e.applyAll (cs ++ c :: rest) = (e', some r) := by
  simp only [applyAll_append, h, applyAll, hc]

/-- **An accepted list may be cut anywhere.** -/
theorem applyAll_append_iff {ds : List Command} :
    e.applyAll (cs ++ ds) = (e', none)
      ↔ ∃ e₁, e.applyAll cs = (e₁, none) ∧ e₁.applyAll ds = (e', none) := by
  rw [applyAll_append]
  rcases e.applyAll cs with ⟨e₁, _ | r₁⟩ <;> simp

theorem applyAll_cons_iff :
    e.applyAll (c :: cs) = (e', none)
      ↔ ∃ e₁, e.apply c = (e₁, none) ∧ e₁.applyAll cs = (e', none) := by
  rw [applyAll]
  rcases e.apply c with ⟨e₁, _ | r₁⟩ <;> simp

theorem applyAll_concat_iff :
    e.applyAll (cs ++ [c]) = (e', none)
      ↔ ∃ e₁, e.applyAll cs = (e₁, none) ∧ e₁.apply c = (e', none) := by
  have hone (e₁ : Evolution) : e₁.applyAll [c] = (e', none) ↔ e₁.apply c = (e', none) := by
    rw [applyAll_cons_iff]
    simp [applyAll]
  simp only [applyAll_append_iff, hone]

theorem commands_of_applyAll (h : e.applyAll cs = (e', none)) :
    e'.commands = e.commands ++ cs := by
  induction cs generalizing e with
  | nil =>
    cases h
    rw [List.append_nil]
  | cons c rest ih =>
    obtain ⟨e₁, hc, hrest⟩ := applyAll_cons_iff.mp h
    rw [ih hrest, commands_of_apply hc, List.append_assoc, List.singleton_append]

/-- **The log leads to the evolution.** -/
theorem applyAll_commands (policy : VersionPolicy) (calls : List Call) :
    (start policy).applyAll ((start policy).afterCalls calls).commands
      = ((start policy).afterCalls calls, none) := by
  refine afterCalls_induction (motive := fun e => (start policy).applyAll e.commands = (e, none))
    (fun e c e' he hc => ?_) rfl calls
  rw [commands_of_apply hc]
  exact applyAll_concat_iff.mpr ⟨e, he, hc⟩

end Evolution

/-! ## Replays -/

open Evolution

variable {policy : VersionPolicy} {cs : List Command}

theorem replay_eq_ok_iff {s : Schema} :
    replay policy cs = .ok s
      ↔ ∃ e, (start policy).applyAll cs = (e, none) ∧ e.resolve = s := by
  rw [replay]
  rcases (start policy).applyAll cs with ⟨e, _ | r⟩ <;> simp

theorem replay_eq_error_iff {r : Refusal} :
    replay policy cs = .error r ↔ ∃ e, (start policy).applyAll cs = (e, some r) := by
  rw [replay]
  rcases (start policy).applyAll cs with ⟨e, _ | r'⟩ <;> simp

namespace Evolution

variable {e : Evolution}

theorem afterCalls_of_applyAll (h : (start policy).applyAll cs = (e, none)) :
    (start policy).afterCalls [.applyAll cs] = e :=
  congrArg Prod.fst h

theorem wellFormed_of_applyAll (h : (start policy).applyAll cs = (e, none)) : e.WellFormed :=
  afterCalls_of_applyAll h ▸ WellFormed.afterCalls policy [.applyAll cs]

/-- There is one step for each command of the list. -/
theorem steps_of_applyAll (h : (start policy).applyAll cs = (e, none)) :
    e.resolve.steps = cs.map Step.ofCommand :=
  (wellFormed_of_applyAll h).steps_eq.trans (congrArg _ (commands_of_applyAll h))

/-! ## Replayed documents -/

variable {s : Schema} {d : Document}

/-- **A replayed document is found by its name.** -/
theorem document?_eq_some_iff_of_replay (h : replay policy cs = .ok s) {name : String} :
    s.document? name = some d ↔ d ∈ s.documents ∧ d.name = name := by
  obtain ⟨e, he, rfl⟩ := replay_eq_ok_iff.mp h
  have hwf := wellFormed_of_applyAll he
  rw [hwf.document?_resolve, hwf.resolve_documents]
  constructor
  · intro hd
    obtain rfl := (hwf.entry name d hd).name_eq
    exact ⟨hwf.mem_documents_iff.mpr hd, rfl⟩
  · rintro ⟨hmem, rfl⟩
    exact hwf.mem_documents_iff.mp hmem

/-- No two replayed documents have the same name. -/
theorem nodup_documents_of_replay (h : replay policy cs = .ok s) :
    (s.documents.map Document.name).Nodup := by
  obtain ⟨e, he, rfl⟩ := replay_eq_ok_iff.mp h
  have hwf := wellFormed_of_applyAll he
  rw [hwf.resolve_documents, hwf.map_name_documents]
  exact hwf.nodup_order

/-- No two fields of a replayed document have the same name. -/
theorem nodup_fieldNames_of_replay (h : replay policy cs = .ok s) (hd : d ∈ s.documents) :
    d.fieldNames.Nodup := by
  obtain ⟨e, he, rfl⟩ := replay_eq_ok_iff.mp h
  have hwf := wellFormed_of_applyAll he
  rw [hwf.resolve_documents, hwf.mem_documents_iff] at hd
  exact (hwf.entry d.name d hd).nodup_fieldNames

/-! ## Refusals after any calls -/

/-- **A refused command leaves no trace**, whether it comes alone or among others, after any calls
that may have been refused themselves. -/
theorem refusals_leave_no_trace (policy : VersionPolicy) (calls : List Call) :
    let e := (start policy).afterCalls calls
    (∀ c e' r, e.apply c = (e', some r) → e' = e ∧ r.IsAt e.commands.length c)
      ∧ (∀ c e', e.apply c = (e', none) → e'.commands = e.commands ++ [c])
      ∧ (∀ cs e' r, e.applyAll cs = (e', some r) →
          ∃ before c after, cs = before ++ c :: after
            ∧ e.applyAll before = (e', none) ∧ e'.commands = e.commands ++ before
            ∧ e'.apply c = (e', some r) ∧ r.IsAt (e.commands.length + before.length) c
            ∧ ∀ others, e.applyAll (before ++ c :: others) = (e', some r))
      ∧ (∀ cs e', e.applyAll cs = (e', none) → e'.commands = e.commands ++ cs)
      ∧ (start policy).applyAll e.commands = (e, none)
      ∧ (∀ cs s, replay policy cs = .ok s →
          s.commands = cs ∧ replay policy s.commands = .ok s)
      ∧ ∀ cs r, replay policy cs = .error r →
          ∃ before c after, cs = before ++ c :: after
            ∧ (∃ s, replay policy before = .ok s) ∧ r.IsAt before.length c := by
  intro e
  refine ⟨fun c e' r h => ⟨(apply_refused h).1, isAt_of_apply h⟩,
    fun c e' => commands_of_apply, fun cs e' r h => ?_, fun cs e' => commands_of_applyAll,
    applyAll_commands policy calls, fun cs s h => ?_, fun cs r h => ?_⟩
  · obtain ⟨before, c, after, hcs, hbefore, hc⟩ := applyAll_refused h
    have hcommands := commands_of_applyAll hbefore
    have hat := isAt_of_apply hc
    rw [hcommands, List.length_append] at hat
    exact ⟨before, c, after, hcs, hbefore, hcommands, hc, hat, applyAll_of_refused hbefore hc⟩
  · obtain ⟨e₁, h₁, rfl⟩ := replay_eq_ok_iff.mp h
    have hcommands : e₁.resolve.commands = cs := by
      have hlog : e₁.commands = cs := commands_of_applyAll h₁
      rw [History.commands, resolve, (wellFormed_of_applyAll h₁).steps_eq, List.map_map, ← hlog]
      exact List.map_id _
    exact ⟨hcommands, hcommands.symm ▸ h⟩
  · obtain ⟨e₁, h₁⟩ := replay_eq_error_iff.mp h
    obtain ⟨before, c, after, hcs, hbefore, hc⟩ := applyAll_refused h₁
    have hat := isAt_of_apply hc
    rw [commands_of_applyAll hbefore] at hat
    exact ⟨before, c, after, hcs, ⟨e₁.resolve, replay_eq_ok_iff.mpr ⟨e₁, hbefore, rfl⟩⟩, hat⟩

/-- Four calls of which two are refused: two commands are accepted, one of them in front of a
refused one. -/
def mixedCalls : List Call :=
  [.apply ⟨"user", 1, .declare [⟨"age", .number, none⟩]⟩,
    .apply ⟨"user", 2, .declare []⟩,
    .applyAll [⟨"user", 2, .change (.add ⟨"mail", .string, none⟩)⟩,
      ⟨"user", 1, .change (.remove "age")⟩, ⟨"user", 3, .change (.remove "mail")⟩],
    .applyAll []]

theorem refusals_leave_no_trace_mixedCalls :
    let e := (start .nonDecreasing).afterCalls mixedCalls
    let c : Command := ⟨"user", 2, .change (.rename "mail" "age")⟩
    (e.apply c).2 = some (.ofCommand 2 c (.duplicateField "user" "age"))
      ∧ (e.apply c).1 = e ∧ (Refusal.ofCommand 2 c (.duplicateField "user" "age")).IsAt 2 c :=
  ⟨rfl, (refusals_leave_no_trace .nonDecreasing mixedCalls).1 _ _ _ rfl⟩

end Evolution

end SchemaLog
