import SchemaLog.Proofs.Refusals

/-!
# Proofs/Validity — which lists of commands are accepted

Whether a command is accepted can be said of the commands before it alone, without an evolution: its
stamp, whether its document was declared, and which field names are `Live`, where the last command
that gave a name to a field of the document or took it away decides.  `Command.Fits` are these
checks, and `Command.FirstFault` is the first of them that fails.  An evolution knows the same
(`KnowsLive`), so a replay succeeds exactly for the `Valid` lists.
-/

namespace SchemaLog

namespace Command

variable {policy : VersionPolicy} {log : List Command} {c : Command}

/-! ## What a log says -/

/-- The command gives a field of its document this name. -/
def introduces (c : Command) (name : String) : Bool :=
  match c.action with
  | .declare fields => fields.any fun f => f.name == name
  | .change change => change.takes? == some name

/-- The command takes this name away from a field of its document. -/
def retires (c : Command) (name : String) : Bool :=
  match c.action with
  | .declare _ => false
  | .change change => change.frees? == some name

/-- The last command of a log that introduces or retires a field of a document. -/
def lastOn? (log : List Command) (document name : String) : Option Command :=
  log.reverse.find? fun c => c.document == document && (c.introduces name || c.retires name)

/-- The name is that of a field, as far as a log says. -/
def Live (log : List Command) (document name : String) : Prop :=
  ∃ c ∈ lastOn? log document name, c.introduces name

/-- The document is declared by a log. -/
def Declared (log : List Command) (document : String) : Prop :=
  ∃ b ∈ log, b.declares ∧ b.document = document

/-- The stamp can follow a log. -/
def StampFits (policy : VersionPolicy) (log : List Command) (version : Version) : Prop :=
  1 ≤ version ∧ (policy = .nonDecreasing → ∀ b ∈ log, b.version ≤ version)

/-- **The command can follow a log.** -/
def Fits (policy : VersionPolicy) (log : List Command) (c : Command) : Prop :=
  StampFits policy log c.version
    ∧ match c.action with
      | .declare fields => ¬ Declared log c.document ∧ (Field.names fields).Nodup
      | .change change =>
        Declared log c.document
          ∧ (∀ name ∈ change.needs?, Live log c.document name)
          ∧ ∀ name ∈ change.takes?, ¬ Live log c.document name

/-- **The first check that a command fails**: the stamp comes before the document, the document
before the fields, and the name that has to be there before the one that has to be free. -/
inductive FirstFault (policy : VersionPolicy) (log : List Command) (c : Command) : Rejection → Prop
  | stamp (h : ¬ StampFits policy log c.version) :
      FirstFault policy log c (.lowVersion c.version (highest log))
  | declaredBefore {fields : List Field} (hstamp : StampFits policy log c.version)
      (haction : c.action = .declare fields) (h : Declared log c.document) :
      FirstFault policy log c (.duplicateDocument c.document)
  | repeatedField {fields front back : List Field} {f : Field}
      (hstamp : StampFits policy log c.version) (haction : c.action = .declare fields)
      (hnew : ¬ Declared log c.document) (hfields : fields = front ++ f :: back)
      (hfront : (Field.names front).Nodup) (h : f.name ∈ Field.names front) :
      FirstFault policy log c (.duplicateField c.document f.name)
  | undeclared {change : Change} (hstamp : StampFits policy log c.version)
      (haction : c.action = .change change) (h : ¬ Declared log c.document) :
      FirstFault policy log c (.unknownDocument c.document)
  | missingField {change : Change} {name : String} (hstamp : StampFits policy log c.version)
      (haction : c.action = .change change) (hdocument : Declared log c.document)
      (hneeds : change.needs? = some name) (h : ¬ Live log c.document name) :
      FirstFault policy log c (.unknownField c.document name)
  | takenField {change : Change} {name : String} (hstamp : StampFits policy log c.version)
      (haction : c.action = .change change) (hdocument : Declared log c.document)
      (hneeds : ∀ n ∈ change.needs?, Live log c.document n)
      (htakes : change.takes? = some name) (h : Live log c.document name) :
      FirstFault policy log c (.duplicateField c.document name)

/-- **A list in which every command fits the ones before it.** -/
def Valid (policy : VersionPolicy) (cs : List Command) : Prop :=
  ∀ (i : Nat) (c : Command), cs[i]? = some c → c.Fits policy (cs.take i)

/-! ## Live names, command by command -/

theorem not_live_nil (document name : String) : ¬ Live [] document name := by
  rintro ⟨c, hc, -⟩
  cases hc

theorem live_concat_of_ne {document : String} (hne : c.document ≠ document) (name : String) :
    Live (log ++ [c]) document name ↔ Live log document name := by
  have hlast : lastOn? (log ++ [c]) document name = lastOn? log document name := by
    simp [lastOn?, hne]
  rw [Live, hlast, Live]

/-- **The latest command decides**, unless it does not touch the name. -/
theorem live_concat_self (name : String) :
    Live (log ++ [c]) c.document name
      ↔ c.introduces name ∨ ¬ c.retires name ∧ Live log c.document name := by
  have hlast : lastOn? (log ++ [c]) c.document name
      = if c.introduces name || c.retires name then some c
        else lastOn? log c.document name := by
    simp only [lastOn?, List.reverse_append, List.reverse_singleton, List.singleton_append,
      List.find?_cons, beq_self_eq_true, Bool.true_and]
    cases c.introduces name || c.retires name <;> rfl
  rw [Live, hlast, Live]
  by_cases hi : c.introduces name = true
  · simp [hi]
  · by_cases hr : c.retires name = true <;> simp [hi, hr]

/-! ## The faults are the ways of not fitting -/

/-- Where a name comes twice, there is a first field whose name came before. -/
theorem exists_first_repeat {fields : List Field} (h : ¬ (Field.names fields).Nodup) :
    ∃ front f back, fields = front ++ f :: back
      ∧ (Field.names front).Nodup ∧ f.name ∈ Field.names front := by
  induction fields using List.reverseRecOn with
  | nil => exact absurd List.nodup_nil h
  | append_singleton fields f ih =>
    by_cases hfields : (Field.names fields).Nodup
    · refine ⟨fields, f, [], rfl, hfields, ?_⟩
      by_contra hf
      refine h ?_
      rw [Field.names, List.map_append, List.map_singleton, ← List.concat_eq_append]
      exact List.Nodup.concat hf hfields
    · obtain ⟨front, g, back, rfl, hfront, hg⟩ := ih hfields
      exact ⟨front, g, back ++ [f], by simp, hfront, hg⟩

theorem fits_or_firstFault (policy : VersionPolicy) (log : List Command) (c : Command) :
    c.Fits policy log ∨ ∃ reason, c.FirstFault policy log reason := by
  -- The checks are gone through in their order: what a fault asks for is what has passed so far.
  by_cases hstamp : StampFits policy log c.version
  swap
  · exact .inr ⟨_, .stamp hstamp⟩
  rcases haction : c.action with fields | change
  · by_cases hdocument : Declared log c.document
    · exact .inr ⟨_, .declaredBefore hstamp haction hdocument⟩
    by_cases hfields : (Field.names fields).Nodup
    · refine .inl ⟨hstamp, ?_⟩
      rw [haction]
      exact ⟨hdocument, hfields⟩
    · obtain ⟨front, f, back, heq, hfront, hf⟩ := exists_first_repeat hfields
      exact .inr ⟨_, .repeatedField hstamp haction hdocument heq hfront hf⟩
  · by_cases hdocument : Declared log c.document
    swap
    · exact .inr ⟨_, .undeclared hstamp haction hdocument⟩
    by_cases hmissing : ∃ name ∈ change.needs?, ¬ Live log c.document name
    · obtain ⟨name, hname, hdead⟩ := hmissing
      exact .inr ⟨_, .missingField hstamp haction hdocument hname hdead⟩
    have hneeds : ∀ name ∈ change.needs?, Live log c.document name := fun name hname =>
      not_not.mp fun hdead => hmissing ⟨name, hname, hdead⟩
    by_cases htaken : ∃ name ∈ change.takes?, Live log c.document name
    · obtain ⟨name, hname, hlive⟩ := htaken
      exact .inr ⟨_, .takenField hstamp haction hdocument hneeds hname hlive⟩
    · refine .inl ⟨hstamp, ?_⟩
      rw [haction]
      exact ⟨hdocument, hneeds, fun name hname hlive => htaken ⟨name, hname, hlive⟩⟩

theorem valid_concat_iff {cs : List Command} :
    Valid policy (cs ++ [c]) ↔ Valid policy cs ∧ c.Fits policy cs := by
  constructor
  · intro h
    refine ⟨fun i b hb => ?_, by simpa using h cs.length c (by simp)⟩
    have hi : i < cs.length := (List.getElem?_eq_some_iff.mp hb).1
    have hfits := h i b ((List.getElem?_append_left hi).trans hb)
    rwa [List.take_append_of_le_length (Nat.le_of_lt hi)] at hfits
  · rintro ⟨h, hc⟩ i b hb
    rcases Nat.lt_or_ge i cs.length with hi | hi
    · rw [List.getElem?_append_left hi] at hb
      rw [List.take_append_of_le_length (Nat.le_of_lt hi)]
      exact h i b hb
    · have hi' : i < (cs ++ [c]).length := (List.getElem?_eq_some_iff.mp hb).1
      obtain rfl : i = cs.length := by simp at hi'; omega
      obtain rfl : c = b := by simpa using hb
      simpa using hc

end Command

/-! ## What an evolution knows -/

theorem Field.repeatedName?_of_mem {f : Field} {back : List Field} :
    ∀ {front : List Field} {seen : List String}, (names front).Nodup →
      (∀ g ∈ front, g.name ∉ seen) → f.name ∈ names front ∨ f.name ∈ seen →
        repeatedName? seen (front ++ f :: back) = some f.name
  | [], seen, _, _, h => by
    rw [List.nil_append, repeatedName?, if_pos]
    simpa [names] using h
  | g :: front, seen, hnodup, hseen, h => by
    obtain ⟨hg, hfront⟩ := List.nodup_cons.mp hnodup
    have hgseen : ¬ seen.contains g.name = true := by
      simpa using hseen g List.mem_cons_self
    rw [List.cons_append, repeatedName?, if_neg hgseen]
    refine repeatedName?_of_mem hfront (fun k hk => ?_) ?_
    · rw [List.mem_cons, not_or]
      exact ⟨fun heq => hg (heq ▸ name_mem_names hk), hseen k (List.mem_cons_of_mem _ hk)⟩
    · simp only [names, List.map_cons, List.mem_cons] at h ⊢
      tauto

namespace Evolution

open Command

variable {e e' : Evolution} {c : Command}

theorem declared_iff (h : e.WellFormed) (name : String) :
    Declared e.commands name ↔ name ∈ e.catalog := by
  rw [h.mem_catalog_iff, h.order_eq, Declared]
  simp only [List.mem_map, List.mem_filter, and_assoc]

/-- A document that is declared by the log is there, under its name. -/
theorem exists_document? (h : e.WellFormed) {name : String} (hname : Declared e.commands name) :
    ∃ d, e.document? name = some d ∧ d.name = name := by
  obtain ⟨d, hd⟩ := mem_catalog_iff_document?.mp ((declared_iff h name).mp hname)
  exact ⟨d, hd, (h.entry name d hd).name_eq⟩

theorem stampFits_iff (h : e.WellFormed) (version : Version) :
    StampFits e.policy e.commands version ↔ e.stampFault? version = none := by
  rw [stampFault?_eq_none_iff, h.currentVersion_eq, highest_le_iff, StampFits]

/-- The names that are live in the log are those of the fields. -/
def KnowsLive (e : Evolution) : Prop :=
  ∀ document name, Live e.commands document name
    ↔ ∃ d ∈ e.document? document, name ∈ d.fieldNames

theorem knowsLive_start (policy : VersionPolicy) : (start policy).KnowsLive := by
  intro document name
  refine iff_of_false (not_live_nil document name) ?_
  rintro ⟨d, hd, -⟩
  simp [start, document?] at hd

/-- **An accepted command moves the names in the log and in the catalog alike.** -/
theorem KnowsLive.accepts (hwf : e.WellFormed) (h : e.KnowsLive) (hacc : Accepts e c e') :
    e'.KnowsLive := by
  intro document name
  rw [hacc.commands_eq]
  by_cases hdocument : c.document = document
  swap
  · rw [live_concat_of_ne hdocument, hacc.document?_of_ne hdocument, h]
  subst hdocument
  rw [live_concat_self, h]
  cases hacc with
  | @declared fields hstamp haction hnew hfields =>
    rw [note_document?, document?_put_self, document?_eq_none_iff.mpr hnew]
    simp [introduces, haction, Document.fieldNames, Field.mem_names]
  | @changed change d hstamp haction hd hchange =>
    have hneeds := (Document.change_accepted_iff.mp hchange).1
    have hnodup := (hwf.entry c.document d hd).nodup_fieldNames
    rw [note_document?, document?_put_self, hd, Document.change_of_accepted hnodup hchange]
    simp only [introduces, retires, haction, Option.mem_def, Option.some.injEq,
      exists_eq_left', Document.fieldNames, beq_iff_eq]
    -- A renaming introduces a name and retires another one: here the taken name goes first.
    rw [Change.mem_names_effect hneeds]
    simp only [Option.mem_def]
    tauto

/-! ## What an evolution says to a command -/

theorem live_iff (h : e.KnowsLive) {document name : String} {d : Document}
    (hd : e.document? document = some d) :
    Live e.commands document name ↔ name ∈ d.fieldNames := by
  rw [h, hd]
  simp only [Option.mem_def, Option.some.injEq, exists_eq_left']

theorem transition_of_fits (hwf : e.WellFormed) (hlive : e.KnowsLive)
    (h : c.Fits e.policy e.commands) : (e.transition c).2 = none := by
  obtain ⟨hstamp, hrest⟩ := h
  rw [stampFits_iff hwf] at hstamp
  rcases haction : c.action with fields | change <;> rw [haction] at hrest
  · obtain ⟨hnew, hfields⟩ := hrest
    rw [declared_iff hwf] at hnew
    have hdeclare : Document.declare c.document fields c.version
        = .ok ⟨c.document, fields, c.version⟩ := Document.declare_eq_ok_iff.mpr ⟨hfields, rfl⟩
    rw [transition_declare hstamp haction, declare, if_neg hnew, hdeclare]
  · obtain ⟨hdocument, hneeds, htakes⟩ := hrest
    obtain ⟨d, hd, -⟩ := exists_document? hwf hdocument
    rw [transition_change hstamp haction hd]
    refine Document.change_accepted_iff.mpr ⟨fun name hname => ?_, fun name hname => ?_⟩
    · exact (live_iff hlive hd).mp (hneeds name hname)
    · exact mt (live_iff hlive hd).mpr (htakes name hname)

/-- What is wrong with a stamp is always the same. -/
theorem stampFault?_eq_some {version : Version} (h : e.stampFault? version ≠ none) :
    e.stampFault? version = some (.lowVersion version e.currentVersion) := by
  unfold stampFault? at h ⊢
  (repeat' split at h) <;> simp_all

/-- **The first fault of a command is the reason for which it is refused.** -/
theorem transition_of_firstFault (hwf : e.WellFormed) (hlive : e.KnowsLive) {reason : Rejection}
    (h : c.FirstFault e.policy e.commands reason) : (e.transition c).2 = some reason := by
  cases h with
  | stamp hstamp =>
    rw [stampFits_iff hwf] at hstamp
    rw [transition, stampFault?_eq_some hstamp, hwf.currentVersion_eq]
  | declaredBefore hstamp haction hdocument =>
    rw [stampFits_iff hwf] at hstamp
    rw [transition_declare hstamp haction, declare, if_pos ((declared_iff hwf _).mp hdocument)]
  | @repeatedField fields front back f hstamp haction hnew hfields hfront hf =>
    rw [stampFits_iff hwf] at hstamp
    have hrepeated : Field.repeatedName? [] fields = some f.name :=
      hfields ▸ Field.repeatedName?_of_mem hfront (by simp) (.inl hf)
    have hdeclare : Document.declare c.document fields c.version
        = .error (.duplicateField c.document f.name) := by rw [Document.declare, hrepeated]
    rw [transition_declare hstamp haction, declare, if_neg (mt (declared_iff hwf _).mpr hnew),
      hdeclare]
  | undeclared hstamp haction hdocument =>
    rw [stampFits_iff hwf] at hstamp
    rw [declared_iff hwf, ← document?_eq_none_iff] at hdocument
    rw [transition_undeclared hstamp haction hdocument]
  | @missingField change name hstamp haction hdocument hneeds hdead =>
    rw [stampFits_iff hwf] at hstamp
    obtain ⟨d, hd, hname⟩ := exists_document? hwf hdocument
    rw [live_iff hlive hd] at hdead
    rw [transition_change hstamp haction hd, ← hname]
    exact Document.change_refused_iff.mpr (.inl ⟨name, hneeds, hdead, rfl⟩)
  | @takenField change name hstamp haction hdocument hneeds htakes htaken =>
    rw [stampFits_iff hwf] at hstamp
    obtain ⟨d, hd, hname⟩ := exists_document? hwf hdocument
    simp only [live_iff hlive hd] at hneeds htaken
    rw [transition_change hstamp haction hd, ← hname]
    exact Document.change_refused_iff.mpr (.inr ⟨hneeds, name, htakes, htaken, rfl⟩)

/-! ## What a replay says to a list -/

variable {policy : VersionPolicy} {cs : List Command}

/-- An evolution that a list of commands leads to knows what the list says. -/
theorem knows_of_applyAll (h : (start policy).applyAll cs = (e, none)) :
    e.policy = policy ∧ e.commands = cs ∧ e.WellFormed ∧ e.KnowsLive := by
  have hknows : e.policy = policy ∧ e.WellFormed ∧ e.KnowsLive := by
    rw [← afterCalls_of_applyAll h]
    refine afterCalls_induction
      (motive := fun e => e.policy = policy ∧ e.WellFormed ∧ e.KnowsLive) ?_
      ⟨rfl, wellFormed_start policy, knowsLive_start policy⟩ _
    rintro e c e' ⟨hpolicy, hwf, hlive⟩ hc
    have hacc := accepts_of_apply hc
    exact ⟨hacc.policy_eq.trans hpolicy, hwf.accepts hacc, hlive.accepts hwf hacc⟩
  exact ⟨hknows.1, commands_of_applyAll h, hknows.2⟩

theorem apply_of_fits (h : (start policy).applyAll cs = (e, none)) (hc : c.Fits policy cs) :
    ∃ e', e.apply c = (e', none) := by
  obtain ⟨rfl, rfl, hwf, hlive⟩ := knows_of_applyAll h
  refine ⟨(e.transition c).1.note c, ?_⟩
  have hnone := transition_of_fits hwf hlive hc
  rw [apply]
  rcases ht : e.transition c with ⟨e', _ | reason⟩
  · rfl
  · simp [ht] at hnone

theorem apply_of_firstFault (h : (start policy).applyAll cs = (e, none)) {reason : Rejection}
    (hc : c.FirstFault policy cs reason) :
    e.apply c = (e, some (.ofCommand cs.length c reason)) := by
  obtain ⟨rfl, rfl, hwf, hlive⟩ := knows_of_applyAll h
  exact apply_of_transition_refused (transition_of_firstFault hwf hlive hc)

theorem fits_of_apply (h : (start policy).applyAll cs = (e, none)) (hc : e.apply c = (e', none)) :
    c.Fits policy cs := by
  refine (fits_or_firstFault policy cs c).resolve_right ?_
  rintro ⟨reason, hfault⟩
  rw [apply_of_firstFault h hfault] at hc
  cases hc

theorem applyAll_iff_valid :
    (∃ e, (start policy).applyAll cs = (e, none)) ↔ Valid policy cs := by
  induction cs using List.reverseRecOn with
  | nil => exact iff_of_true ⟨_, rfl⟩ fun i c hc => by simp at hc
  | append_singleton cs c ih =>
    rw [valid_concat_iff, ← ih]
    constructor
    · rintro ⟨e', h⟩
      obtain ⟨e, he, hc⟩ := applyAll_concat_iff.mp h
      exact ⟨⟨e, he⟩, fits_of_apply he hc⟩
    · rintro ⟨⟨e, he⟩, hc⟩
      obtain ⟨e', hc⟩ := apply_of_fits he hc
      exact ⟨e', applyAll_concat_iff.mpr ⟨e, he, hc⟩⟩

/-- **Replay accepts exactly the valid lists.**  Any other list is refused at the first command that
does not fit, and for the first check that this command fails. -/
theorem replay_ok_iff_valid (policy : VersionPolicy) (cs : List Command) :
    ((∃ s, replay policy cs = .ok s) ↔ Valid policy cs)
      ∧ ∀ r, replay policy cs = .error r ↔ ∃ i c, cs[i]? = some c
          ∧ Valid policy (cs.take i) ∧ ¬ c.Fits policy (cs.take i)
          ∧ ∃ reason, c.FirstFault policy (cs.take i) reason ∧ r = .ofCommand i c reason := by
  refine ⟨?_, fun r => ⟨fun h => ?_, ?_⟩⟩
  · simp only [← applyAll_iff_valid, replay_eq_ok_iff]
    exact ⟨fun ⟨_, e, he, _⟩ => ⟨e, he⟩, fun ⟨e, he⟩ => ⟨e.resolve, e, he, rfl⟩⟩
  · obtain ⟨e, he⟩ := replay_eq_error_iff.mp h
    obtain ⟨before, c, after, rfl, hbefore, hc⟩ := applyAll_refused he
    have hunfit : ¬ c.Fits policy before := by
      intro hfits
      obtain ⟨e', he'⟩ := apply_of_fits hbefore hfits
      rw [hc] at he'
      cases he'
    obtain ⟨reason, hfault⟩ := (fits_or_firstFault policy before c).resolve_left hunfit
    rw [apply_of_firstFault hbefore hfault] at hc
    obtain rfl : Refusal.ofCommand before.length c reason = r := by simpa using hc
    refine ⟨before.length, c, by simp, ?_⟩
    rw [List.take_left]
    exact ⟨applyAll_iff_valid.mp ⟨e, hbefore⟩, hunfit, reason, hfault, rfl⟩
  · rintro ⟨i, c, hc, hvalid, -, reason, hfault, rfl⟩
    obtain ⟨e, he⟩ := applyAll_iff_valid.mpr hvalid
    obtain ⟨hi, hget⟩ := List.getElem?_eq_some_iff.mp hc
    have happly := apply_of_firstFault he hfault
    rw [List.length_take_of_le (Nat.le_of_lt hi)] at happly
    have hsplit : cs.take i ++ c :: cs.drop (i + 1) = cs := by
      rw [← hget, List.getElem_cons_drop, List.take_append_drop]
    exact replay_eq_error_iff.mpr ⟨e, hsplit ▸ applyAll_of_refused he happly _⟩

/-- A field is not renamed to the name that it has, since that name is taken. -/
example :
    replay .nonDecreasing
        [⟨"user", 1, .declare [⟨"age", .number, none⟩]⟩, ⟨"user", 1, .change (.rename "age" "age")⟩]
      = .error ⟨1, .renameField, "user", some "age", .duplicateField "user" "age"⟩ := rfl

end Evolution

end SchemaLog
