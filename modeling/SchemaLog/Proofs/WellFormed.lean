import SchemaLog.Proofs.Stamps
import SchemaLog.Proofs.Transition
import Mathlib.Data.List.Nodup

/-!
# Proofs/WellFormed — how the parts of an evolution fit together

An evolution keeps the names of its documents twice, in the order and in the catalog, and its log
twice, as commands and as steps.  `WellFormed` says how the parts fit together.  It holds at the
start, every accepted command keeps it (`WellFormed.accepts`) and a refused one changes nothing, so
it holds after any calls.  Without it, taking the documents out of the catalog in order could lose
one: `resolve_documents` is where it is needed.
-/

namespace SchemaLog

/-! ## Calls -/

/-- A call on an evolution.  One that is refused does not keep others from being made. -/
inductive Call
  | apply (c : Command)
  | applyAll (cs : List Command)
  deriving DecidableEq

namespace Evolution

/-- What a call leaves, and its refusal if there is one. -/
def call (e : Evolution) : Call → Evolution × Option Refusal
  | .apply c => e.apply c
  | .applyAll cs => e.applyAll cs

/-- What is left after calls that are made one after the other, accepted or refused. -/
def afterCalls (e : Evolution) (calls : List Call) : Evolution :=
  calls.foldl (fun e call => (e.call call).1) e

/-- **What every command keeps, every sequence of calls keeps.** -/
theorem afterCalls_induction {motive : Evolution → Prop}
    (step : ∀ e c e', motive e → e.apply c = (e', none) → motive e') {e : Evolution}
    (h : motive e) (calls : List Call) : motive (e.afterCalls calls) := by
  have apply_keeps : ∀ e c, motive e → motive (e.apply c).1 := by
    intro e c he
    rcases hres : e.apply c with ⟨e', _ | r⟩
    · exact step e c e' he hres
    · exact (apply_refused hres).1 ▸ he
  have applyAll_keeps : ∀ cs e, motive e → motive (e.applyAll cs).1 := by
    intro cs
    induction cs with
    | nil => exact fun e he => he
    | cons c rest ih =>
      intro e he
      have hc := apply_keeps e c he
      rcases hres : e.apply c with ⟨e', _ | r⟩ <;> rw [hres] at hc <;> simp only [applyAll, hres]
      · exact ih e' hc
      · exact hc
  induction calls generalizing e with
  | nil => exact h
  | cons call rest ih =>
    refine ih (e := (e.call call).1) ?_
    rcases call with c | cs
    · exact apply_keeps e c h
    · exact applyAll_keeps cs e h

/-! ## The invariant -/

/-- What is stored under a name. -/
structure IsEntry (e : Evolution) (name : String) (d : Document) : Prop where
  name_eq : d.name = name
  /-- The document carries the stamp of its declaration. -/
  declaration : ∃ c ∈ e.commands, c.declares ∧ c.document = name ∧ c.version = d.version
  one_le_version : 1 ≤ d.version
  version_le : d.version ≤ e.currentVersion
  nodup_fieldNames : d.fieldNames.Nodup

/-- How the parts of an evolution fit together. -/
structure WellFormed (e : Evolution) : Prop where
  /-- The order lists the declared documents, in the order of their declarations. -/
  order_eq : e.order = (e.commands.filter Command.declares).map Command.document
  nodup_order : e.order.Nodup
  mem_catalog_iff : ∀ name, name ∈ e.catalog ↔ name ∈ e.order
  entry : ∀ name d, e.document? name = some d → e.IsEntry name d
  currentVersion_eq : e.currentVersion = Command.highest e.commands
  /-- There is one step for each command. -/
  steps_eq : e.steps = e.commands.map Step.ofCommand

variable {e e' : Evolution} {c : Command}

/-- **The stamps that are allowed** are not 0, and under the stricter policy not below the current
version. -/
theorem stampFault?_eq_none_iff {version : Version} :
    e.stampFault? version = none
      ↔ 1 ≤ version ∧ (e.policy = .nonDecreasing → e.currentVersion ≤ version) := by
  have hpos : 1 ≤ version ↔ version ≠ 0 := by
    rw [UInt32.le_iff_toNat_le, ne_eq, ← UInt32.toNat_inj, UInt32.toNat_one, UInt32.toNat_zero]
    omega
  rw [hpos, stampFault?, ← UInt32.not_lt]
  rcases e.policy with _ | _ <;> by_cases h0 : version = 0 <;> simp [h0]

/-- What is stored stays well-formed while the log grows. -/
theorem IsEntry.accepts {name : String} {d : Document} (h : e.IsEntry name d)
    (hacc : Accepts e c e') : e'.IsEntry name d where
  name_eq := h.name_eq
  declaration := by
    obtain ⟨b, hb, hdecl⟩ := h.declaration
    exact ⟨b, hacc.commands_eq ▸ List.mem_append_left _ hb, hdecl⟩
  one_le_version := h.one_le_version
  version_le := by
    rw [hacc.currentVersion_eq]
    exact UInt32.le_trans h.version_le Std.left_le_max
  nodup_fieldNames := h.nodup_fieldNames

/-- What is stored may be changed, or left as it is if it refuses. -/
theorem IsEntry.change {name : String} {d : Document} (h : e.IsEntry name d) (change : Change) :
    e.IsEntry name (d.change change).1 := by
  obtain ⟨hname, hversion⟩ := d.name_version_change change
  constructor
  · exact hname.trans h.name_eq
  · exact hversion ▸ h.declaration
  · exact hversion ▸ h.one_le_version
  · exact hversion ▸ h.version_le
  · exact Document.nodup_names_change h.nodup_fieldNames change

/-- What is put is all that has to be looked at. -/
theorem Accepts.isEntry (hacc : Accepts e c e')
    (hold : ∀ name d, e.document? name = some d → e.IsEntry name d)
    (hself : ∀ d, e'.document? c.document = some d → e'.IsEntry c.document d) :
    ∀ name d, e'.document? name = some d → e'.IsEntry name d := by
  intro name d hd
  by_cases heq : c.document = name
  · subst heq
    exact hself d hd
  · rw [hacc.document?_of_ne heq] at hd
    exact (hold name d hd).accepts hacc

theorem wellFormed_start (policy : VersionPolicy) : (start policy).WellFormed where
  order_eq := rfl
  nodup_order := List.nodup_nil
  mem_catalog_iff name := by simp [start]
  entry name d h := by simp [start, document?] at h
  currentVersion_eq := rfl
  steps_eq := rfl

namespace WellFormed

/-- **An accepted command keeps an evolution well-formed.** -/
theorem accepts (h : e.WellFormed) (hacc : Accepts e c e') : e'.WellFormed := by
  have hcurrent : e'.currentVersion = Command.highest e'.commands := by
    rw [hacc.currentVersion_eq, hacc.commands_eq, Command.highest_concat, h.currentVersion_eq]
  have hsteps : e'.steps = e'.commands.map Step.ofCommand := by
    rw [hacc.steps_eq, hacc.commands_eq, List.map_append, h.steps_eq, List.map_singleton]
  have hpos : 1 ≤ c.version := (stampFault?_eq_none_iff.mp hacc.stampFault?_eq).1
  have hle : c.version ≤ e'.currentVersion := hacc.currentVersion_eq ▸ Std.right_le_max
  have hentry := hacc.isEntry h.entry
  cases hacc with
  | @declared fields hstamp haction hnew hfields =>
    have hdecl : c.declares = true := Command.declares_iff.mpr ⟨fields, haction⟩
    have hnot : c.document ∉ e.order := mt (h.mem_catalog_iff c.document).mpr hnew
    refine ⟨?_, ?_, ?_, hentry fun d hd => ?_, hcurrent, hsteps⟩
    · simp [List.filter_append, h.order_eq, hdecl]
    · exact List.concat_eq_append ▸ List.Nodup.concat hnot h.nodup_order
    · intro name
      rw [note_catalog, mem_put_catalog, note_order, put_order, List.mem_append,
        List.mem_singleton, or_comm]
      exact or_congr_left (h.mem_catalog_iff name)
    · rw [note_document?, document?_put_self, Option.some.injEq] at hd
      subst hd
      exact ⟨rfl, ⟨c, by simp, hdecl, rfl, rfl⟩, hpos, hle, hfields⟩
  | @changed change old hstamp haction hold hchange =>
    have hdecl : c.declares = false := by simp [Command.declares, Command.change?, haction]
    refine ⟨?_, h.nodup_order, ?_, hentry fun d hd => ?_, hcurrent, hsteps⟩
    · simp [List.filter_append, h.order_eq, hdecl]
    · intro name
      rw [note_catalog, mem_put_catalog, note_order, put_order, ← h.mem_catalog_iff,
        or_iff_right_iff_imp]
      rintro rfl
      exact mem_catalog_iff_document?.mpr ⟨old, hold⟩
    · rw [note_document?, document?_put_self, Option.some.injEq] at hd
      subst hd
      have hkept := (h.entry c.document old hold).accepts (.changed hstamp haction hold hchange)
      exact hkept.change change

/-- What the log declares is in the catalog. -/
theorem mem_catalog_of_declares (h : e.WellFormed) (hc : c ∈ e.commands) (hdecl : c.declares) :
    c.document ∈ e.catalog := by
  rw [h.mem_catalog_iff, h.order_eq]
  exact List.mem_map_of_mem (List.mem_filter.mpr ⟨hc, hdecl⟩)

theorem afterCalls (policy : VersionPolicy) (calls : List Call) :
    ((start policy).afterCalls calls).WellFormed :=
  afterCalls_induction (fun _ _ _ h hc => h.accepts (accepts_of_apply hc))
    (wellFormed_start policy) calls

end WellFormed

end Evolution

/-! ## The documents in order

Taking the documents out one by one gives them all as long as no name comes twice: what was taken
out before is never asked for again. -/

theorem Catalog.takeOut_eq_filterMap :
    ∀ {names : List String} (catalog : Catalog), names.Nodup →
      takeOut names catalog = names.filterMap fun name => catalog[name]?
  | [], _, _ => rfl
  | name :: rest, catalog, h => by
    obtain ⟨hname, hrest⟩ := List.nodup_cons.mp h
    have hkeep : (rest.filterMap fun other => (catalog.erase name)[other]?)
        = rest.filterMap fun other => catalog[other]? := by
      refine List.filterMap_congr fun other hother => ?_
      rw [NameMap.getElem?_erase, if_neg]
      rintro rfl
      exact hname hother
    rw [takeOut, List.filterMap_cons, takeOut_eq_filterMap _ hrest, hkeep]
    rcases catalog[name]? with _ | d <;> rfl

namespace Evolution

variable {e : Evolution}

/-- **The resolved documents are the documents.** -/
theorem WellFormed.resolve_documents (h : e.WellFormed) : e.resolve.documents = e.documents :=
  e.catalog.takeOut_eq_filterMap h.nodup_order

/-- **The documents in order carry the names in order.** -/
theorem WellFormed.map_name_documents (h : e.WellFormed) :
    e.documents.map Document.name = e.order := by
  have hname : ∀ name ∈ e.order, (e.document? name).map Document.name = some name := by
    intro name hmem
    obtain ⟨d, hd⟩ := NameMap.mem_iff.mp ((h.mem_catalog_iff name).mpr hmem)
    rw [document?, hd]
    exact congrArg some (h.entry name d hd).name_eq
  rw [documents, List.map_filterMap, List.filterMap_congr hname]
  exact List.filterMap_some

theorem WellFormed.mem_documents_iff (h : e.WellFormed) {d : Document} :
    d ∈ e.documents ↔ e.document? d.name = some d := by
  rw [documents, List.mem_filterMap]
  constructor
  · rintro ⟨name, -, hd⟩
    rw [(h.entry name d hd).name_eq, hd]
  · intro hd
    exact ⟨d.name, (h.mem_catalog_iff d.name).mp (NameMap.mem_iff.mpr ⟨d, hd⟩), hd⟩

/-- **A document is found in the resolved schema as in the catalog.** -/
theorem WellFormed.document?_resolve (h : e.WellFormed) (name : String) :
    e.resolve.document? name = e.document? name := by
  rw [Schema.document?, h.resolve_documents]
  cases hd : e.document? name with
  | none =>
    refine List.find?_eq_none.mpr fun d hmem hname => ?_
    rw [← beq_iff_eq.mp hname, h.mem_documents_iff.mp hmem] at hd
    cases hd
  | some d =>
    have hname := (h.entry name d hd).name_eq
    have hmem : d ∈ e.documents := h.mem_documents_iff.mpr (hname.symm ▸ hd)
    obtain ⟨b, hb⟩ := Option.isSome_iff_exists.mp
      (List.find?_isSome (p := fun d : Document => d.name == name) |>.mpr
        ⟨d, hmem, beq_iff_eq.mpr hname⟩)
    have hbname : b.name = name := by simpa using List.find?_some hb
    have hbd := h.mem_documents_iff.mp (List.mem_of_find?_eq_some hb)
    rw [hbname, hd] at hbd
    rw [hb, hbd]

/-- **The parts of an evolution fit together after any calls**, and its documents are listed once
each, in the order of their declarations, before and after they are taken out of the catalog. -/
theorem wellFormed_afterCalls (policy : VersionPolicy) (calls : List Call) :
    let e := (start policy).afterCalls calls
    e.WellFormed
      ∧ e.documents = e.resolve.documents
      ∧ e.documents.map Document.name = e.order
      ∧ ∀ name d, e.document? name = some d ↔ d ∈ e.documents ∧ d.name = name := by
  intro e
  have h : e.WellFormed := WellFormed.afterCalls policy calls
  refine ⟨h, h.resolve_documents.symm, h.map_name_documents, fun name d => ⟨fun hd => ?_, ?_⟩⟩
  · obtain rfl := (h.entry name d hd).name_eq
    exact ⟨h.mem_documents_iff.mpr hd, rfl⟩
  · rintro ⟨hmem, rfl⟩
    exact h.mem_documents_iff.mp hmem

end Evolution

end SchemaLog
