import SchemaLog.Proofs.Lineage
import SchemaLog.Proofs.Policies

/-!
# Proofs/Reversal — additions and renamings can be taken back

    a b ──add c──▸ a b c ──rename a to d──▸ d b c
    a b ◂──remove c── a b c ◂──rename d to a──

A removed field is gone and a retyped one has lost its default, but an added field stands last and a
renamed one in its own place, under a name that was free.  So the inverse of such a change can be
made where the change has led to, and leads back to the very same fields (`Change.effect_inverse`).
Over a whole run the inverses are made in reverse order: each of them needs no more of the later
ones than that they have led back to the documents that it was made for (`Accepts.undo`).
-/

namespace SchemaLog

/-! ## The inverse of a change -/

namespace Change

/-- The change that takes another one back, if there is one. -/
def inverse? : Change → Option Change
  | add field => some (remove field.name)
  | rename old new => some (rename new old)
  | remove _ | retype _ _ _ => none

variable {c u : Change} {fields : List Field}

/-- **The inverse fits** where the change has led to: the name that was taken is there, and the one
that was given up is free. -/
theorem Fits.inverse (h : c.Fits fields) (hu : c.inverse? = some u) : u.Fits (c.effect fields) := by
  cases c with
  | add field =>
    obtain rfl := Option.some.inj hu
    refine ⟨fun n hn => ?_, nofun⟩
    obtain rfl := Option.some.inj hn
    exact (mem_names_effect h.needs).mpr (.inl rfl)
  | rename old new =>
    obtain rfl := Option.some.inj hu
    constructor
    · intro n hn
      obtain rfl := Option.some.inj hn
      exact (mem_names_effect h.needs).mpr (.inl rfl)
    · intro n hn hthere
      obtain rfl := Option.some.inj hn
      rcases (mem_names_effect h.needs).mp hthere with htaken | ⟨-, hkept⟩
      · obtain rfl := Option.some.inj htaken
        exact h.free new rfl (h.needs new rfl)
      · exact hkept rfl
  | remove gone => cases hu
  | retype retyped type conversion => cases hu

/-- **The inverse leads back**, with every field in its place. -/
theorem effect_inverse (h : c.Fits fields) (hu : c.inverse? = some u) :
    u.effect (c.effect fields) = fields := by
  cases c with
  | add field =>
    obtain rfl := Option.some.inj hu
    have hothers : ∀ f ∈ fields, (f.name != field.name) = true := fun f hf =>
      bne_iff_ne.mpr fun heq => h.free field.name rfl (heq ▸ Field.name_mem_names hf)
    rw [effect, effect, List.filter_append, List.filter_eq_self.mpr hothers]
    simp
  | rename old new =>
    obtain rfl := Option.some.inj hu
    rw [effect, effect, List.map_map]
    refine (List.map_congr_left fun f hf => ?_).trans (List.map_id fields)
    have hnew : f.name ≠ new := fun heq => h.free new rfl (heq ▸ Field.name_mem_names hf)
    rw [Function.comp_apply]
    by_cases hold : f.name = old
    · rw [if_pos hold, if_pos rfl, ← hold]
      rfl
    · rw [if_neg hold, if_neg hnew]
      rfl
  | remove gone => cases hu
  | retype retyped type conversion => cases hu

end Change

/-- **A document takes an accepted change back**, and is then what it was before. -/
theorem Document.change_inverse {d : Document} {c u : Change} (hnodup : d.fieldNames.Nodup)
    (hchange : (d.change c).2 = none) (hu : c.inverse? = some u) :
    (d.change c).1.change u = (d, none) := by
  obtain ⟨hneeds, hfree⟩ := Document.change_accepted_iff.mp hchange
  have hfits : c.Fits d.fields := ⟨hneeds, hfree⟩
  have hnodup' := Document.nodup_names_change hnodup c
  rw [Document.change_of_accepted hnodup hchange] at hnodup' ⊢
  obtain ⟨hneeds', hfree'⟩ := hfits.inverse hu
  have haccepted := Document.change_accepted_iff (d := { d with fields := c.effect d.fields }).mpr
    ⟨hneeds', hfree'⟩
  refine Prod.ext ?_ haccepted
  rw [Document.change_of_accepted hnodup' haccepted, Change.effect_inverse hfits hu]

/-! ## The inverses of commands -/

namespace Command

/-- The command that takes another one back, if there is one. -/
def undo? (version : Version) (c : Command) : Option Command :=
  (c.change?.bind Change.inverse?).map fun change => ⟨c.document, version, .change change⟩

/-- The commands that take others back, beginning with the last one. -/
def undoAll (version : Version) (cs : List Command) : List Command :=
  cs.reverse.filterMap (undo? version)

variable {version : Version} {c : Command} {cs : List Command}

/-- Additions and renamings can be taken back. -/
theorem exists_inverse (hkind : c.kind = .addField ∨ c.kind = .renameField) :
    ∃ change u, c.action = .change change ∧ change.inverse? = some u := by
  rcases c with ⟨document, stamp, fields | ⟨field⟩ | gone | ⟨old, new⟩ | ⟨name, type, conversion⟩⟩
  · simp [kind] at hkind
  · exact ⟨.add field, _, rfl, rfl⟩
  · simp [kind] at hkind
  · exact ⟨.rename old new, _, rfl, rfl⟩
  · simp [kind] at hkind

theorem undoAll_cons {change u : Change} (haction : c.action = .change change)
    (hu : change.inverse? = some u) (version : Version) (cs : List Command) :
    undoAll version (c :: cs) = undoAll version cs ++ [⟨c.document, version, .change u⟩] := by
  have hundo : c.undo? version = some ⟨c.document, version, .change u⟩ := by
    rw [undo?, change?, haction, Option.bind_some, hu, Option.map_some]
  rw [undoAll, List.reverse_cons, List.filterMap_append, List.filterMap_cons_some hundo]
  rfl

/-- Each command is taken back by one. -/
theorem length_undoAll (hkinds : ∀ c ∈ cs, c.kind = .addField ∨ c.kind = .renameField) :
    (undoAll version cs).length = cs.length := by
  induction cs with
  | nil => rfl
  | cons c rest ih =>
    obtain ⟨hc, hrest⟩ := List.forall_mem_cons.mp hkinds
    obtain ⟨change, u, haction, hu⟩ := exists_inverse hc
    rw [undoAll_cons haction hu, List.length_append, ih hrest]
    rfl

end Command

/-! ## Taking back in an evolution -/

namespace Evolution

open Command

variable {e e' e₁ : Evolution} {c : Command} {cs : List Command} {version : Version}

/-- Two evolutions hold the same documents in the same order. -/
structure SameDocuments (e e' : Evolution) : Prop where
  order_eq : e.order = e'.order
  catalog_eq : e.catalog = e'.catalog

namespace SameDocuments

theorem document?_eq (h : e.SameDocuments e') (name : String) :
    e.document? name = e'.document? name := by
  rw [document?, document?, h.catalog_eq]

theorem documents_eq (h : e.SameDocuments e') : e.documents = e'.documents := by
  rw [documents, documents, h.order_eq]
  exact List.filterMap_congr fun name _ => h.document?_eq name

end SameDocuments

/-- The current version is a stamp that every policy lets through, if there is one at all. -/
theorem stampFault?_currentVersion (h : 1 ≤ e.currentVersion) :
    e.stampFault? e.currentVersion = none :=
  stampFault?_eq_none_iff.mpr ⟨h, fun _ => UInt32.le_refl _⟩

/-- **An accepted command is taken back** wherever the documents are those that it has led to. -/
theorem Accepts.undo {change u : Change} (hwf : e.WellFormed) (hacc : Accepts e c e')
    (haction : c.action = .change change) (hu : change.inverse? = some u)
    (hsame : e₁.SameDocuments e') (hstamp : e₁.stampFault? version = none) :
    ∃ e₂, Accepts e₁ ⟨c.document, version, .change u⟩ e₂ ∧ e₂.SameDocuments e := by
  cases hacc with
  | declared _ haction' _ _ =>
    rw [haction] at haction'
    cases haction'
  | @changed change' d _ haction' hd hchange =>
    obtain rfl : change = change' := Action.change.inj (haction.symm.trans haction')
    have hback := Document.change_inverse (hwf.entry c.document d hd).nodup_fieldNames hchange hu
    have hthere : e₁.document? c.document = some (d.change change).1 := by
      rw [hsame.document?_eq, note_document?, document?_put_self]
    refine ⟨_, .changed hstamp rfl hthere (congrArg Prod.snd hback), hsame.order_eq, ?_⟩
    -- What was put in the place of the document is replaced by the document itself.
    rw [hback]
    refine Std.ExtTreeMap.ext_getElem? fun name => ?_
    have hother := hsame.document?_eq name
    rw [note_document?, document?_put] at hother
    rw [note_catalog, put, NameMap.getElem?_insert]
    split
    · next heq => exact heq ▸ hd.symm
    · next hne => exact hother.trans (if_neg hne)

/-- **A run of additions and renamings is taken back** by the inverses in reverse order. -/
theorem exists_undone (hwf : e.WellFormed) (h : e.applyAll cs = (e', none))
    (hkinds : ∀ c ∈ cs, c.kind = .addField ∨ c.kind = .renameField) (hwf₁ : e₁.WellFormed)
    (hsame : e₁.SameDocuments e') (hversion : 1 ≤ e₁.currentVersion) :
    ∃ e₂, e₁.applyAll (undoAll e₁.currentVersion cs) = (e₂, none) ∧ e₂.WellFormed
      ∧ e₂.SameDocuments e ∧ e₂.currentVersion = e₁.currentVersion := by
  induction cs generalizing e with
  | nil =>
    cases h
    exact ⟨e₁, rfl, hwf₁, hsame, rfl⟩
  | cons c rest ih =>
    obtain ⟨hc, hrest⟩ := List.forall_mem_cons.mp hkinds
    obtain ⟨change, u, haction, hu⟩ := exists_inverse hc
    obtain ⟨e₀, happly, happlyRest⟩ := applyAll_cons_iff.mp h
    have hacc := accepts_of_apply happly
    obtain ⟨e₂, hundone, hwf₂, hsame₂, hversion₂⟩ := ih (hwf.accepts hacc) happlyRest hrest
    have hstamp : e₂.stampFault? e₁.currentVersion = none :=
      hversion₂ ▸ stampFault?_currentVersion (hversion₂.symm ▸ hversion)
    obtain ⟨e₃, hacc₃, hsame₃⟩ := hacc.undo hwf haction hu hsame₂ hstamp
    refine ⟨e₃, ?_, hwf₂.accepts hacc₃, hsame₃, ?_⟩
    · rw [undoAll_cons haction hu]
      exact applyAll_concat_iff.mpr ⟨e₂, hundone, apply_of_accepts hacc₃⟩
    · rw [hacc₃.currentVersion_eq, hversion₂, Version.max_eq_ite, if_pos (UInt32.le_refl _)]

/-- Where a command was accepted, the current version is not 0. -/
theorem one_le_currentVersion (h : e.applyAll cs = (e', none)) (hne : cs ≠ []) :
    1 ≤ e'.currentVersion := by
  obtain ⟨before, c, rfl⟩ := List.eq_nil_or_concat' cs |>.resolve_left hne
  obtain ⟨e₀, -, hc⟩ := applyAll_concat_iff.mp h
  have hacc := accepts_of_apply hc
  have hstamp := (stampFault?_eq_none_iff.mp hacc.stampFault?_eq).1
  exact hacc.currentVersion_eq ▸ UInt32.le_trans hstamp Std.right_le_max

/-- How the parts of an evolution fit together does not depend on its policy. -/
theorem WellFormed.under (h : e.WellFormed) (policy : VersionPolicy) :
    (e.under policy).WellFormed where
  order_eq := h.order_eq
  nodup_order := h.nodup_order
  mem_catalog_iff := h.mem_catalog_iff
  entry name d hd :=
    have hentry := h.entry name d hd
    ⟨hentry.name_eq, hentry.declaration, hentry.one_le_version, hentry.version_le,
      hentry.nodup_fieldNames⟩
  currentVersion_eq := h.currentVersion_eq
  steps_eq := h.steps_eq

/-- **Additions and renamings can be taken back**, on any documents and after any calls.  Their
inverses in reverse order, all stamped with the version that has been reached, are accepted under
the policy that was followed so far and under the other one.  The documents are then what they were
before, the version stays the highest stamp, and the log keeps every command. -/
theorem undo_restores (policy : VersionPolicy) (calls : List Call)
    (h : ((start policy).afterCalls calls).applyAll cs = (e', none)) (hne : cs ≠ [])
    (hkinds : ∀ c ∈ cs, c.kind = .addField ∨ c.kind = .renameField) (policy' : VersionPolicy) :
    let e := (start policy).afterCalls calls
    let undo := undoAll e'.currentVersion cs
    ∃ e'', (e'.under policy').applyAll undo = (e'', none) ∧ undo.length = cs.length
      ∧ (∀ name, e''.document? name = e.document? name) ∧ e''.documents = e.documents
      ∧ e''.currentVersion = e'.currentVersion ∧ e''.currentVersion = highest e''.commands
      ∧ e''.commands = e.commands ++ cs ++ undo := by
  intro e undo
  have hwf : e.WellFormed := WellFormed.afterCalls policy calls
  have hwf' : e'.WellFormed := by
    have hcalls : (start policy).afterCalls (calls ++ [.applyAll cs]) = e' := by
      rw [afterCalls, List.foldl_append]
      exact congrArg Prod.fst h
    exact hcalls ▸ WellFormed.afterCalls policy _
  have hsame : (e'.under policy').SameDocuments e' := ⟨rfl, rfl⟩
  have hpos : 1 ≤ e'.currentVersion := one_le_currentVersion h hne
  obtain ⟨e'', hundo, hwf'', hback, hversion⟩ :=
    exists_undone hwf h hkinds (hwf'.under policy') hsame hpos
  refine ⟨e'', hundo, length_undoAll hkinds, hback.document?_eq, hback.documents_eq, hversion,
    hwf''.currentVersion_eq, ?_⟩
  rw [commands_of_applyAll hundo, ← commands_of_applyAll h]
  rfl

/-- The calls that have led to `unevenSchema`, with one in between that is refused. -/
def unevenCalls : List Call :=
  [.applyAll (unevenLog.take 3), .apply ⟨"user", 3, .change (.remove "age")⟩,
    .applyAll (unevenLog.drop 3)]

/-- A name is given up and taken by a new field, which is then renamed itself; a field of another
document is renamed in between, and the stamps are not in order. -/
def enlarging : List Command :=
  [⟨"user", 6, .change (.rename "years" "since")⟩,
    ⟨"user", 6, .change (.add ⟨"years", .object, some "null"⟩)⟩,
    ⟨"order", 2, .change (.rename "total" "sum")⟩,
    ⟨"user", 7, .change (.rename "age" "old")⟩,
    ⟨"order", 7, .change (.add ⟨"total", .string, none⟩)⟩,
    ⟨"user", 4, .change (.rename "years" "age")⟩]

theorem undo_restores_enlarging :
    ∃ e' e'', ((start .lenient).afterCalls unevenCalls).applyAll enlarging = (e', none)
      ∧ e'.documents = [⟨"user", [⟨"since", .string, none⟩, ⟨"old", .boolean, some "false"⟩,
          ⟨"age", .object, some "null"⟩], 1⟩,
        ⟨"order", [⟨"sum", .number, none⟩, ⟨"total", .string, none⟩], 3⟩]
      ∧ (e'.under .nonDecreasing).applyAll (undoAll 7 enlarging) = (e'', none)
      ∧ e''.documents = unevenSchema.documents ∧ e''.currentVersion = 7 := by
  have h : ((start .lenient).afterCalls unevenCalls).applyAll enlarging = (_, none) := rfl
  obtain ⟨e'', hundo, -, -, hdocuments, hversion, -⟩ :=
    undo_restores .lenient unevenCalls h (by decide) (by decide) .nonDecreasing
  exact ⟨_, e'', h, rfl, hundo, hdocuments, hversion⟩

end Evolution

end SchemaLog
