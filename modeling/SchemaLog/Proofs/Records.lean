import SchemaLog.Upcast.Record
import SchemaLog.Proofs.Lineage
import SchemaLog.Proofs.Stages

/-!
# Proofs/Records — an upcast record loses no value and overwrites none

    fields:   a  b         ──rename a to c──▸    c  b
    record:   a ↦ x        ──────────────────▸   c ↦ x

The keys of a record are fields of its document, though a field may be unset.  A change that is
accepted takes a name that is no field, so there is no value under it that could be overwritten
(`Change.mem_names_of_mem_upcast`), and the values stay with the fields that they belong to
(`Change.getElem?_upcast`).  Both go on for as long as changes are accepted.
-/

namespace SchemaLog

universe u

variable {α : Type u} {μ : Meaning α}

/-! ## Statements and keys -/

namespace Record

variable {r : Record α} {name k : String} {x : α}

theorem mem_insert : k ∈ r.insert name x ↔ k = name ∨ k ∈ r := by
  rw [Std.ExtTreeMap.mem_insert, Std.compare_eq_iff_eq, eq_comm]

theorem mem_erase : k ∈ r.erase name ↔ k ≠ name ∧ k ∈ r := by
  rw [Std.ExtTreeMap.mem_erase, ne_eq, Std.compare_eq_iff_eq, eq_comm]

theorem mem_of_mem_store {x? : Option α} (h : k ∈ r.store name x?) : k = name ∨ k ∈ r := by
  cases x? with
  | none => exact .inr h
  | some x => exact mem_insert.mp h

theorem getElem?_store_of_ne (hne : name ≠ k) (x? : Option α) : (r.store name x?)[k]? = r[k]? := by
  cases x? with
  | none => rfl
  | some x => exact NameMap.getElem?_insert.trans (if_neg hne)

theorem getElem?_store_self : (r.store name (some x))[name]? = some x :=
  NameMap.getElem?_insert.trans (if_pos rfl)

end Record

namespace Change

variable {c : Change} {fields : List Field} {r : Record α}

/-- What is stored after a change was stored before or is taken, and it is not given up. -/
theorem mem_upcast {k : String} (hk : k ∈ c.upcast μ r) :
    k ∈ c.takes? ∨ (k ∈ r ∨ k ∈ c.needs?) ∧ k ∉ c.frees? := by
  rcases c with ⟨name, type, _ | expression⟩ | name | ⟨old, new⟩ | ⟨name, type, conversion⟩
  · exact .inr ⟨.inl hk, fun h => by cases h⟩
  · rcases Record.mem_insert.mp hk with rfl | hk
    · exact .inl rfl
    · exact .inr ⟨.inl hk, fun h => by cases h⟩
  · obtain ⟨hne, hk⟩ := Record.mem_erase.mp hk
    exact .inr ⟨.inl hk, fun h => hne (Option.some.inj h).symm⟩
  · obtain ⟨hne, hk⟩ := Record.mem_erase.mp hk
    rcases Record.mem_of_mem_store hk with rfl | hk
    · exact .inl rfl
    · exact .inr ⟨.inl hk, fun h => hne (Option.some.inj h).symm⟩
  · rcases Record.mem_of_mem_store hk with rfl | hk
    · exact .inr ⟨.inr rfl, fun h => by cases h⟩
    · exact .inr ⟨.inl hk, fun h => by cases h⟩

/-- **The keys stay among the fields.** -/
theorem mem_names_of_mem_upcast (h : c.Fits fields) (hr : ∀ k ∈ r, k ∈ Field.names fields)
    {k : String} (hk : k ∈ c.upcast μ r) : k ∈ Field.names (c.effect fields) := by
  rw [mem_names_effect h.needs]
  rcases mem_upcast hk with htakes | ⟨hthere | hneeds, hfrees⟩
  · exact .inl htakes
  · exact .inr ⟨hr k hthere, hfrees⟩
  · exact .inr ⟨h.needs k hneeds, hfrees⟩

/-- **A value stays with its field**, and goes through the conversion of a change that converts it,
unless the change takes a name under which there is a value already. -/
theorem getElem?_upcast (hfree : ∀ n ∈ c.takes?, n ∉ r) {k k' : String} {x : α}
    (hx : r[k]? = some x) (hk : c.carry k = some k') :
    (c.upcast μ r)[k']?
      = some ((c.conversion? k).toList.foldl (fun x conversion => μ.convert conversion x) x) := by
  have hmem : k ∈ r := NameMap.mem_iff.mpr ⟨x, hx⟩
  rcases c with ⟨name, type, _ | expression⟩ | name | ⟨old, new⟩ | ⟨name, type, conversion⟩
  · obtain rfl := Option.some.inj hk
    exact hx
  · obtain rfl := Option.some.inj hk
    have hne : name ≠ k := by
      rintro rfl
      exact hfree name rfl hmem
    exact (NameMap.getElem?_insert.trans (if_neg hne)).trans hx
  · rw [carry] at hk
    split at hk
    · cases hk
    · next hne =>
      obtain rfl := Option.some.inj hk
      exact (NameMap.getElem?_erase.trans (if_neg (Ne.symm hne))).trans hx
  · obtain rfl := Option.some.inj hk
    have hne : new ≠ k := by
      rintro rfl
      exact hfree new rfl hmem
    change ((r.store new (r[old]?.or μ.unset)).erase old)[if k = old then new else k]? = some x
    rw [NameMap.getElem?_erase]
    by_cases hold : k = old
    · -- The value is copied before it is deleted, and the two names differ.
      subst hold
      rw [if_pos rfl, if_neg (Ne.symm hne), hx, Option.some_or, Record.getElem?_store_self]
    · rw [if_neg hold, if_neg (Ne.symm hold), Record.getElem?_store_of_ne hne, hx]
  · obtain rfl := Option.some.inj hk
    change (r.store name ((r[name]?.or μ.unset).map (μ.convert conversion)))[k]? = _
    rw [conversion?]
    by_cases hname : k = name
    · subst hname
      rw [if_pos rfl, hx, Option.some_or, Option.map_some, Record.getElem?_store_self]
      rfl
    · rw [if_neg hname, Record.getElem?_store_of_ne (Ne.symm hname)]
      exact hx

/-! ## One change after the other -/

variable {changes : List Change}

/-- **The keys stay among the fields**, however many changes are made. -/
theorem Accepted.mem_names_of_mem_upcastAll (h : Accepted fields changes)
    (hr : ∀ k ∈ r, k ∈ Field.names fields) :
    ∀ k ∈ upcastAll μ changes r, k ∈ Field.names (effects changes fields) := by
  induction h generalizing r with
  | nil fields => exact hr
  | cons fits _ ih => exact ih fun k hk => mem_names_of_mem_upcast fits hr hk

/-- Accepted changes take no name under which there is a value. -/
theorem Accepted.notMem_upcastAll (h : Accepted fields changes)
    (hr : ∀ k ∈ r, k ∈ Field.names fields) {before after : List Change} {c : Change}
    (hsplit : changes = before ++ c :: after) : ∀ n ∈ c.takes?, n ∉ upcastAll μ before r := by
  rw [hsplit, accepted_append_iff] at h
  obtain ⟨hbefore, hrest⟩ := h
  cases hrest with
  | cons fits _ =>
    exact fun n hn hmem => fits.free n hn (hbefore.mem_names_of_mem_upcastAll hr n hmem)

/-- **The values stay with their fields**, however many changes are made. -/
theorem Accepted.getElem?_upcastAll (h : Accepted fields changes)
    (hr : ∀ k ∈ r, k ∈ Field.names fields) {k k' : String} {x : α} (hx : r[k]? = some x)
    (hk : carryAll changes k = some k') :
    (upcastAll μ changes r)[k']?
      = some ((conversions changes k).foldl (fun x conversion => μ.convert conversion x) x) := by
  induction h generalizing r k x with
  | nil fields =>
    obtain rfl := Option.some.inj hk
    exact hx
  | cons fits _ ih =>
    obtain ⟨n, hn, hrest⟩ := Option.bind_eq_some_iff.mp hk
    have hfree := fun m hm hmem => fits.free m hm (hr m hmem)
    have hstep := getElem?_upcast (μ := μ) hfree hx hn
    rw [conversions, hn, Option.elim_some, List.foldl_append]
    exact ih (fun m hm => mem_names_of_mem_upcast fits hr hm) hstep hrest

/-- What holds of a record that changes lead to certain fields. -/
structure Preserves (μ : Meaning α) (changes : List Change) (r : Record α) (fields : List Field) :
    Prop where
  /-- A default and a renamed field come under a key that is not there. -/
  fresh : ∀ before c after, changes = before ++ c :: after →
    ∀ n ∈ c.takes?, n ∉ upcastAll μ before r
  keys : ∀ k ∈ upcastAll μ changes r, k ∈ Field.names fields
  /-- A field that is not taken out has its value under its last name, after the conversions that
  were made to the field. -/
  values : ∀ k x, r[k]? = some x → ∀ k', carryAll changes k = some k' →
    (upcastAll μ changes r)[k']?
      = some ((conversions changes k).foldl (fun x conversion => μ.convert conversion x) x)

theorem Accepted.preserves (h : Accepted fields changes)
    (hr : ∀ k ∈ r, k ∈ Field.names fields) : Preserves μ changes r (effects changes fields) where
  fresh _ _ _ hsplit := h.notMem_upcastAll hr hsplit
  keys := h.mem_names_of_mem_upcastAll hr
  values _ _ hx _ hk := h.getElem?_upcastAll hr hx hk

end Change

/-! ## The changes of a plan -/

namespace Evolution

open Command

variable {policy : VersionPolicy} {cs : List Command} {e : Evolution}

/-- A document is there as soon as its declaration is in effect. -/
theorem exists_document?_of_declaredAt? (h : (start policy).applyAll cs = (e, none))
    {name : String} {declared version : Version}
    (hdeclared : e.resolve.declaredAt? name = some declared) (hle : declared ≤ version)
    {e₀ : Evolution} (h₀ : (start policy).applyAll (upTo version cs) = (e₀, none)) :
    ∃ d, e₀.document? name = some d := by
  obtain ⟨x, -, hx, hdecl, rfl⟩ := History.exists_step_of_declaredAt? hdeclared
  have hsteps := steps_of_applyAll h
  have hmem : x ∈ (cs.takeWhile fun c => c.version ≤ version).map Step.ofCommand := by
    have hcut := Step.filter_effectiveFrom e.resolve.steps (UInt32.zero_le : 0 ≤ version)
    rw [hsteps, List.takeWhile_map] at hcut
    change x ∈ (cs.takeWhile ((fun s : Step => decide (s.version ≤ version))
      ∘ Step.ofCommand)).map Step.ofCommand
    rw [← hcut, ← hsteps]
    exact List.mem_map_of_mem (f := Prod.snd) (List.mem_filter.mpr ⟨hx, decide_eq_true hle⟩)
  obtain ⟨c, hc, rfl⟩ := List.mem_map.mp hmem
  have hcommands : e₀.commands = upTo version cs := commands_of_applyAll h₀
  have hc' : c ∈ e₀.commands := by
    rw [hcommands, upTo_eq_takeWhile]
    exact hc
  exact mem_catalog_iff_document?.mp ((wellFormed_of_applyAll h₀).mem_catalog_of_declares hc' hdecl)

/-- **The plan from a version is accepted by the document of that version**, and leads to the
current one. -/
theorem exists_accepted_plan (h : (start policy).applyAll cs = (e, none)) {d : Document}
    (hd : e.document? d.name = some d) {declared version : Version}
    (hdeclared : e.resolve.declaredAt? d.name = some declared) (hle : declared ≤ version)
    (hversion : version ≤ e.currentVersion) :
    ∃ e₀ old plan, (start policy).applyAll (upTo version cs) = (e₀, none)
      ∧ e₀.document? d.name = some old ∧ e.resolve.plan d.name version = .ok plan
      ∧ Change.Accepted old.fields plan.changes
      ∧ d.fields = Change.effects plan.changes old.fields := by
  obtain ⟨e₀, h₀, hrest⟩ := exists_applyAll_upTo h version
  obtain ⟨old, hold⟩ := exists_document?_of_declaredAt? h hdeclared hle h₀
  have hsteps := steps_of_applyAll h
  have hsome : (e.resolve.declaredAt? d.name).isSome := hdeclared ▸ rfl
  have hfields : e₀.fields? d.name = some old.fields := congrArg (Option.map Document.fields) hold
  obtain ⟨haccepted, heffects⟩ :=
    accepted_of_applyAll (wellFormed_of_applyAll h₀) hrest hfields
  have hchanges : (⟨d.name, version, e.currentVersion,
      Stage.group (e.resolve.changesAfter d.name version)⟩ : Plan).changes
        = changesTo d.name (cs.dropWhile fun c => c.version ≤ version) :=
    (Stage.flatMap_changes_group _).trans (History.map_snd_changesAfter hsteps version)
  refine ⟨e₀, old, _, h₀, hold, History.plan_eq_ok hsome hversion, ?_, ?_⟩
  · exact hchanges ▸ haccepted
  · rw [fields?, hd, Option.map_some, Option.some.injEq] at heffects
    exact heffects.trans (congrArg (Change.effects · old.fields) hchanges.symm)

variable {s : Schema}

/-- **An upcast loses and overwrites nothing**: a record whose keys are the field names of a version
is brought to the current one with every value that is not removed, converted as it was planned.
What is run for a change is its `program`, and that is what the generated lines hold
(`Change.statements_eq`). -/
theorem plan_preserves_record (h : replay policy cs = .ok s) {d : Document} (hd : d ∈ s.documents)
    {declared version : Version} (hdeclared : s.declaredAt? d.name = some declared)
    (hle : declared ≤ version) (hversion : version ≤ s.currentVersion) (μ : Meaning α) :
    ∃ earlier old plan, replay policy (upTo version cs) = .ok earlier
      ∧ earlier.document? d.name = some old ∧ s.plan d.name version = .ok plan
      ∧ ∀ r : Record α, (∀ k, k ∈ r ↔ k ∈ old.fieldNames) →
          Change.Preserves μ plan.changes r d.fields := by
  obtain ⟨e, he, rfl⟩ := replay_eq_ok_iff.mp h
  have hwf := wellFormed_of_applyAll he
  rw [hwf.resolve_documents, hwf.mem_documents_iff] at hd
  obtain ⟨e₀, old, plan, h₀, hold, hplan, haccepted, hfields⟩ :=
    exists_accepted_plan he hd hdeclared hle hversion
  refine ⟨e₀.resolve, old, plan, replay_eq_ok_iff.mpr ⟨e₀, h₀, rfl⟩, ?_, hplan, fun r hr => ?_⟩
  · rw [(wellFormed_of_applyAll h₀).document?_resolve, hold]
  · rw [hfields]
    exact haccepted.preserves fun k hk => (hr k).mp hk

/-- The values are texts, and a conversion leaves a trace in them. -/
def traced : Meaning String :=
  ⟨none, id, fun conversion x => conversion ++ " of " ++ x⟩

/-- A user that was stored at version 1 of `unevenLog`. -/
def storedUser : Record String :=
  ((∅ : Record String).insert "age" "7").insert "mail" "a@b"

theorem plan_preserves_record_unevenLog :
    replay .lenient unevenLog = .ok unevenSchema ∧ unevenSchema.declaredAt? "user" = some 1
      ∧ (∀ k, k ∈ storedUser ↔ k ∈ ["age", "mail"])
      ∧ ∃ plan, unevenSchema.plan "user" 1 = .ok plan
          ∧ Change.carryAll plan.changes "age" = some "years"
          ∧ Change.conversions plan.changes "age" = ["String(years)"]
          ∧ (Change.upcastAll traced plan.changes storedUser)["years"]?
              = some "String(years) of 7" := by
  have hkeys : ∀ k, k ∈ storedUser ↔ k ∈ ["age", "mail"] := by
    intro k
    rw [storedUser, Record.mem_insert, Record.mem_insert]
    simp [or_comm]
  have hplan : unevenSchema.plan "user" 1 = .ok ⟨"user", 1, 5,
      [⟨3, [.rename "age" "years", .add ⟨"age", .boolean, some "false"⟩]⟩,
        ⟨5, [.remove "mail", .retype "years" .string "String(years)"]⟩]⟩ := rfl
  have hearlier : replay .lenient (upTo 1 unevenLog) = .ok
    ⟨⟨1, (upTo 1 unevenLog).map Step.ofCommand⟩,
      [⟨"user", [⟨"age", .number, some "0"⟩, ⟨"mail", .string, none⟩], 1⟩]⟩ := rfl
  obtain ⟨earlier, old, plan, hreplay, hold, hplan', hkeeps⟩ :=
    plan_preserves_record replay_unevenLog List.mem_cons_self rfl (UInt32.le_refl 1) (by decide)
      traced
  obtain rfl := Except.ok.inj (hearlier.symm.trans hreplay)
  obtain rfl := Except.ok.inj (hplan.symm.trans hplan')
  obtain rfl := Option.some.inj (hold.symm.trans rfl)
  refine ⟨replay_unevenLog, rfl, hkeys, _, hplan, rfl, rfl, ?_⟩
  exact (hkeeps storedUser hkeys).values "age" "7" rfl "years" rfl

end Evolution

end SchemaLog
