import SchemaLog.Proofs.Plans

/-!
# Proofs/Lineage — a field goes on under other names

    a ──rename──▸ b ──retype──▸ b ──rename──▸ c ──remove──▸

A field has nothing but its name, and the name that one field gives up another one can take.
`Change.carryAll` follows one field through changes to the name that it has in the end, unless it is
taken out on the way.  The changes that a document has gone through were `Accepted` one by one
(`accepted_of_applyAll`), and under accepted changes a field that is followed is a field
(`Accepted.mem_names_carryAll`).
-/

namespace SchemaLog

namespace Change

/-! ## Following a field -/

/-- The name under which a field goes on after a change, unless the change takes it out. -/
def carry (c : Change) (name : String) : Option String :=
  match c with
  | .remove gone => if name = gone then none else some name
  | .rename old new => some (if name = old then new else name)
  | .add _ | .retype _ _ _ => some name

/-- The name under which a field goes on after changes that are made one after the other. -/
def carryAll : List Change → String → Option String
  | [], name => some name
  | c :: rest, name => (c.carry name).bind (carryAll rest)

/-- The conversion that a change makes to a field of a name. -/
def conversion? (c : Change) (name : String) : Option String :=
  match c with
  | .retype retyped _ conversion => if name = retyped then some conversion else none
  | .add _ | .remove _ | .rename _ _ => none

/-- The conversions that changes make to a field, in order, as long as it is there. -/
def conversions : List Change → String → List String
  | [], _ => []
  | c :: rest, name => (c.conversion? name).toList ++ (c.carry name).elim [] (conversions rest)

theorem carryAll_append (changes more : List Change) (name : String) :
    carryAll (changes ++ more) name = (carryAll changes name).bind (carryAll more) := by
  induction changes generalizing name with
  | nil => rfl
  | cons c rest ih =>
    rw [List.cons_append, carryAll, carryAll, Option.bind_assoc]
    exact Option.bind_congr fun n _ => ih n

theorem carryAll_concat (changes : List Change) (c : Change) (name : String) :
    carryAll (changes ++ [c]) name = (carryAll changes name).bind c.carry := by
  rw [carryAll_append]
  refine Option.bind_congr fun n _ => ?_
  rw [carryAll]
  cases c.carry n <;> rfl

theorem carry_eq_none_iff {c : Change} {name : String} :
    c.carry name = none ↔ c = .remove name := by
  cases c <;> simp [carry, eq_comm]

/-- **A field is lost only by being taken out** under the name that it has got by then. -/
theorem carryAll_eq_none_iff {changes : List Change} {name : String} :
    carryAll changes name = none
      ↔ ∃ before current after, changes = before ++ .remove current :: after
          ∧ carryAll before name = some current := by
  constructor
  · intro h
    induction changes generalizing name with
    | nil => cases h
    | cons c rest ih =>
      rw [carryAll, Option.bind_eq_none_iff] at h
      cases hcarry : c.carry name with
      | none => exact ⟨[], name, rest, by rw [carry_eq_none_iff.mp hcarry]; rfl, rfl⟩
      | some n =>
        obtain ⟨before, current, after, rfl, hbefore⟩ := ih (h n hcarry)
        refine ⟨c :: before, current, after, rfl, ?_⟩
        rw [carryAll, hcarry, Option.bind_some, hbefore]
  · rintro ⟨before, current, after, rfl, hbefore⟩
    rw [carryAll_append, hbefore, Option.bind_some, carryAll, carry_eq_none_iff.mpr rfl,
      Option.bind_none]

/-! ## Accepted changes -/

/-- A change can be made to fields: the name that it needs is there, and the one that it takes is
free. -/
structure Fits (c : Change) (fields : List Field) : Prop where
  needs : ∀ n ∈ c.needs?, n ∈ Field.names fields
  free : ∀ n ∈ c.takes?, n ∉ Field.names fields

/-- Changes can be made to fields one after the other. -/
inductive Accepted : List Field → List Change → Prop
  | nil (fields : List Field) : Accepted fields []
  | cons {fields : List Field} {c : Change} {rest : List Change} (fits : c.Fits fields)
      (accepted : Accepted (c.effect fields) rest) : Accepted fields (c :: rest)

variable {fields : List Field} {c : Change} {changes : List Change} {name : String}

theorem effects_append (changes more : List Change) (fields : List Field) :
    effects (changes ++ more) fields = effects more (effects changes fields) :=
  List.foldl_append

theorem accepted_append_iff {more : List Change} :
    Accepted fields (changes ++ more)
      ↔ Accepted fields changes ∧ Accepted (effects changes fields) more := by
  induction changes generalizing fields with
  | nil => exact ⟨fun h => ⟨.nil fields, h⟩, And.right⟩
  | cons c rest ih =>
    constructor
    · intro h
      cases h with
      | cons fits h =>
        obtain ⟨hrest, hmore⟩ := ih.mp h
        exact ⟨.cons fits hrest, hmore⟩
    · rintro ⟨h, hmore⟩
      cases h with
      | cons fits hrest => exact .cons fits (ih.mpr ⟨hrest, hmore⟩)

/-- The last change has to fit what the others have led to. -/
theorem accepted_concat_iff :
    Accepted fields (changes ++ [c])
      ↔ Accepted fields changes ∧ c.Fits (effects changes fields) := by
  rw [accepted_append_iff]
  refine and_congr_right fun _ => ⟨fun h => ?_, fun h => .cons h (.nil _)⟩
  cases h with
  | cons fits _ => exact fits

/-- **A field that is followed is a field.** -/
theorem Fits.mem_names_carry (h : c.Fits fields) (hname : name ∈ Field.names fields) {n : String}
    (hn : c.carry name = some n) : n ∈ Field.names (c.effect fields) := by
  rw [mem_names_effect h.needs]
  cases c with
  | add field =>
    obtain rfl := Option.some.inj hn
    exact .inr ⟨hname, fun hfree => by cases hfree⟩
  | remove gone =>
    rw [carry] at hn
    split at hn
    · cases hn
    · next hne =>
      obtain rfl := Option.some.inj hn
      exact .inr ⟨hname, fun hfree => hne (Option.some.inj hfree).symm⟩
  | rename old new =>
    obtain rfl := Option.some.inj hn
    by_cases hold : name = old
    · exact .inl (congrArg some (if_pos hold).symm)
    · rw [if_neg hold]
      exact .inr ⟨hname, fun hfree => hold (Option.some.inj hfree).symm⟩
  | retype retyped type conversion =>
    obtain rfl := Option.some.inj hn
    exact .inr ⟨hname, fun hfree => by cases hfree⟩

theorem Accepted.mem_names_carryAll (h : Accepted fields changes)
    (hname : name ∈ Field.names fields) {n : String} (hn : carryAll changes name = some n) :
    n ∈ Field.names (effects changes fields) := by
  induction h generalizing name with
  | nil fields => exact Option.some.inj hn ▸ hname
  | cons fits _ ih =>
    obtain ⟨m, hm, hrest⟩ := Option.bind_eq_some_iff.mp hn
    exact ih (fits.mem_names_carry hname hm) hrest

/-! ## Where a field comes from -/

/-- A field of a name was added: one of the changes added it, and the others carried it there. -/
def AddedAs (changes : List Change) (name : String) : Prop :=
  ∃ before field after, changes = before ++ .add field :: after
    ∧ carryAll after field.name = some name

/-- A field that there is after a change was there before, unless it was added. -/
theorem Fits.carried_or_added (h : c.Fits fields) (hname : name ∈ Field.names (c.effect fields)) :
    (∃ n ∈ Field.names fields, c.carry n = some name)
      ∨ ∃ field, c = .add field ∧ field.name = name := by
  rcases (mem_names_effect h.needs).mp hname with htakes | ⟨hthere, hfrees⟩
  · cases c with
    | add field => exact .inr ⟨field, rfl, Option.some.inj htakes⟩
    | rename old new =>
      obtain rfl := Option.some.inj htakes
      exact .inl ⟨old, h.needs old rfl, congrArg some (if_pos rfl)⟩
    | remove gone => cases htakes
    | retype retyped type conversion => cases htakes
  · refine .inl ⟨name, hthere, ?_⟩
    cases c with
    | add field => rfl
    | rename old new => exact congrArg some (if_neg fun heq => hfrees (congrArg some heq.symm))
    | remove gone => exact if_neg fun heq => hfrees (congrArg some heq.symm)
    | retype retyped type conversion => rfl

/-- **Every field was carried or added.** -/
theorem Accepted.carried_or_added (h : Accepted fields changes)
    (hname : name ∈ Field.names (effects changes fields)) :
    (∃ n ∈ Field.names fields, carryAll changes n = some name) ∨ AddedAs changes name := by
  induction h with
  | nil fields => exact .inl ⟨name, hname, rfl⟩
  | @cons fields c rest fits _ ih =>
    rcases ih hname with ⟨m, hm, hcarry⟩ | ⟨before, field, after, rfl, hadded⟩
    · rcases fits.carried_or_added hm with ⟨n, hn, hstep⟩ | ⟨field, rfl, rfl⟩
      · exact .inl ⟨n, hn, by rw [carryAll, hstep, Option.bind_some, hcarry]⟩
      · exact .inr ⟨[], field, rest, rfl, hcarry⟩
    · exact .inr ⟨c :: before, field, after, rfl, hadded⟩

end Change

/-! ## The changes of a log -/

namespace Command

variable {document : String} {c : Command}

theorem changesTo_cons_of_ne (hne : c.document ≠ document) (cs : List Command) :
    changesTo document (c :: cs) = changesTo document cs := by
  have hchange : c.changeTo? document = none := if_neg hne
  rw [changesTo, List.filterMap_cons, hchange]
  rfl

theorem changesTo_cons_change {change : Change} (haction : c.action = .change change)
    (cs : List Command) :
    changesTo c.document (c :: cs) = change :: changesTo c.document cs := by
  have hchange : c.changeTo? c.document = some change := by simp [changeTo?, change?, haction]
  rw [changesTo, List.filterMap_cons, hchange]
  rfl

end Command

namespace Evolution

open Command

variable {e e' : Evolution} {cs : List Command} {name : String} {fields : List Field}

/-- **The changes that a document has gone through were accepted**, and have led to its fields. -/
theorem accepted_of_applyAll (hwf : e.WellFormed) (h : e.applyAll cs = (e', none))
    (hfields : e.fields? name = some fields) :
    Change.Accepted fields (changesTo name cs)
      ∧ e'.fields? name = some (Change.effects (changesTo name cs) fields) := by
  refine ⟨?_, by rw [fields?_of_applyAll hwf h, hfields]; rfl⟩
  induction cs generalizing e fields with
  | nil => exact .nil fields
  | cons c rest ih =>
    obtain ⟨e₁, hc, hrest⟩ := applyAll_cons_iff.mp h
    have hacc := accepts_of_apply hc
    by_cases hname : c.document = name
    swap
    · rw [changesTo_cons_of_ne hname]
      refine ih (hwf.accepts hacc) hrest ?_
      rw [fields?, hacc.document?_of_ne hname]
      exact hfields
    subst hname
    obtain ⟨d, hd, rfl⟩ := Option.map_eq_some_iff.mp hfields
    cases hacc with
    | declared _ _ hnew _ => exact absurd (mem_catalog_iff_document?.mpr ⟨d, hd⟩) hnew
    | @changed change d' hstamp haction hd' hchange =>
      obtain rfl : d = d' := Option.some.inj (hd.symm.trans hd')
      obtain ⟨hneeds, hfree⟩ := Document.change_accepted_iff.mp hchange
      rw [changesTo_cons_change haction]
      refine .cons ⟨hneeds, hfree⟩ (ih (hwf.accepts (accepts_of_apply hc)) hrest ?_)
      have hnodup := (hwf.entry c.document d hd).nodup_fieldNames
      rw [fields?, note_document?, document?_put_self, Document.change_of_accepted hnodup hchange]
      rfl

end Evolution

end SchemaLog
