import SchemaLog.Replay
import SchemaLog.Proofs.Effect

/-!
# Proofs/Transition — what one command does to an evolution

A command is accepted or refused.  A refused one leaves the evolution as it was, although it is
written as a sequence of updates (`apply_refused`); an accepted one does what the relation `Accepts`
says and nothing else (`accepts_of_apply`).  No later proof opens `Evolution.apply`.
-/

namespace SchemaLog

/-! ## Maps from names

Documents are kept by name, and so are the values of a record. -/

namespace NameMap

universe u

variable {β : Type u} {map : Std.ExtTreeMap String β} {name other : String} {b : β}

theorem getElem?_insert :
    (map.insert name b)[other]? = if name = other then some b else map[other]? := by
  rw [Std.ExtTreeMap.getElem?_insert]
  simp only [Std.compare_eq_iff_eq]

theorem getElem?_erase :
    (map.erase name)[other]? = if name = other then none else map[other]? := by
  rw [Std.ExtTreeMap.getElem?_erase]
  simp only [Std.compare_eq_iff_eq]

/-- Putting something back to where it was changes nothing. -/
theorem insert_getElem? (h : map[name]? = some b) : map.insert name b = map := by
  refine Std.ExtTreeMap.ext_getElem? fun other => ?_
  rw [getElem?_insert]
  split
  · next heq => rw [← heq, h]
  · rfl

theorem mem_iff : name ∈ map ↔ ∃ b, map[name]? = some b := by
  rw [Std.ExtTreeMap.mem_iff_isSome_getElem?, Option.isSome_iff_exists]

end NameMap

/-! ## The parts of a transition -/

namespace Document

variable {name : String} {fields : List Field} {version : Version} {d : Document}

theorem declare_eq_ok_iff :
    declare name fields version = .ok d
      ↔ (Field.names fields).Nodup ∧ d = ⟨name, fields, version⟩ := by
  have hnone := Field.repeatedName?_eq_none_iff [] fields
  simp only [List.not_mem_nil, not_false_eq_true, implies_true, and_true] at hnone
  rw [← hnone]
  cases h : Field.repeatedName? [] fields with
  | none => simp only [declare, h, Except.ok.injEq, true_and, eq_comm]
  | some n => simp [declare, h]

end Document

namespace Evolution

variable {e e' : Evolution} {c : Command}

@[simp] theorem note_order : (e.note c).order = e.order := rfl
@[simp] theorem note_catalog : (e.note c).catalog = e.catalog := rfl
@[simp] theorem note_commands : (e.note c).commands = e.commands ++ [c] := rfl

@[simp] theorem note_document? (name : String) :
    (e.note c).document? name = e.document? name := rfl

/-- The evolution with a document put under its name. -/
def put (e : Evolution) (name : String) (d : Document) : Evolution :=
  { e with catalog := e.catalog.insert name d }

variable {name other : String} {d : Document}

@[simp] theorem put_order : (e.put name d).order = e.order := rfl
@[simp] theorem put_commands : (e.put name d).commands = e.commands := rfl

theorem document?_put :
    (e.put name d).document? other = if name = other then some d else e.document? other :=
  NameMap.getElem?_insert

@[simp] theorem document?_put_self : (e.put name d).document? name = some d := by
  rw [document?_put, if_pos rfl]

@[simp] theorem mem_put_catalog :
    other ∈ (e.put name d).catalog ↔ other = name ∨ other ∈ e.catalog := by
  rw [put, Std.ExtTreeMap.mem_insert, Std.compare_eq_iff_eq, eq_comm]

theorem mem_catalog_iff_document? : name ∈ e.catalog ↔ ∃ d, e.document? name = some d :=
  NameMap.mem_iff

theorem document?_eq_none_iff : e.document? name = none ↔ name ∉ e.catalog := by
  rw [mem_catalog_iff_document?, ← Option.not_isSome_iff_eq_none, Option.isSome_iff_exists]

/-- What an accepted command leads to: the document that it is about is put into the catalog, in
the order it comes last if it is new, and the command is noted. -/
inductive Accepts (e : Evolution) (c : Command) : Evolution → Prop
  | declared {fields : List Field}
      (hstamp : e.stampFault? c.version = none) (haction : c.action = .declare fields)
      (hnew : c.document ∉ e.catalog) (hfields : (Field.names fields).Nodup) :
      Accepts e c (({ e with order := e.order ++ [c.document] }.put c.document
        ⟨c.document, fields, c.version⟩).note c)
  | changed {change : Change} {d : Document}
      (hstamp : e.stampFault? c.version = none) (haction : c.action = .change change)
      (hd : e.document? c.document = some d) (hchange : (d.change change).2 = none) :
      Accepts e c ((e.put c.document (d.change change).1).note c)

/-! ## What is asked of a document

Once its stamp is let through, a command is accepted or refused by its document. -/

theorem transition_declare {fields : List Field} (hstamp : e.stampFault? c.version = none)
    (haction : c.action = .declare fields) :
    e.transition c = e.declare c.document fields c.version := by
  rw [transition, hstamp, haction]

theorem transition_undeclared {change : Change} (hstamp : e.stampFault? c.version = none)
    (haction : c.action = .change change) (hnone : e.document? c.document = none) :
    e.transition c = (e, some (.unknownDocument c.document)) := by
  simp only [transition, hstamp, haction, Evolution.change, hnone]

theorem transition_change {change : Change} (hstamp : e.stampFault? c.version = none)
    (haction : c.action = .change change) (hd : e.document? c.document = some d) :
    e.transition c = (e.put c.document (d.change change).1, (d.change change).2) := by
  simp only [transition, hstamp, haction, Evolution.change, hd]
  rfl

/-! ## A refusal leaves no trace -/

theorem declare_refused {fields : List Field} {version : Version} {reason : Rejection}
    (h : (e.declare name fields version).2 = some reason) :
    (e.declare name fields version).1 = e := by
  rw [declare] at h ⊢
  split
  · rfl
  · next hnew =>
    rw [if_neg hnew] at h
    rcases hd : Document.declare name fields version with reason' | d
    · rfl
    · rw [hd] at h
      cases h

/-- A document that refuses its change is written back as it was. -/
theorem change_refused {change : Change} {reason : Rejection}
    (h : (e.change name change).2 = some reason) : (e.change name change).1 = e := by
  rw [Evolution.change] at h ⊢
  rcases hd : e.document? name with _ | d
  · rfl
  · rw [hd] at h
    simp only [Document.change_refused h, NameMap.insert_getElem? hd]

theorem transition_refused {reason : Rejection} (h : (e.transition c).2 = some reason) :
    (e.transition c).1 = e := by
  rw [transition] at h ⊢
  rcases hstamp : e.stampFault? c.version with _ | reason'
  · rw [hstamp] at h
    rcases haction : c.action with fields | change <;> rw [haction] at h
    · exact declare_refused h
    · exact change_refused h
  · rfl

/-- A command is refused when its transition is. -/
theorem apply_of_transition_refused {reason : Rejection}
    (h : (e.transition c).2 = some reason) :
    e.apply c = (e, some (.ofCommand e.commands.length c reason)) := by
  have ht : e.transition c = (e, some reason) := Prod.ext (transition_refused h) h
  rw [apply, ht]

/-- **A refused command leaves the evolution as it was.**  The refusal is about this command, and
counts the commands accepted before it. -/
theorem apply_refused {r : Refusal} (h : e.apply c = (e', some r)) :
    e' = e ∧ (e.transition c).2 = some r.reason
      ∧ r = .ofCommand e.commands.length c r.reason := by
  rcases ht : (e.transition c).2 with _ | reason
  · have hnone : e.transition c = ((e.transition c).1, none) := Prod.ext rfl ht
    rw [apply, hnone] at h
    cases h
  · rw [apply_of_transition_refused ht] at h
    cases h
    exact ⟨rfl, rfl, rfl⟩

/-! ## What an accepted command does -/

/-- A new document comes last. -/
theorem declare_accepted {fields : List Field} {version : Version}
    (h : e.declare name fields version = (e', none)) :
    name ∉ e.catalog ∧ (Field.names fields).Nodup
      ∧ e' = { e with order := e.order ++ [name] }.put name ⟨name, fields, version⟩ := by
  rw [declare] at h
  split at h
  · cases h
  · next hnew =>
    rcases hd : Document.declare name fields version with reason | d <;> rw [hd] at h
    · cases h
    · obtain ⟨hfields, rfl⟩ := Document.declare_eq_ok_iff.mp hd
      exact ⟨hnew, hfields, (congrArg Prod.fst h).symm⟩

/-- A changed document stays where it is. -/
theorem change_accepted {change : Change} (h : e.change name change = (e', none)) :
    ∃ d, e.document? name = some d ∧ (d.change change).2 = none
      ∧ e' = e.put name (d.change change).1 := by
  rw [Evolution.change] at h
  rcases hd : e.document? name with _ | d <;> rw [hd] at h
  · cases h
  · obtain ⟨he, hchange⟩ := Prod.mk.inj h
    exact ⟨d, rfl, hchange, he.symm⟩

/-- **An accepted command does what `Accepts` says.** -/
theorem accepts_of_apply (h : e.apply c = (e', none)) : Accepts e c e' := by
  obtain ⟨e₁, ht, rfl⟩ : ∃ e₁, e.transition c = (e₁, none) ∧ e₁.note c = e' := by
    rw [apply] at h
    rcases ht : e.transition c with ⟨e₁, _ | reason⟩ <;> rw [ht] at h
    · exact ⟨e₁, rfl, congrArg Prod.fst h⟩
    · cases h
  rw [transition] at ht
  rcases hstamp : e.stampFault? c.version with _ | reason <;> rw [hstamp] at ht
  · rcases haction : c.action with fields | change <;> rw [haction] at ht
    · obtain ⟨hnew, hfields, rfl⟩ := declare_accepted ht
      exact .declared hstamp haction hnew hfields
    · obtain ⟨d, hd, hchange, rfl⟩ := change_accepted ht
      exact .changed hstamp haction hd hchange
  · cases ht

/-- …and where that can be done, the command is accepted. -/
theorem apply_of_accepts (h : Accepts e c e') : e.apply c = (e', none) := by
  cases h with
  | @declared fields hstamp haction hnew hfields =>
    have hdeclare := Document.declare_eq_ok_iff (d := ⟨c.document, fields, c.version⟩).mpr
      ⟨hfields, rfl⟩
    rw [apply, transition_declare hstamp haction, declare, if_neg hnew, hdeclare]
    rfl
  | changed hstamp haction hd hchange =>
    rw [apply, transition_change hstamp haction hd, hchange]

namespace Accepts

/-- **The log grows by the command.** -/
theorem commands_eq (h : Accepts e c e') : e'.commands = e.commands ++ [c] := by
  cases h <;> rfl

theorem steps_eq (h : Accepts e c e') : e'.steps = e.steps ++ [Step.ofCommand c] := by
  cases h <;> rfl

theorem currentVersion_eq (h : Accepts e c e') :
    e'.currentVersion = max e.currentVersion c.version := by
  cases h <;> rfl

theorem policy_eq (h : Accepts e c e') : e'.policy = e.policy := by
  cases h <;> rfl

theorem stampFault?_eq (h : Accepts e c e') : e.stampFault? c.version = none := by
  cases h <;> assumption

/-- **Other documents are not touched.** -/
theorem document?_of_ne (h : Accepts e c e') (hne : c.document ≠ name) :
    e'.document? name = e.document? name := by
  cases h <;> exact document?_put.trans (if_neg hne)

end Accepts

end Evolution

end SchemaLog
