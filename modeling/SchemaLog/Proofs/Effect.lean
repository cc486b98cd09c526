import SchemaLog.Document

/-!
# Proofs/Effect — what a change does to a list of fields

`Document.change` looks a field up by its name and works on the first one that it finds.  Where the
names are pairwise distinct there is no second one, and an accepted change is its `Change.effect`,
which treats all fields of a name alike (`change_of_accepted`).  Two names decide whether a change
is accepted: the one that it needs and the one that it takes (`change_accepted_iff`).
-/

namespace SchemaLog

namespace Change

/-- The field name that has to be there. -/
def needs? : Change → Option String
  | add _ => none
  | remove name => some name
  | rename old _ => some old
  | retype name _ _ => some name

/-- The field name that has to be free, and is given to a field. -/
def takes? : Change → Option String
  | add field => some field.name
  | remove _ => none
  | rename _ new => some new
  | retype _ _ _ => none

/-- The field name that is given up. -/
def frees? : Change → Option String
  | add _ => none
  | remove name => some name
  | rename old _ => some old
  | retype _ _ _ => none

/-- The effect on a list of fields: a new field comes last, and all others keep their places. -/
def effect : Change → List Field → List Field
  | add field, fields => fields ++ [field]
  | remove name, fields => fields.filter fun f => f.name != name
  | rename old new, fields =>
    fields.map fun f => if f.name = old then { f with name := new } else f
  | retype name type _, fields =>
    fields.map fun f => if f.name = name then { f with type := type, default := none } else f

end Change

/-! ## The first field of a name is the only one -/

namespace Field

theorem mem_names {fields : List Field} {name : String} :
    name ∈ names fields ↔ ∃ f ∈ fields, f.name = name := List.mem_map

theorem name_mem_names {fields : List Field} {f : Field} (h : f ∈ fields) :
    f.name ∈ names fields := List.mem_map_of_mem h

/-- Away from the name, nothing is changed. -/
theorem map_ite_of_notMem {name : String} {change : Field → Field} {fields : List Field}
    (h : name ∉ names fields) :
    (fields.map fun f => if f.name = name then change f else f) = fields := by
  have hid : ∀ f ∈ fields, (if f.name = name then change f else f) = id f := by
    intro f hf
    rw [if_neg fun heq : f.name = name => h (heq ▸ name_mem_names hf)]
    rfl
  rw [List.map_congr_left hid, List.map_id]

theorem updateFirst_eq_map {name : String} {change : Field → Field} :
    ∀ {fields : List Field}, (names fields).Nodup →
      updateFirst name change fields = fields.map fun f => if f.name = name then change f else f
  | [], _ => rfl
  | f :: rest, h => by
    obtain ⟨hf, hrest⟩ := List.nodup_cons.mp h
    rw [updateFirst, List.map_cons]
    by_cases heq : f.name = name
    · rw [if_pos (beq_iff_eq.mpr heq), if_pos heq]
      rw [map_ite_of_notMem (heq ▸ hf)]
    · rw [if_neg (by simpa using heq), if_neg heq, updateFirst_eq_map hrest]

theorem eraseFirst_eq_filter {name : String} :
    ∀ {fields : List Field}, (names fields).Nodup →
      eraseFirst name fields = fields.filter fun f => f.name != name
  | [], _ => rfl
  | f :: rest, h => by
    obtain ⟨hf, hrest⟩ := List.nodup_cons.mp h
    rw [eraseFirst, List.filter_cons]
    by_cases heq : f.name = name
    · have hall : ∀ g ∈ rest, (g.name != name) = true := by
        intro g hg
        rw [bne_iff_ne, ← heq]
        exact fun h => hf (h ▸ name_mem_names hg)
      simp only [heq, beq_self_eq_true, if_true, bne_self_eq_false, Bool.false_eq_true, if_false]
      exact (List.filter_eq_self.mpr hall).symm
    · rw [if_neg (by simpa using heq), if_pos (by simpa using heq), eraseFirst_eq_filter hrest]

end Field

/-! ## Acceptance and effect -/

namespace Document

variable {d : Document} {c : Change}

/-- **A change is accepted exactly when the name it needs is there** and the one it takes is free.
-/
theorem change_accepted_iff :
    (d.change c).2 = none
      ↔ (∀ n ∈ c.needs?, n ∈ d.fieldNames) ∧ ∀ n ∈ c.takes?, n ∉ d.fieldNames := by
  cases c <;> simp only [change, Change.needs?, Change.takes?, fieldNames]
    <;> (repeat' split) <;> simp_all

/-- **Why a change is refused**: the name that it needs is looked for first. -/
theorem change_refused_iff {reason : Rejection} :
    (d.change c).2 = some reason
      ↔ (∃ n ∈ c.needs?, n ∉ d.fieldNames ∧ reason = .unknownField d.name n)
        ∨ ((∀ n ∈ c.needs?, n ∈ d.fieldNames)
          ∧ ∃ n ∈ c.takes?, n ∈ d.fieldNames ∧ reason = .duplicateField d.name n) := by
  cases c <;> simp only [change, Change.needs?, Change.takes?, fieldNames]
    <;> (repeat' split) <;> simp_all [@eq_comm _ reason]

/-- **An accepted change is its effect.** -/
theorem change_of_accepted (hd : d.fieldNames.Nodup) (h : (d.change c).2 = none) :
    (d.change c).1 = { d with fields := c.effect d.fields } := by
  obtain ⟨hneeds, htakes⟩ := change_accepted_iff.mp h
  have there : ∀ n ∈ c.needs?, Field.declares d.fields n = true := fun n hn =>
    Field.declares_eq_true_iff.mpr (hneeds n hn)
  have free : ∀ n ∈ c.takes?, ¬ Field.declares d.fields n = true := fun n hn =>
    mt Field.declares_eq_true_iff.mp (htakes n hn)
  cases c with
  | add field =>
    rw [change, if_neg (free field.name rfl)]
    rfl
  | remove name =>
    rw [change, if_pos (there name rfl), Field.eraseFirst_eq_filter hd]
    rfl
  | rename old new =>
    rw [change, if_pos (there old rfl), if_neg (free new rfl), Field.updateFirst_eq_map hd]
    rfl
  | retype name type conversion =>
    rw [change, if_pos (there name rfl), Field.updateFirst_eq_map hd]
    rfl

end Document

/-- **The names after a change**: the taken one is new, the freed one is gone. -/
theorem Change.mem_names_effect {c : Change} {fields : List Field} {x : String}
    (hneeds : ∀ n ∈ c.needs?, n ∈ Field.names fields) :
    x ∈ Field.names (c.effect fields)
      ↔ x ∈ c.takes? ∨ x ∈ Field.names fields ∧ x ∉ c.frees? := by
  cases c with
  | add field => simp [effect, takes?, frees?, Field.names, eq_comm, or_comm]
  | remove name => simp [effect, takes?, frees?, Field.mem_names]; grind
  | rename old new =>
    obtain ⟨f, hf, hold⟩ := Field.mem_names.mp (hneeds old rfl)
    simp only [effect, takes?, frees?, Field.mem_names, List.mem_map, Option.mem_def,
      Option.some.injEq]
    grind
  | retype name type conversion =>
    simp only [effect, takes?, frees?, Field.mem_names, List.mem_map]
    grind

end SchemaLog
