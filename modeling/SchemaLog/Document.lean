import SchemaLog.Field

/-!
# Document — a named list of fields, and the changes its fields undergo

A document is declared once with its first fields.  After that a `Change` adds, removes, renames or
retypes one field.  `Document.declare` and `Document.change` check before they act and say with a
`Rejection` what is wrong: a refused change leaves the document as it was (`change_refused`), and
the field names stay pairwise distinct in any case (`nodup_names_change`).
-/

namespace SchemaLog

/-- The number of a schema version: a 32-bit word, as it is stamped on every command. -/
abbrev Version := UInt32

/-- A version in digits. -/
def Version.text (v : Version) : String :=
  String.ofList (Nat.toDigits 10 v.toNat)

theorem Version.max_eq_ite (v w : Version) : max v w = if v ≤ w then w else v := rfl

/-- The larger of two versions is the least one above both. -/
instance : Std.LawfulOrderMax Version := by
  refine .of_max_le_iff (fun v w bound => ?_) (fun v w => ?_)
  · rw [Version.max_eq_ite]
    split
    · next h => exact ⟨fun hw => ⟨UInt32.le_trans h hw, hw⟩, And.right⟩
    · next h =>
      have h := (UInt32.le_total v w).resolve_left h
      exact ⟨fun hv => ⟨hv, UInt32.le_trans h hv⟩, And.left⟩
  · rw [Version.max_eq_ite]
    split
    · exact Or.inr rfl
    · exact Or.inl rfl

/-- What a command does to the fields of a document that is already declared. -/
inductive Change
  /-- The field is put behind the others. -/
  | add (field : Field)
  /-- The field is taken out. -/
  | remove (name : String)
  /-- The field keeps its place, type and default under a new name. -/
  | rename (old new : String)
  /-- The field gets a new type and loses its default.  The conversion is an expression for stored
  values that is passed on as it is written. -/
  | retype (name : String) (type : FieldType) (conversion : String)
  deriving DecidableEq

/-- Why a command cannot be applied. -/
inductive Rejection
  | duplicateDocument (document : String)
  | unknownDocument (document : String)
  | duplicateField (document field : String)
  | unknownField (document field : String)
  | lowVersion (version current : Version)
  deriving DecidableEq

/-- A named document: its fields in order, and the version at which it was declared. -/
structure Document where
  name : String
  fields : List Field
  version : Version
  deriving DecidableEq

namespace Document

/-- The first field of a name. -/
def field? (d : Document) (name : String) : Option Field :=
  Field.find? d.fields name

/-- The place of the first field of a name. -/
def position? (d : Document) (name : String) : Option Nat :=
  Field.position? d.fields name

/-- The field names, in order. -/
def fieldNames (d : Document) : List String :=
  Field.names d.fields

/-- The fields without a default, in order. -/
def requiredFields (d : Document) : List Field :=
  d.fields.filter Field.isRequired

/-- A new document; a field name that comes a second time is rejected. -/
def declare (name : String) (fields : List Field) (version : Version) :
    Except Rejection Document :=
  match Field.repeatedName? [] fields with
  | some field => .error (.duplicateField name field)
  | none => .ok ⟨name, fields, version⟩

/-- The change, where the document allows it: a name to be taken must be free, and a name to be
changed must be there.  For a renaming the old name is looked at first.  The document is given as
the change leaves it, together with what is wrong if the change is refused. -/
def change (d : Document) : Change → Document × Option Rejection
  | .add field =>
    if Field.declares d.fields field.name then (d, some (.duplicateField d.name field.name))
    else ({ d with fields := d.fields ++ [field] }, none)
  | .remove name =>
    if Field.declares d.fields name then
      ({ d with fields := Field.eraseFirst name d.fields }, none)
    else (d, some (.unknownField d.name name))
  | .rename old new =>
    if Field.declares d.fields old then
      if Field.declares d.fields new then (d, some (.duplicateField d.name new))
      else
        ({ d with fields := Field.updateFirst old (fun f => { f with name := new }) d.fields },
          none)
    else (d, some (.unknownField d.name old))
  | .retype name type _ =>
    if Field.declares d.fields name then
      ({ d with
          fields := Field.updateFirst name (fun f => { f with type := type, default := none })
            d.fields }, none)
    else (d, some (.unknownField d.name name))

/-- The field that a change takes out of the document, if it is one that does. -/
def removedBy? (d : Document) : Change → Option Field
  | .remove name => d.field? name
  | _ => none

/-- A change keeps the name and the version of the document. -/
@[simp] theorem name_version_change (d : Document) (c : Change) :
    (d.change c).1.name = d.name ∧ (d.change c).1.version = d.version := by
  cases c <;> simp only [change] <;> (repeat' split) <;> exact ⟨rfl, rfl⟩

/-- **A refused change leaves the document as it was.** -/
theorem change_refused {d : Document} {c : Change} {reason : Rejection}
    (h : (d.change c).2 = some reason) : (d.change c).1 = d := by
  cases c <;> simp only [change] at h ⊢ <;> (repeat' split) <;> simp_all

/-! ## Names stay distinct -/

theorem names_updateFirst_keep (name : String) (change : Field → Field)
    (hc : ∀ f, (change f).name = f.name) :
    ∀ fields : List Field, Field.names (Field.updateFirst name change fields) = Field.names fields
  | [] => rfl
  | f :: rest => by
    unfold Field.updateFirst
    split
    · simp [Field.names, hc]
    · have ih := names_updateFirst_keep name change hc rest
      simp only [Field.names, List.map_cons] at ih ⊢
      rw [ih]

theorem mem_names_updateFirst_rename {old new : String} :
    ∀ {fields : List Field} {x : String},
      x ∈ Field.names (Field.updateFirst old (fun f => { f with name := new }) fields) →
        x = new ∨ x ∈ Field.names fields
  | [], _, h => Or.inr h
  | f :: rest, x, h => by
    unfold Field.updateFirst at h
    split at h
    · simp only [Field.names, List.map_cons, List.mem_cons] at h ⊢
      exact h.imp id Or.inr
    · simp only [Field.names, List.map_cons, List.mem_cons] at h ⊢
      rcases h with h | h
      · exact Or.inr (Or.inl h)
      · exact (mem_names_updateFirst_rename h).imp id Or.inr

theorem nodup_names_updateFirst_rename {old new : String} :
    ∀ {fields : List Field}, (Field.names fields).Nodup → new ∉ Field.names fields →
      (Field.names (Field.updateFirst old (fun f => { f with name := new }) fields)).Nodup
  | [], h, _ => h
  | f :: rest, h, hn => by
    unfold Field.updateFirst
    simp only [Field.names, List.map_cons, List.nodup_cons, List.mem_cons, not_or] at h hn ⊢
    split
    · simp only [List.map_cons, List.nodup_cons]
      exact ⟨hn.2, h.2⟩
    · simp only [List.map_cons, List.nodup_cons]
      refine ⟨fun hm => ?_, nodup_names_updateFirst_rename h.2 hn.2⟩
      rcases mem_names_updateFirst_rename hm with hm | hm
      · exact hn.1 hm.symm
      · exact h.1 hm

/-- **A change keeps the field names pairwise distinct.** -/
theorem nodup_names_change {d : Document} (hd : d.fieldNames.Nodup) (c : Change) :
    (d.change c).1.fieldNames.Nodup := by
  unfold fieldNames at hd ⊢
  cases c with
  | add field =>
    simp only [change]
    split
    · exact hd
    · next hn =>
      have hn : field.name ∉ Field.names d.fields := by simpa using hn
      simp only [Field.names, List.map_append, List.map_cons, List.map_nil]
      refine List.nodup_append.mpr ⟨hd, by simp, ?_⟩
      intro a ha b hb
      obtain rfl := List.mem_singleton.mp hb
      exact fun h => hn (h ▸ ha)
  | remove name =>
    simp only [change]
    split
    · exact List.Nodup.sublist ((Field.eraseFirst_sublist name d.fields).map Field.name) hd
    · exact hd
  | rename old new =>
    simp only [change]
    split
    · split
      · exact hd
      · next hn => exact nodup_names_updateFirst_rename hd (by simpa using hn)
    · exact hd
  | retype name type conversion =>
    simp only [change]
    split
    · have hkeep := names_updateFirst_keep name (fun f => { f with type := type, default := none })
        (fun _ => rfl) d.fields
      exact hkeep.symm ▸ hd
    · exact hd

end Document

end SchemaLog
