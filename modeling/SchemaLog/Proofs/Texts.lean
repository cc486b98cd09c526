import SchemaLog.Artifact
import SchemaLog.Json.RoundTrip
import SchemaLog.Script

/-!
# Proofs/Texts — scripts and artifacts are read from their texts

    script     { [ { [ { } ] } ] }           commands, their fields
    artifact   { { [ { { [ { } ] } } ] } }   the schema, its steps, their commands, their fields

A value is read back from its text if its numbers are small and its lists and objects do not stand
too deep inside each other (`Json.fits`).  Both hold here whatever the names and expressions are, as
these are texts of their own: the depth is the one in the picture.  So a script is what is read of
its text (`Script.parse_text`), and an artifact too (`Artifact.parse?_text`).
-/

namespace SchemaLog

/-! ## What fits -/

namespace Json

variable {room : Nat}

mutual

/-- **What fits can be read**: there is nothing in it that is only passed over. -/
theorem isReadable_of_fits : ∀ {room : Nat} (v : Json), v.fits room = true → v.isReadable = true
  | _, .array items, h => by
    simp only [fits, Bool.and_eq_true] at h
    rw [isReadable, allReadable_of_itemsFit items h.2]
  | _, .object members, h => by
    simp only [fits, Bool.and_eq_true] at h
    rw [isReadable, membersReadable_of_membersFit members h.2]
  | _, .unreadable, h => by simp [fits] at h
  | _, .null, _ | _, .bool _, _ | _, .natural _, _ | _, .number _, _ | _, .string _, _ => rfl

theorem allReadable_of_itemsFit : ∀ {room : Nat} (items : List Json),
    itemsFit room items = true → allReadable items = true
  | _, [], _ => rfl
  | _, item :: rest, h => by
    simp only [itemsFit, Bool.and_eq_true] at h
    rw [allReadable, isReadable_of_fits item h.1, allReadable_of_itemsFit rest h.2, Bool.and_self]

theorem membersReadable_of_membersFit : ∀ {room : Nat} (members : List (String × Json)),
    membersFit room members = true → membersReadable members = true
  | _, [], _ => rfl
  | _, (key, value) :: rest, h => by
    simp only [membersFit, Bool.and_eq_true] at h
    rw [membersReadable, isReadable_of_fits value h.1, membersReadable_of_membersFit rest h.2,
      Bool.and_self]

end

theorem itemsFit_map {α : Type} {write : α → Json} (h : ∀ a, (write a).fits room = true)
    (as : List α) : itemsFit room (as.map write) = true := by
  induction as with
  | nil => rfl
  | cons a rest ih => rw [List.map_cons, itemsFit, h a, ih, Bool.and_self]

theorem membersFit_append (as bs : List (String × Json)) :
    membersFit room (as ++ bs) = (membersFit room as && membersFit room bs) := by
  induction as with
  | nil => rfl
  | cons m rest ih => rw [List.cons_append, membersFit, membersFit, ih, Bool.and_assoc]

@[simp] theorem membersFit_optionalMember (name : String) (value : Option String) :
    membersFit room (optionalMember name value) = true := by
  cases value <;> rfl

@[simp] theorem fits_string (s : String) : (Json.string s).fits room = true := rfl

/-- A stamp is far below the limit of what is read. -/
@[simp] theorem fits_ofWord (w : UInt32) : (ofWord w).fits room = true :=
  decide_eq_true (Nat.lt_trans w.toNat_lt_size (by decide))

end Json

/-! ## Scripts and artifacts fit

Each lemma says how many lists and objects there are inside each other, on top of what room is left
over. -/

section Depth

open Json

variable (room : Nat)

@[simp] theorem FieldType.fits_toJson (t : FieldType) : t.toJson.fits room = true := rfl

theorem Field.fits_toJson (f : Field) : f.toJson.fits (room + 1) = true := by
  simp [toJson, fits, membersFit]

theorem Field.itemsFit_toJson (fields : List Field) :
    itemsFit (room + 1) (fields.map Field.toJson) = true :=
  itemsFit_map (Field.fits_toJson room) fields

theorem Document.fits_toJson (d : Document) : d.toJson.fits (room + 3) = true := by
  simp [toJson, fits, membersFit, Field.itemsFit_toJson]

theorem Command.fits_toJson (c : Command) : c.toJson.fits (room + 3) = true := by
  rcases c with ⟨document, version, fields | change⟩
  · simp [toJson, members, fits, membersFit, Field.itemsFit_toJson]
  · cases change <;> simp [toJson, members, fits, membersFit, membersFit_append]

theorem Step.fits_toJson (s : Step) : s.toJson.fits (room + 4) = true := by
  simp [toJson, fits, membersFit, Command.fits_toJson]

theorem Schema.fits_toJson (s : Schema) : s.toJson.fits (room + 6) = true := by
  have hdocuments : itemsFit (room + 4) (s.documents.map Document.toJson) = true :=
    itemsFit_map (Document.fits_toJson (room + 1)) s.documents
  have hsteps : itemsFit (room + 4) (s.steps.map Step.toJson) = true :=
    itemsFit_map (Step.fits_toJson room) s.steps
  simp [toJson, fits, membersFit, hdocuments, hsteps]

theorem Artifact.fits_toJson (a : Artifact) : a.toJson.fits (room + 7) = true := by
  simp [toJson, fits, membersFit, Schema.fits_toJson]

theorem Script.fits_toJson (s : Script) : s.toJson.fits (room + 5) = true := by
  have hcommands : itemsFit (room + 3) (s.commands.map Command.toJson) = true :=
    itemsFit_map (Command.fits_toJson room) s.commands
  simp [toJson, fits, membersFit, hcommands]

end Depth

/-! ## …and are read back -/

namespace Artifact

/-- **An artifact is what is read of its text**, whatever its hash says. -/
theorem parse?_text (a : Artifact) : parse? a.text = some a := by
  have hfits : a.toJson.fits Json.nestingLimit = true := fits_toJson 120 a
  rw [parse?, text, Json.ofString?_indented hfits, Option.bind_some, ofJson?_toJson]

end Artifact

namespace Script

/-- **A script is what is read of its text**: the object that is written is taken for neither a bare
list nor a list of other commands, and its tags for the kinds that they name. -/
theorem parse_text (s : Script) : parse s.text = .ok s := by
  have hfits : s.toJson.fits Json.nestingLimit = true := fits_toJson 122 s
  have hread : Json.read? (Token.ofChars s.text.toList) = some (s.toJson, []) := by
    rw [text, Json.indented, String.toList_ofList]
    exact Json.read?_write Json.Layout.isBlank_indented hfits
  rw [parse, hread]
  simp only [Json.isReadable_of_fits s.toJson hfits, if_true, ofJson?_toJson, List.isEmpty_nil]

end Script

end SchemaLog
