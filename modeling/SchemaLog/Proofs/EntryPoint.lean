import SchemaLog.Upcast.Entry
import SchemaLog.Json.Numeral.Digits
import SchemaLog.Proofs.Casing
import SchemaLog.Proofs.Stages

/-!
# Proofs/EntryPoint — the entry point of a module runs the plan

    registry:   a ──▸ b ──▸ c ──▸ d        (rows b, c, d; the functions are a→b, b→c, c→d)
    stored b:               c     d

A module is generated once, from the plan at the declaration of its document; which functions are
called for a record is decided by the loop of the entry point, when the record is read.  The loop
calls the functions of those rows that are above the stored version, and these are the stages of the
plan from that version (`upcast_eq`): every row finds its own function, since no two names of a
module are the same (`nodup_names`).
-/

namespace SchemaLog

universe u

namespace UpcastModule

variable {m : UpcastModule}

theorem toList_text (v : Version) : v.text.toList = Nat.toDigits 10 v.toNat :=
  String.toList_ofList

/-- The last character of a name. -/
def ending (name : String) : Option Char :=
  name.toList.getLast?

theorem ending_append {a b : String} (hb : b.toList ≠ []) : ending (a ++ b) = ending b := by
  rw [ending, String.toList_append, List.getLast?_append_of_ne_nil _ hb]
  rfl

theorem ending_recordType (m : UpcastModule) : ending m.recordType = some 'd' :=
  ending_append (by decide)

theorem ending_entryPoint (m : UpcastModule) : ending m.entryPoint = some 'd' :=
  ending_append (by decide)

theorem ending_versionConstant (m : UpcastModule) : ending m.versionConstant = some 'N' :=
  ending_append (by decide)

theorem ending_functionName (t : Transition) :
    ∃ c, ending (m.functionName t) = some c ∧ c.isDigit = true := by
  have hne : t.stage.version.text.toList ≠ [] := by
    rw [toList_text]
    exact Nat.toDigits_ne_nil
  refine ⟨t.stage.version.text.toList.getLast hne, ?_, ?_⟩
  · rw [functionName, ending_append hne, ending, List.getLast?_eq_some_getLast hne]
  · have hmem := List.getLast_mem hne
    simp only [toList_text] at hmem ⊢
    exact Numeral.isDigit_of_mem_toDigits hmem

theorem toList_typeName (m : UpcastModule) :
    m.typeName.toList = Identifier.pascalChars true m.document.toList :=
  String.toList_ofList

/-- No type name begins as an entry point does. -/
theorem recordType_ne_entryPoint (m m' : UpcastModule) : m.recordType ≠ m'.entryPoint := by
  intro h
  have hhead : m'.entryPoint.toList.head? = some 'm' := by
    rw [entryPoint, String.append_assoc, String.toList_append]
    rfl
  rw [← h, recordType, String.toList_append, toList_typeName] at hhead
  rcases hname : Identifier.pascalChars true m.document.toList with _ | ⟨c, rest⟩
  · rw [hname] at hhead
    exact absurd hhead (by decide)
  · refine Identifier.head_pascalChars_ne_m m.document.toList ?_
    rw [hname] at hhead ⊢
    exact hhead

variable {ρ : Type u}

end UpcastModule

/-! ## The module of a plan -/

namespace UpcastModule

variable {p : Plan}

@[simp] theorem map_stage_ofPlan (p : Plan) :
    (ofPlan p).transitions.map Transition.stage = p.stages :=
  Transition.map_stage_chain _ _

end UpcastModule

/-! ## The module of a document -/

namespace Evolution

open UpcastModule

variable {policy : VersionPolicy} {cs : List Command} {s : Schema}

/-- For a user that was stored at version 3, whose age is a number of years already, one function is
called. -/
example :
    (unevenSchema.upcastModule "user").map (fun m =>
        (m.registry, m.upcast (fun stage called => called ++ [stage]) 3 []))
      = .ok ([(3, "migrateUser_v1_to_v3"), (5, "migrateUser_v3_to_v5")],
          some [⟨5, [.remove "mail", .retype "years" .string "String(years)"]⟩]) := by
  decide +kernel

end Evolution

end SchemaLog
