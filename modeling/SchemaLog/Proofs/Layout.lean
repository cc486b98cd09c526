import SchemaLog.Proofs.Lineage

/-!
# Proofs/Layout — where the fields of a document end up

    before     a        b        c
               │        ╳        │ rename, retype
    after      a                 d        e    f
                                          └ added ┘

A field is followed through changes to the name that it has in the end (`Change.carryAll`), and what
is left of it depends on nothing but its own way (`Change.outcome?`).  So the fields after changes
are the older ones that are left, each in its turn, and behind them those of the added ones that are
left (`Change.effects_eq`).  That one field may take the name of another on the way plays no part.
-/

namespace SchemaLog

namespace Field

/-- The field under another name, with the last of the types that it was given; with the first of
them it has lost its default. -/
def carried (f : Field) (name : String) (types : List FieldType) : Field :=
  match types.getLast? with
  | none => { f with name := name }
  | some type => ⟨name, type, none⟩

@[simp] theorem carried_self (f : Field) : f.carried f.name [] = f := rfl

/-- The name before does not count… -/
theorem carried_rename (f : Field) (old name : String) (types : List FieldType) :
    { f with name := old }.carried name types = f.carried name types := by
  rw [carried, carried]

/-- …and of the types the later ones do. -/
theorem carried_cons (f : Field) (name : String) (type : FieldType) (types : List FieldType) :
    f.carried name (type :: types)
      = { f with type := type, default := none }.carried name types := by
  rw [carried, carried, List.getLast?_cons]
  cases types.getLast? <;> rfl

end Field

namespace Change

/-- The type that a change gives to a field of a name. -/
def retyping? (c : Change) (name : String) : Option FieldType :=
  match c with
  | .retype retyped type _ => if name = retyped then some type else none
  | .add _ | .remove _ | .rename _ _ => none

/-- The types that changes give to a field, in order, as long as it is there. -/
def retypings : List Change → String → List FieldType
  | [], _ => []
  | c :: rest, name => (c.retyping? name).toList ++ (c.carry name).elim [] (retypings rest)

/-- **What changes leave of a field**, unless it is taken out: it has its last name, and its type
and default are its own if it was not retyped. -/
def outcome? (changes : List Change) (f : Field) : Option Field :=
  (carryAll changes f.name).map fun name => f.carried name (retypings changes f.name)

/-- What the changes behind the first one leave of the field that the first one adds. -/
def addition? : List Change → Option Field
  | .add f :: rest => outcome? rest f
  | _ => none

/-- What changes leave of the fields that they add, in the order in which they add them. -/
def additions (changes : List Change) : List Field :=
  changes.tails.filterMap addition?

/-! ## One change at a time -/

/-- What a single change leaves of a field. -/
def leaves? : Change → Field → Option Field
  | add _, f => some f
  | remove gone, f => if f.name = gone then none else some f
  | rename old new, f => some (if f.name = old then { f with name := new } else f)
  | retype name type _, f =>
    some (if f.name = name then { f with type := type, default := none } else f)

/-- The field that a change adds. -/
def added? : Change → Option Field
  | add f => some f
  | remove _ | rename _ _ | retype _ _ _ => none

/-- **A change leaves what it leaves of each field**, with the added one behind. -/
theorem effect_eq (c : Change) (fields : List Field) :
    c.effect fields = fields.filterMap c.leaves? ++ c.added?.toList := by
  cases c with
  | add f =>
    have hall : fields.filterMap (add f).leaves? = fields := List.filterMap_some
    rw [hall]
    rfl
  | remove gone =>
    rw [effect, added?, Option.toList_none, List.append_nil, ← List.filterMap_eq_filter]
    refine List.filterMap_congr fun f _ => ?_
    by_cases hname : f.name = gone <;> simp [leaves?, Option.guard, hname]
  | rename old new =>
    rw [effect, added?, Option.toList_none, List.append_nil, ← List.filterMap_eq_map]
    rfl
  | retype name type conversion =>
    rw [effect, added?, Option.toList_none, List.append_nil, ← List.filterMap_eq_map]
    rfl

/-- **What is left in the end is what later changes leave of what the first one leaves.** -/
theorem outcome?_cons (c : Change) (rest : List Change) (f : Field) :
    outcome? (c :: rest) f = (c.leaves? f).bind (outcome? rest) := by
  cases c with
  | add g => simp [outcome?, carryAll, retypings, carry, retyping?, leaves?]
  | remove gone =>
    by_cases hname : f.name = gone <;>
      simp [outcome?, carryAll, retypings, carry, retyping?, leaves?, hname]
  | rename old new =>
    by_cases hname : f.name = old <;>
      simp [outcome?, carryAll, retypings, carry, retyping?, leaves?, hname, Field.carried_rename]
  | retype name type conversion =>
    by_cases hname : f.name = name <;>
      simp [outcome?, carryAll, retypings, carry, retyping?, leaves?, hname, Field.carried_cons]

theorem additions_cons (c : Change) (rest : List Change) :
    additions (c :: rest) = c.added?.toList.filterMap (outcome? rest) ++ additions rest := by
  rw [additions, List.tails, List.filterMap_cons, ← additions]
  cases c with
  | add f => cases houtcome : outcome? rest f <;> simp [addition?, added?, houtcome]
  | remove gone => rfl
  | rename old new => rfl
  | retype name type conversion => rfl

/-- **The fields after changes are those that are left, in their order, and behind them those that
were added and are left.** -/
theorem effects_eq (changes : List Change) (fields : List Field) :
    effects changes fields = fields.filterMap (outcome? changes) ++ additions changes := by
  induction changes generalizing fields with
  | nil =>
    have hall : fields.filterMap (outcome? []) = fields := List.filterMap_some
    rw [hall]
    exact (List.append_nil fields).symm
  | cons c rest ih =>
    have houtcome : outcome? (c :: rest) = fun f => (c.leaves? f).bind (outcome? rest) :=
      funext (outcome?_cons c rest)
    calc effects (c :: rest) fields
      _ = (c.effect fields).filterMap (outcome? rest) ++ additions rest := ih _
      _ = (fields.filterMap c.leaves?).filterMap (outcome? rest)
            ++ (c.added?.toList.filterMap (outcome? rest) ++ additions rest) := by
          rw [effect_eq, List.filterMap_append, List.append_assoc]
      _ = fields.filterMap (outcome? (c :: rest)) ++ additions (c :: rest) := by
          rw [List.filterMap_filterMap, ← houtcome, ← additions_cons]

end Change

/-! ## Documents -/

namespace Evolution

open Command

variable {e e' : Evolution} {cs : List Command} {name : String} {d : Document}

/-- Commands on other documents leave a document as it is. -/
theorem document?_of_untargeted (h : e.applyAll cs = (e', none))
    (hother : ∀ c ∈ cs, c.document ≠ name) : e'.document? name = e.document? name := by
  induction cs generalizing e with
  | nil =>
    cases h
    rfl
  | cons c rest ih =>
    obtain ⟨hne, hrest⟩ := List.forall_mem_cons.mp hother
    obtain ⟨e₁, hc, h⟩ := applyAll_cons_iff.mp h
    rw [ih h hrest, (accepts_of_apply hc).document?_of_ne hne]

/-- **Of a document, commands change the fields only**, and these by the changes made to it. -/
theorem document?_of_applyAll (hwf : e.WellFormed) (h : e.applyAll cs = (e', none))
    (hd : e.document? name = some d) :
    e'.document? name = some { d with fields := Change.effects (changesTo name cs) d.fields } := by
  induction cs generalizing e d with
  | nil =>
    cases h
    exact hd
  | cons c rest ih =>
    obtain ⟨e₁, hc, hrest⟩ := applyAll_cons_iff.mp h
    have hacc := accepts_of_apply hc
    by_cases hname : c.document = name
    swap
    · rw [changesTo_cons_of_ne hname]
      exact ih (hwf.accepts hacc) hrest ((hacc.document?_of_ne hname).trans hd)
    subst hname
    cases hacc with
    | declared _ _ hnew _ => exact absurd (mem_catalog_iff_document?.mpr ⟨d, hd⟩) hnew
    | @changed change d' hstamp haction hd' hchange =>
      obtain rfl : d = d' := Option.some.inj (hd.symm.trans hd')
      have hnodup := (hwf.entry c.document d hd).nodup_fieldNames
      rw [changesTo_cons_change haction]
      refine ih (d := { d with fields := change.effect d.fields })
        (hwf.accepts (accepts_of_apply hc)) hrest ?_
      rw [note_document?, document?_put_self, Document.change_of_accepted hnodup hchange]

/-- **The layout of a document is stable**: after any accepted commands it has the fields that are
left of its own, in their order, and behind them those that were added and are left.  Its name and
its version stay, and documents that no command is about stay as they are. -/
theorem layout_after_commands (policy : VersionPolicy) (calls : List Call) {cs : List Command}
    {e' : Evolution} (h : ((start policy).afterCalls calls).applyAll cs = (e', none)) :
    (∀ name d, ((start policy).afterCalls calls).document? name = some d →
        e'.document? name = some
          { d with fields := d.fields.filterMap (Change.outcome? (changesTo name cs))
              ++ Change.additions (changesTo name cs) })
      ∧ ∀ name, (∀ c ∈ cs, c.document ≠ name) →
        e'.document? name = ((start policy).afterCalls calls).document? name := by
  refine ⟨fun name d hd => ?_, fun name => document?_of_untargeted h⟩
  rw [document?_of_applyAll (WellFormed.afterCalls policy calls) h hd, Change.effects_eq]

/-- A user and an order; the second call is refused. -/
def declaringCalls : List Call :=
  [.apply ⟨"user", 2, .declare
      [⟨"a", .number, some "0"⟩, ⟨"b", .boolean, some "true"⟩, ⟨"c", .string, some "''"⟩]⟩,
    .apply ⟨"user", 2, .change (.rename "a" "b")⟩,
    .apply ⟨"order", 2, .declare [⟨"total", .number, none⟩]⟩]

/-- The first name goes to the second field and the second name to the third one, which is retyped
twice; of the added fields one is taken out, and the other one gets its name. -/
def reshuffling : List Command :=
  [⟨"user", 3, .change (.remove "a")⟩,
    ⟨"user", 3, .change (.rename "b" "a")⟩,
    ⟨"user", 3, .change (.add ⟨"d", .object, none⟩)⟩,
    ⟨"user", 4, .change (.retype "c" .number "Number(value)")⟩,
    ⟨"user", 4, .change (.rename "c" "b")⟩,
    ⟨"user", 4, .change (.add ⟨"e", .string, some "'e'"⟩)⟩,
    ⟨"user", 5, .change (.retype "b" .stringArray "[String(value)]")⟩,
    ⟨"user", 5, .change (.remove "d")⟩,
    ⟨"user", 6, .change (.rename "e" "d")⟩]

theorem layout_after_commands_reshuffling :
    ∃ e', ((start .nonDecreasing).afterCalls declaringCalls).applyAll reshuffling = (e', none)
      ∧ ((start .nonDecreasing).afterCalls declaringCalls).document? "user" = some ⟨"user",
        [⟨"a", .number, some "0"⟩, ⟨"b", .boolean, some "true"⟩, ⟨"c", .string, some "''"⟩], 2⟩
      ∧ e'.document? "user" = some ⟨"user", [⟨"a", .boolean, some "true"⟩,
          ⟨"b", .stringArray, none⟩, ⟨"d", .string, some "'e'"⟩], 2⟩
      ∧ (∀ c ∈ reshuffling, c.document ≠ "order")
      ∧ e'.document? "order"
        = ((start .nonDecreasing).afterCalls declaringCalls).document? "order" := by
  have haccepted :
      ((start .nonDecreasing).afterCalls declaringCalls).applyAll reshuffling = (_, none) := rfl
  have hother : ∀ c ∈ reshuffling, c.document ≠ "order" := by decide
  obtain ⟨hlayout, hkept⟩ := layout_after_commands .nonDecreasing declaringCalls haccepted
  exact ⟨_, haccepted, rfl, hlayout "user" _ rfl, hother, hkept "order" hother⟩

end Evolution

end SchemaLog
