import SchemaLog.Proofs.Texts
import Mathlib.Algebra.Ring.Nat

/-!
# Proofs/Hashing — the hash is taken of all that a schema says

    schema ──compact──▸ text ──UTF-8──▸ bytes ──XXH3──▸ value ──hashText──▸ hash
      ▲                  │
      └──── ofJson? ─────┘

The text that is hashed has no blanks, but it is a text like any other: the schema is read back from
it (`Schema.ofJson?_compact`).  So no two schemas have it in common, and an `Edit` of a schema, made
anywhere in it, changes the bytes.  Nothing is lost behind the algorithm either, as the digits tell
the value (`hashText_inj`).  What the algorithm makes of other bytes is left open.
-/

namespace SchemaLog

/-- Where one item of a list is another one, the list is another one. -/
theorem append_cons_ne {α : Type} {list front back : List α} {old new : α}
    (hlist : list = front ++ old :: back) (hne : new ≠ old) : front ++ new :: back ≠ list := by
  rw [hlist]
  exact fun heq => hne (List.cons.inj (List.append_cancel_left heq)).1

/-! ## Digits -/

theorem hexChar_inj : ∀ m < 16, ∀ n < 16, Quoted.hexChar m = Quoted.hexChar n → m = n := by
  decide

/-- **Digits tell the number**, if there are enough of them. -/
theorem hexDigits_inj {count m n : Nat} (hm : m < 16 ^ count) (hn : n < 16 ^ count)
    (h : hexDigits count m = hexDigits count n) : m = n := by
  induction count generalizing m n with
  | zero =>
    rw [Nat.pow_zero, Nat.lt_one_iff] at hm hn
    rw [hm, hn]
  | succ count ih =>
    obtain ⟨hlast, hfront⟩ := List.cons.inj h
    have hmod : m % 16 = n % 16 :=
      hexChar_inj _ (Nat.mod_lt _ (by decide)) _ (Nat.mod_lt _ (by decide)) hlast
    have hdiv : m / 16 = n / 16 :=
      ih (Nat.div_lt_of_lt_mul (Nat.pow_succ' ▸ hm)) (Nat.div_lt_of_lt_mul (Nat.pow_succ' ▸ hn))
        hfront
    rw [← Nat.div_add_mod m 16, ← Nat.div_add_mod n 16, hdiv, hmod]

/-- No two values have the same text. -/
theorem hashText_inj {v w : UInt64} : hashText v = hashText w ↔ v = w := by
  refine ⟨fun h => ?_, congrArg hashText⟩
  have hdigits := List.reverse_inj.mp
    (String.ofList_injective ((String.append_right_inj "xxh3:").mp h))
  exact UInt64.toNat_inj.mp (hexDigits_inj v.toNat_lt w.toNat_lt hdigits)

/-! ## Edits -/

namespace Schema

/-- One thing that a schema says is said otherwise. -/
inductive Edit (s : Schema) : Schema → Prop
  /-- A step has another command: anything that a command carries may be what is changed. -/
  | command {front back : List Step} {step : Step} (c : Command)
      (hsteps : s.steps = front ++ step :: back) (hne : c ≠ step.command) :
      Edit s { s with steps := front ++ { step with command := c } :: back }
  | description {front back : List Step} {step : Step} (text : String)
      (hsteps : s.steps = front ++ step :: back) (hne : text ≠ step.description) :
      Edit s { s with steps := front ++ { step with description := text } :: back }
  | stamp {front back : List Step} {step : Step} (version : Version)
      (hsteps : s.steps = front ++ step :: back) (hne : version ≠ step.version) :
      Edit s { s with steps := front ++ { step with version := version } :: back }
  /-- A field of a document has another default, or has lost its default, or has got one. -/
  | default {front back : List Document} {d : Document} {before after : List Field} {f : Field}
      (expression : Option String) (hdocuments : s.documents = front ++ d :: back)
      (hfields : d.fields = before ++ f :: after) (hne : expression ≠ f.default) :
      Edit s { s with documents := front
        ++ { d with fields := before ++ { f with default := expression } :: after } :: back }
  | fieldOrder {front back : List Document} {d : Document} (fields : List Field)
      (hdocuments : s.documents = front ++ d :: back) (hperm : fields.Perm d.fields)
      (hne : fields ≠ d.fields) :
      Edit s { s with documents := front ++ { d with fields := fields } :: back }
  | documentOrder (documents : List Document) (hperm : documents.Perm s.documents)
      (hne : documents ≠ s.documents) :
      Edit s { s with documents := documents }

variable {s t : Schema}

/-- **An edit makes another schema.** -/
theorem Edit.ne (h : s.Edit t) : t ≠ s := by
  cases h with
  | command c hsteps hne =>
    exact fun heq => append_cons_ne hsteps (mt (congrArg Step.command) hne)
      (congrArg (·.steps) heq)
  | description text hsteps hne =>
    exact fun heq => append_cons_ne hsteps (mt (congrArg Step.description) hne)
      (congrArg (·.steps) heq)
  | stamp version hsteps hne =>
    exact fun heq => append_cons_ne hsteps (mt (congrArg Step.version) hne)
      (congrArg (·.steps) heq)
  | @default front back d before after f expression hdocuments hfields hne =>
    have hfield : { f with default := expression } ≠ f := mt (congrArg Field.default) hne
    have hfields' := append_cons_ne hfields hfield
    exact fun heq => append_cons_ne hdocuments (mt (congrArg Document.fields) hfields')
      (congrArg Schema.documents heq)
  | fieldOrder fields hdocuments hperm hne =>
    exact fun heq => append_cons_ne hdocuments (mt (congrArg Document.fields) hne)
      (congrArg Schema.documents heq)
  | documentOrder documents hperm hne =>
    exact fun heq => hne (congrArg Schema.documents heq)

/-! ## The text that is hashed -/

/-- **A schema is what is read of the text that is hashed.** -/
theorem ofJson?_compact (s : Schema) : (Json.ofString? s.compact).bind ofJson? = some s := by
  have hfits : s.toJson.fits Json.nestingLimit = true := fits_toJson 121 s
  rw [compact, Json.ofString?_compact hfits, Option.bind_some, ofJson?_toJson]

/-- No two schemas have the same text without blanks. -/
theorem compact_inj : s.compact = t.compact ↔ s = t := by
  refine ⟨fun h => ?_, congrArg compact⟩
  have hs := s.ofJson?_compact
  rw [h, t.ofJson?_compact] at hs
  exact (Option.some.inj hs).symm

/-- **The hash covers the whole schema**: it is the text of the value that the algorithm gives for
bytes from which the schema is read back; no other schema has these bytes, and every edit changes
them. -/
theorem bytes_cover_schema (s : Schema) :
    s.hash = hashText (XXH3.hash s.hashedBytes)
      ∧ (∀ t : Schema, t.hash = s.hash ↔ XXH3.hash t.hashedBytes = XXH3.hash s.hashedBytes)
      ∧ s.hashedBytes = s.compact.toUTF8 ∧ (Json.ofString? s.compact).bind ofJson? = some s
      ∧ (∀ t : Schema, t.hashedBytes = s.hashedBytes ↔ t = s)
      ∧ ∀ t, s.Edit t → t.hashedBytes ≠ s.hashedBytes := by
  have hinj : ∀ t : Schema, t.hashedBytes = s.hashedBytes ↔ t = s := fun t =>
    String.toByteArray_inj.trans compact_inj
  exact ⟨rfl, fun _ => hashText_inj, rfl, s.ofJson?_compact, hinj,
    fun t hedit => mt (hinj t).mp hedit.ne⟩

/-- A note whose second field is taken out again, so that only the log tells its default. -/
def noteSchema : Schema :=
  ⟨⟨2, [.ofCommand ⟨"Note", 1, .declare [⟨"id", .string, none⟩, ⟨"a", .string, some ""⟩]⟩,
      .ofCommand ⟨"Note", 2, .change (.remove "a")⟩]⟩,
    [⟨"Note", [⟨"id", .string, none⟩], 1⟩]⟩

/-- The default that the log tells is left out; the documents stay the same. -/
theorem bytes_cover_schema_noteSchema :
    ∃ t, noteSchema.Edit t ∧ t.documents = noteSchema.documents
      ∧ noteSchema.hash = hashText (XXH3.hash noteSchema.hashedBytes)
      ∧ (Json.ofString? noteSchema.compact).bind ofJson? = some noteSchema
      ∧ t.hashedBytes ≠ noteSchema.hashedBytes := by
  let c : Command := ⟨"Note", 1, .declare [⟨"id", .string, none⟩, ⟨"a", .string, none⟩]⟩
  have hsteps : noteSchema.steps = [] ++ noteSchema.steps := rfl
  have hedit : noteSchema.Edit _ := .command c hsteps (by decide)
  obtain ⟨hhash, -, -, hread, -, hedits⟩ := bytes_cover_schema noteSchema
  exact ⟨_, hedit, rfl, hhash, hread, hedits _ hedit⟩

end Schema

end SchemaLog
