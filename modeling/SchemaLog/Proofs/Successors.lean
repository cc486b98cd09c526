import SchemaLog.Proofs.Compatibility
import SchemaLog.Proofs.Layout

/-!
# Proofs/Successors — what a diff reports of fields that were renamed and retyped only

    older    a      b      c
              ╲   ╱        │ rename through another name, retype
    newer    b      a      c        reported: a → b, b → a, type of c

As long as no field is added or removed, each older field has one successor, in its own place
(`Change.effects_of_keepsFields`).  The renamings that a diff follows lead to it: a name that they
give is that of a field, which has gone back to one older field only, so no name is taken over
(`Origins.currentName_of_carryAll`).  What is reported is then what each field differs in from its
successor, and nothing else.
-/

namespace SchemaLog

/-! ## Changes that keep all fields -/

@[simp] theorem Field.name_carried (f : Field) (name : String) (types : List FieldType) :
    (f.carried name types).name = name := by
  rw [carried]
  cases types.getLast? <;> rfl

namespace Change

/-- No field is added or taken out. -/
def keepsFields : Change → Bool
  | rename _ _ | retype _ _ _ => true
  | add _ | remove _ => false

variable {changes : List Change} {name : String} {f : Field}

theorem remove_notMem (hkeeps : ∀ c ∈ changes, c.keepsFields) : .remove name ∉ changes := by
  intro hmem
  cases hkeeps _ hmem

theorem add_notMem (hkeeps : ∀ c ∈ changes, c.keepsFields) : .add f ∉ changes := by
  intro hmem
  cases hkeeps _ hmem

/-- **Every field is left**, under the name to which it is followed. -/
theorem exists_outcome (hkeeps : ∀ c ∈ changes, c.keepsFields) (f : Field) :
    ∃ g, outcome? changes f = some g ∧ carryAll changes f.name = some g.name := by
  cases hcarry : carryAll changes f.name with
  | none =>
    obtain ⟨before, current, after, rfl, -⟩ := carryAll_eq_none_iff.mp hcarry
    exact absurd (List.mem_append_right before List.mem_cons_self) (remove_notMem hkeeps)
  | some name =>
    refine ⟨f.carried name (retypings changes f.name), ?_, by rw [Field.name_carried]⟩
    rw [outcome?, hcarry, Option.map_some]

theorem additions_of_keepsFields (hkeeps : ∀ c ∈ changes, c.keepsFields) :
    additions changes = [] := by
  induction changes with
  | nil => rfl
  | cons c rest ih =>
    obtain ⟨hc, hrest⟩ := List.forall_mem_cons.mp hkeeps
    have hadded : c.added? = none := by
      cases c with
      | add field => cases hc
      | remove gone => rfl
      | rename old new => rfl
      | retype retyped type conversion => rfl
    rw [additions_cons, hadded, ih hrest]
    rfl

/-- What becomes of a field that is not taken out. -/
def successor (changes : List Change) (f : Field) : Field :=
  (outcome? changes f).getD f

theorem outcome_eq_successor (hkeeps : ∀ c ∈ changes, c.keepsFields) (f : Field) :
    outcome? changes f = some (successor changes f)
      ∧ carryAll changes f.name = some (successor changes f).name := by
  obtain ⟨g, houtcome, hcarry⟩ := exists_outcome hkeeps f
  rw [successor, houtcome]
  exact ⟨rfl, hcarry⟩

/-- **The fields after the changes are the successors**, each in the place of its field. -/
theorem effects_of_keepsFields (hkeeps : ∀ c ∈ changes, c.keepsFields) (fields : List Field) :
    effects changes fields = fields.map (successor changes) := by
  have houtcome : outcome? changes = some ∘ successor changes :=
    funext fun f => (outcome_eq_successor hkeeps f).1
  rw [effects_eq, additions_of_keepsFields hkeeps, List.append_nil, houtcome,
    List.filterMap_eq_map]

end Change

/-! ## The renamings that are followed -/

namespace Origins

open Change

variable {fields : List Field} {changes : List Change} {a name : String}

/-- **The renamings lead to where a field is carried**, if no field is added or taken out. -/
theorem currentName_of_carryAll (h : Accepted fields changes)
    (hkeeps : ∀ c ∈ changes, c.keepsFields) (ha : a ∈ Field.names fields)
    (hcarry : carryAll changes a = some name) : (after changes).currentName a = name := by
  have hfirst := firstName_of_carryAll h ha hcarry
  rcases (after changes).currentName_cases a with hmem | ⟨hself, hnone⟩
  · -- The name that `a` is given is that of a field, and the field that was carried there is `a`.
    have hthere := (mem_names_or_remove_mem h hmem).resolve_right (remove_notMem hkeeps)
    rcases h.carried_or_added hthere with ⟨b, hb, hcarry'⟩ | ⟨before, field, rest, rfl, -⟩
    · have hb' := firstName_of_carryAll h hb hcarry'
      obtain rfl : b = a := hb'.symm.trans (firstName_of_mem (nodup_after changes) hmem)
      exact Option.some.inj (hcarry'.symm.trans hcarry)
    · exact absurd (List.mem_append_right before List.mem_cons_self) (add_notMem hkeeps)
  · rcases (after changes).firstName_cases name with hmem | ⟨hsame, -⟩
    · exact absurd hfirst (hnone _ hmem)
    · exact hself.trans (hfirst.symm.trans hsame)

end Origins

/-! ## What is reported -/

/-- What there is to say of a field that has become another one: its new name, and then its new
type or, if that is the same, its new default. -/
def Field.differences (f g : Field) : List FieldDiff :=
  (if g.name = f.name then [] else [.renamed f.name g.name])
    ++ if f.type ≠ g.type then [.retyped g.name f.type g.type]
       else if f.default ≠ g.default then [.redefaulted g.name f.default g.default]
       else []

namespace FieldDiff

variable {origins : Origins} {old new : Document} {successor : Field → Field}

/-- **Where the older fields have become the newer ones, one by one**, their differences are all
that is reported. -/
theorem ofDocuments_of_successors (hnodup : new.fieldNames.Nodup)
    (hfields : new.fields = old.fields.map successor)
    (hcurrent : ∀ f ∈ old.fields, origins.currentName f.name = (successor f).name) :
    ofDocuments origins old new = old.fields.flatMap fun f => f.differences (successor f) := by
  have hadded : addedFields origins old new = [] := by
    refine List.eq_nil_iff_forall_not_mem.mpr fun g hg => ?_
    obtain ⟨hg, hnone⟩ := mem_addedFields_iff.mp hg
    obtain ⟨f, hf, rfl⟩ := List.mem_map.mp (hfields ▸ hg)
    exact hnone f hf (hcurrent f hf)
  rw [ofDocuments, hadded, List.map_nil, List.append_nil]
  refine List.flatMap_congr fun f hf => ?_
  have hcounterpart : counterpart? origins new f = some (successor f) := by
    rw [counterpart?, hcurrent f hf, Document.field?_eq_some_iff hnodup, hfields]
    exact ⟨List.mem_map_of_mem hf, rfl⟩
  rw [ofField, hcounterpart, hcurrent f hf]
  rfl

end FieldDiff

/-- A field breaks what relied on it if it has another type or has lost its default. -/
theorem Field.exists_isBreaking_iff {f g : Field} :
    (∃ x ∈ f.differences g, x.isBreaking)
      ↔ f.type ≠ g.type ∨ f.default.isSome ∧ g.default.isNone := by
  have hunbroken : (∀ x ∈ f.differences g, x.isBreaking = false)
      ↔ g.type = f.type ∧ (f.default.isSome → g.default.isSome) :=
    FieldDiff.isBreaking_between_iff
  rw [← not_iff_not]
  simp only [not_exists, not_and, not_or, Bool.not_eq_true, Decidable.not_not, ne_eq]
  rw [hunbroken, eq_comm, Option.isNone_eq_false_iff]

namespace Schema

variable {older newer : Schema} {old new : Document} {changes : List FieldDiff}

/-- The entry of a document that is in both schemas, by what is reported of it. -/
theorem filter_diff_of_document? (hnodup : (older.documents.map Document.name).Nodup)
    (hold : old ∈ older.documents) (hnew : newer.document? old.name = some new)
    (hchanges : FieldDiff.ofDocuments (newer.originsSince old.name older.currentVersion) old new
      = changes) :
    ((older.diff newer).filter fun x => x.document == old.name)
      = if changes = [] then [] else [⟨old.name, .modified changes⟩] := by
  rw [filter_diff hnodup hold, diffOf?_eq_entryOf?, hnew, Document.entryOf?]
  simp only [hchanges]
  cases changes <;> rfl

/-- …which is breaking if something that is reported is. -/
theorem exists_isBreaking_iff (hnodup : (older.documents.map Document.name).Nodup)
    (hold : old ∈ older.documents) (hnew : newer.document? old.name = some new)
    (hchanges : FieldDiff.ofDocuments (newer.originsSince old.name older.currentVersion) old new
      = changes) :
    (∃ x ∈ older.diff newer, x.document = old.name ∧ x.isBreaking)
      ↔ ∃ change ∈ changes, change.isBreaking := by
  have hfilter : (∃ x ∈ older.diff newer, x.document = old.name ∧ x.isBreaking)
      ↔ ∃ x ∈ (older.diff newer).filter fun x => x.document == old.name, x.isBreaking := by
    simp only [List.mem_filter, beq_iff_eq, and_assoc]
  rw [hfilter, filter_diff_of_document? hnodup hold hnew hchanges]
  cases changes <;> simp [DocumentDiff.isBreaking]

end Schema

/-! ## Replayed schemas -/

namespace Evolution

open Command

variable {policy : VersionPolicy} {cs ext : List Command} {older newer : Schema} {name : String}

theorem keepsFields_of_kinds
    (hkinds : ∀ c ∈ ext, c.document = name → c.kind = .renameField ∨ c.kind = .changeType) :
    ∀ change ∈ changesTo name ext, change.keepsFields := by
  intro change hchange
  obtain ⟨⟨document, version, action⟩, hc, hto⟩ := List.mem_filterMap.mp hchange
  rw [changeTo?] at hto
  split at hto
  · next hname =>
    have hkind := hkinds _ hc hname
    cases action with
    | declare fields => cases hto
    | change change' =>
      obtain rfl := Option.some.inj hto
      cases change' with
      | rename old new => rfl
      | retype retyped type conversion => rfl
      | add field => simp [kind] at hkind
      | remove gone => simp [kind] at hkind
  · cases hto

/-- **What a diff reports of a document whose fields were renamed and retyped only**: each older
field has become one newer field, the one under the name to which it is followed, and what is
reported are the differences of each field from what it has become.  This is breaking if one of them
has changed its type or lost its default. -/
theorem diff_of_successors (holder : replay policy cs = .ok older)
    (hnewer : replay policy (cs ++ ext) = .ok newer)
    (hext : ∀ c ∈ ext.head?, older.currentVersion < c.version)
    (hkinds : ∀ c ∈ ext, c.document = name → c.kind = .renameField ∨ c.kind = .changeType)
    {old : Document} (hold : older.document? name = some old) :
    ∃ new, newer.document? name = some new ∧ ∃ successor : Field → Field,
      new.fields = old.fields.map successor
        ∧ (∀ f ∈ old.fields,
            Change.carryAll (changesTo name ext) f.name = some (successor f).name
              ∧ new.field? (successor f).name = some (successor f))
        ∧ (let changes := old.fields.flatMap fun f => f.differences (successor f)
          ((older.diff newer).filter fun x => x.document == name)
            = if changes = [] then [] else [⟨name, .modified changes⟩])
        ∧ ((∃ x ∈ older.diff newer, x.document = name ∧ x.isBreaking)
          ↔ ∃ f ∈ old.fields, f.type ≠ (successor f).type
            ∨ f.default.isSome ∧ (successor f).default.isNone) := by
  obtain ⟨hmem, rfl⟩ := (document?_eq_some_iff_of_replay holder).mp hold
  obtain ⟨new, hnew, horigins, haccepted, heffects⟩ := exists_continued holder hnewer hext hold
  have hkeeps := keepsFields_of_kinds hkinds
  have hnodup := nodup_fieldNames_of_replay hnewer
    ((document?_eq_some_iff_of_replay hnewer).mp hnew).1
  let successor := Change.successor (changesTo old.name ext)
  have hfields : new.fields = old.fields.map successor :=
    heffects.trans (Change.effects_of_keepsFields hkeeps old.fields)
  have hcarry (f : Field) := (Change.outcome_eq_successor hkeeps f).2
  have hchanges : FieldDiff.ofDocuments (newer.originsSince old.name older.currentVersion) old new
      = old.fields.flatMap fun f => f.differences (successor f) := by
    refine FieldDiff.ofDocuments_of_successors hnodup hfields fun f hf => ?_
    rw [horigins]
    exact Origins.currentName_of_carryAll haccepted hkeeps (Field.name_mem_names hf) (hcarry f)
  have hdocuments := nodup_documents_of_replay holder
  refine ⟨new, hnew, successor, hfields, fun f hf => ⟨hcarry f, ?_⟩,
    Schema.filter_diff_of_document? hdocuments hmem hnew hchanges, ?_⟩
  · refine (Document.field?_eq_some_iff hnodup).mpr ⟨?_, rfl⟩
    exact hfields ▸ List.mem_map_of_mem hf
  · rw [Schema.exists_isBreaking_iff hdocuments hmem hnew hchanges]
    simp only [List.mem_flatMap, ← Field.exists_isBreaking_iff]
    tauto

/-- A user with four fields. -/
def accountLog : List Command :=
  [⟨"User", 1, .declare [⟨"a", .string, none⟩, ⟨"b", .number, some "0"⟩, ⟨"c", .string, some "''"⟩,
    ⟨"d", .boolean, none⟩]⟩]

/-- Two fields change their names with each other, one is renamed and renamed back and is given the
type that it has, and one is retyped and renamed; another document is declared and changed. -/
def turningRound : List Command :=
  [⟨"Team", 2, .declare []⟩,
    ⟨"User", 2, .change (.rename "a" "t")⟩,
    ⟨"User", 2, .change (.rename "b" "a")⟩,
    ⟨"User", 3, .change (.rename "c" "x")⟩,
    ⟨"User", 3, .change (.rename "t" "b")⟩,
    ⟨"User", 4, .change (.retype "x" .string "value")⟩,
    ⟨"Team", 4, .change (.add ⟨"title", .string, none⟩)⟩,
    ⟨"User", 4, .change (.rename "x" "c")⟩,
    ⟨"User", 5, .change (.retype "d" .number "Number(value)")⟩,
    ⟨"User", 5, .change (.rename "d" "e")⟩]

theorem diff_of_successors_turningRound :
    ∃ older newer old, replay .nonDecreasing accountLog = .ok older
      ∧ replay .nonDecreasing (accountLog ++ turningRound) = .ok newer
      ∧ (∀ c ∈ turningRound.head?, older.currentVersion < c.version)
      ∧ (∀ c ∈ turningRound, c.document = "User" → c.kind = .renameField ∨ c.kind = .changeType)
      ∧ older.document? "User" = some old
      ∧ older.diff newer = [⟨"User", .modified [.renamed "a" "b", .renamed "b" "a",
          .redefaulted "c" (some "''") none, .renamed "d" "e", .retyped "e" .boolean .number]⟩]
      ∧ ∃ successor : Field → Field,
        old.fields.map successor = [⟨"b", .string, none⟩, ⟨"a", .number, some "0"⟩,
            ⟨"c", .string, none⟩, ⟨"e", .number, none⟩]
          ∧ ∀ f ∈ old.fields,
            Change.carryAll (changesTo "User" turningRound) f.name = some (successor f).name := by
  have hext : ∀ c ∈ turningRound.head?, (1 : Version) < c.version := by decide
  have hkinds : ∀ c ∈ turningRound,
      c.document = "User" → c.kind = .renameField ∨ c.kind = .changeType := by decide
  refine ⟨_, _, _, rfl, rfl, hext, hkinds, rfl, rfl, ?_⟩
  obtain ⟨new, hnew, successor, hfields, hfollowed, -⟩ :=
    @diff_of_successors .nonDecreasing accountLog turningRound _ _ "User" rfl rfl hext hkinds _ rfl
  obtain rfl := Option.some.inj hnew
  exact ⟨successor, hfields.symm, fun f hf => (hfollowed f hf).1⟩

end Evolution

end SchemaLog
