import SchemaLog.Proofs.Counterparts
import SchemaLog.Proofs.Stages

/-!
# Proofs/Compatibility — what can be relied on where a diff finds nothing

    no entry for a document:    the fields are the same
    no breaking entry:          the newer document supports the older one

A diff is a search for differences, so its silence has to be read backwards: a field that was not
reported is there and unchanged, and a newer one that was not reported is a counterpart.  All of
this holds whichever renamings the search follows (`same_fields_of_ofDocuments`, `supports_iff`).
They matter for one thing: a schema does not differ from itself, as nothing in its log takes effect
after its own version.
-/

namespace SchemaLog

/-- All that records and readers of an older document need of a newer one: each field lives on with
its type and, if it has one, with a default, and no other field is required. -/
structure Document.Supports (origins : Origins) (new old : Document) : Prop where
  kept : ∀ f ∈ old.fields, ∃ g, new.field? (origins.currentName f.name) = some g
    ∧ g.type = f.type ∧ (f.default.isSome → g.default.isSome)
  added : ∀ g ∈ new.fields,
    (∀ f ∈ old.fields, new.field? (origins.currentName f.name) ≠ some g) → g.default.isSome

namespace FieldDiff

variable {origins : Origins} {old new : Document} {f g : Field} {currentName : String}

/-! ## Between a field and its counterpart -/

theorem between_eq_nil_iff :
    between f g currentName = []
      ↔ currentName = f.name ∧ f.type = g.type ∧ f.default = g.default := by
  simp only [List.eq_nil_iff_forall_not_mem, mem_between]
  grind

/-- Nothing breaks if the type stays and a default is not dropped. -/
theorem isBreaking_between_iff :
    (∀ x ∈ between f g currentName, x.isBreaking = false)
      ↔ g.type = f.type ∧ (f.default.isSome → g.default.isSome) := by
  constructor
  · intro h
    have htype : f.type = g.type := by
      by_contra hne
      cases h _ (mem_between.mpr (.inr (.inl ⟨hne, rfl⟩)))
    refine ⟨htype.symm, fun hdefault => ?_⟩
    by_cases hsame : f.default = g.default
    · exact hsame ▸ hdefault
    · exact Option.isNone_eq_false_iff.mp
        (h _ (mem_between.mpr (.inr (.inr ⟨⟨htype, hsame⟩, rfl⟩))))
  · rintro ⟨htype, hdefault⟩ x hx
    rcases mem_between.mp hx with ⟨-, rfl⟩ | ⟨hne, -⟩ | ⟨⟨-, hne⟩, rfl⟩
    · rfl
    · exact absurd htype.symm hne
    · rw [isBreaking, Option.isNone_eq_false_iff]
      by_contra hnone
      -- Without a new default there was none before either, and the two are the same.
      have hold : ¬ f.default.isSome := fun hsome => hnone (hdefault hsome)
      rw [Option.not_isSome_iff_eq_none] at hold hnone
      exact hne (hold.trans hnone.symm)

/-! ## Between two documents -/

/-- **The added fields are those whose name no older field has now.** -/
theorem mem_addedFields_iff :
    g ∈ addedFields origins old new
      ↔ g ∈ new.fields ∧ ∀ f ∈ old.fields, origins.currentName f.name ≠ g.name := by
  rw [addedFields, List.mem_filter, ← keptNames, List.contains_eq_mem, Bool.not_eq_true',
    decide_eq_false_iff_not, mem_keptNames_iff]
  refine and_congr_right fun hg => ?_
  simp only [Field.name_mem_names hg, Document.fieldNames, true_and, not_exists, not_and, ne_eq]

theorem ofField_eq_nil_iff :
    ofField origins new f = []
      ↔ origins.currentName f.name = f.name ∧ new.field? f.name = some f := by
  have hcurrent (hname : origins.currentName f.name = f.name) :
      counterpart? origins new f = new.field? f.name := congrArg new.field? hname
  rw [ofField]
  constructor
  · intro h
    split at h
    · cases h
    · next g hg =>
      obtain ⟨hname, htype, hdefault⟩ := between_eq_nil_iff.mp h
      obtain ⟨-, hgname⟩ := Document.mem_and_name_of_field? hg
      obtain rfl : f = g := by
        cases f
        cases g
        exact (Field.mk.injEq ..).mpr ⟨(hgname.trans hname).symm, htype, hdefault⟩
      exact ⟨hname, hcurrent hname ▸ hg⟩
  · rintro ⟨hname, hself⟩
    rw [hcurrent hname, hself]
    exact between_eq_nil_iff.mpr ⟨hname, rfl, rfl⟩

/-- **Nothing is reported exactly if each field is its own counterpart** and there are no others. -/
theorem ofDocuments_eq_nil_iff :
    ofDocuments origins old new = []
      ↔ (∀ f ∈ old.fields, origins.currentName f.name = f.name ∧ new.field? f.name = some f)
        ∧ addedFields origins old new = [] := by
  rw [ofDocuments, List.append_eq_nil_iff, List.map_eq_nil_iff, List.flatMap_eq_nil_iff]
  exact and_congr_left fun _ => forall₂_congr fun f _ => ofField_eq_nil_iff

theorem ofDocuments_nil_self (hnodup : old.fieldNames.Nodup) : ofDocuments [] old old = [] := by
  rw [ofDocuments_eq_nil_iff, List.eq_nil_iff_forall_not_mem]
  refine ⟨fun f hf => ⟨rfl, (Document.field?_eq_some_iff hnodup).mpr ⟨hf, rfl⟩⟩, fun g hg => ?_⟩
  obtain ⟨hg, hnone⟩ := mem_addedFields_iff.mp hg
  exact hnone g hg rfl

/-- **Where nothing is reported, the fields are the same.** -/
theorem same_fields_of_ofDocuments (hnodup : new.fieldNames.Nodup)
    (h : ofDocuments origins old new = []) : f ∈ new.fields ↔ f ∈ old.fields := by
  obtain ⟨hkept, hadded⟩ := ofDocuments_eq_nil_iff.mp h
  constructor
  · intro hf
    have hnot : f ∉ addedFields origins old new := hadded ▸ List.not_mem_nil
    by_contra hnone
    refine hnot (mem_addedFields_iff.mpr ⟨hf, fun g hg hname => hnone ?_⟩)
    obtain ⟨hcurrent, hg'⟩ := hkept g hg
    obtain ⟨hmem, -⟩ := Document.mem_and_name_of_field? hg'
    exact List.inj_on_of_nodup_map hnodup hmem hf (hcurrent.symm.trans hname) ▸ hg
  · intro hf
    exact (Document.mem_and_name_of_field? (hkept f hf).2).1

/-- **Nothing breaking is reported exactly if the newer document supports the older one.** -/
theorem supports_iff (hnodup : new.fieldNames.Nodup) :
    Document.Supports origins new old
      ↔ ∀ x ∈ ofDocuments origins old new, x.isBreaking = false := by
  constructor
  · rintro ⟨hkept, hadded⟩ x hx
    rcases mem_ofDocuments.mp hx with ⟨f, hf, hnone, -⟩ | ⟨f, hf, g, hg, hx⟩ | ⟨g, hg, rfl⟩
    · obtain ⟨g, hg, -⟩ := hkept f hf
      cases hnone.symm.trans hg
    · obtain ⟨g', hg', hsame⟩ := hkept f hf
      obtain rfl := Option.some.inj (hg.symm.trans hg')
      exact isBreaking_between_iff.mpr hsame x hx
    · obtain ⟨hmem, hnone⟩ := mem_addedFields_iff.mp hg
      refine Option.isNone_eq_false_iff.mpr (hadded g hmem fun f hf hcounterpart => ?_)
      exact hnone f hf (Document.mem_and_name_of_field? hcounterpart).2.symm
  · intro h
    refine ⟨fun f hf => ?_, fun g hg hnone => ?_⟩
    · cases hcounterpart : counterpart? origins new f with
      | none => cases h _ (removed_mem_ofDocuments.mpr ⟨hf, hcounterpart⟩)
      | some g =>
        have hkept : ∀ x ∈ between f g (origins.currentName f.name), x.isBreaking = false :=
          fun x hx => h x (mem_ofDocuments.mpr (.inr (.inl ⟨f, hf, g, hcounterpart, hx⟩)))
        exact ⟨g, hcounterpart, isBreaking_between_iff.mp hkept⟩
    · have hadded : g ∈ addedFields origins old new := by
        refine mem_addedFields_iff.mpr ⟨hg, fun f hf hname => hnone f hf ?_⟩
        exact (Document.field?_eq_some_iff hnodup).mpr ⟨hg, hname.symm⟩
      exact Option.isNone_eq_false_iff.mp
        (h _ (mem_ofDocuments.mpr (.inr (.inr ⟨g, hadded, rfl⟩))))

end FieldDiff

/-! ## Entries -/

namespace Document

variable {origins : Origins} {new? : Option Document} {d : Document}

/-- A document has no entry if it is there with no difference. -/
theorem entryOf?_eq_none_iff :
    d.entryOf? origins new? = none
      ↔ ∃ new, new? = some new ∧ FieldDiff.ofDocuments origins d new = [] := by
  cases new? with
  | none => simp [entryOf?]
  | some new =>
    cases hchanges : FieldDiff.ofDocuments origins d new <;> simp [entryOf?, hchanges]

/-- An entry is not breaking if the document is there and none of its differences is. -/
theorem isBreaking_entryOf?_iff :
    (∀ x, d.entryOf? origins new? = some x → x.isBreaking = false)
      ↔ ∃ new, new? = some new
        ∧ ∀ x ∈ FieldDiff.ofDocuments origins d new, x.isBreaking = false := by
  cases new? with
  | none => simp [entryOf?, DocumentDiff.isBreaking]
  | some new =>
    cases hchanges : FieldDiff.ofDocuments origins d new <;>
      simp [entryOf?, hchanges, DocumentDiff.isBreaking]

end Document

namespace Evolution

/-- Nothing takes effect after the current version. -/
theorem WellFormed.changesAfter_currentVersion {e : Evolution} (h : e.WellFormed) (name : String) :
    e.resolve.changesAfter name e.currentVersion = [] := by
  refine List.eq_nil_iff_forall_not_mem.mpr fun x hx => ?_
  obtain ⟨hlt, s, hs, -⟩ := (History.mem_changesAfter_iff _ _).mp hx
  exact UInt32.not_lt.mpr (h.effective_le (List.mem_filter.mp hs).1) hlt

theorem originsSince_currentVersion_of_replay {policy : VersionPolicy} {cs : List Command}
    {s : Schema} (h : replay policy cs = .ok s) (name : String) :
    s.originsSince name s.currentVersion = [] := by
  obtain ⟨e, he, rfl⟩ := replay_eq_ok_iff.mp h
  have hnone := (wellFormed_of_applyAll he).changesAfter_currentVersion name
  exact congrArg (fun changes => Origins.followAll [] (changes.map Prod.snd)) hnone

end Evolution

/-! ## Schemas -/

namespace Schema

open Evolution Command

variable {older newer : Schema}

/-- The differences of two schemas, where the renamings that are followed in each document are
given. -/
def diffAlong (origins : String → Origins) (older newer : Schema) : List DocumentDiff :=
  older.documents.filterMap fun d => d.entryOf? (origins d.name) (newer.document? d.name)

theorem mem_diffAlong {origins : String → Origins} {x : DocumentDiff} :
    x ∈ diffAlong origins older newer
      ↔ ∃ d ∈ older.documents, d.entryOf? (origins d.name) (newer.document? d.name) = some x :=
  List.mem_filterMap

/-- **What can be relied on where a diff finds nothing.**  The renamings that it follows are those
that the newer log records after the older version, in some order; the first three statements do not
depend on which they are. -/
theorem guarantees_of_diff (hnodup : ∀ d ∈ newer.documents, d.fieldNames.Nodup) :
    older.diff newer
        = older.diffAlong (fun name => newer.originsSince name older.currentVersion) newer
      ∧ (∀ origins, ∀ d ∈ older.documents,
          (∀ x ∈ older.diffAlong origins newer, x.document ≠ d.name) →
          ∃ d', newer.document? d.name = some d' ∧ ∀ f, f ∈ d'.fields ↔ f ∈ d.fields)
      ∧ (∀ origins, (∀ x ∈ older.diffAlong origins newer, x.isBreaking = false) →
          ∀ d ∈ older.documents, ∃ d', newer.document? d.name = some d'
            ∧ d'.Supports (origins d.name) d)
      ∧ ∀ policy cs s origins, replay policy cs = .ok s →
          (∀ name, (origins name).Perm (s.originsSince name s.currentVersion)) →
          s.diffAlong origins s = [] := by
  refine ⟨rfl, fun origins d hd hnone => ?_, fun origins hclean d hd => ?_,
    fun policy cs s origins h hperm => ?_⟩
  · have hentry : d.entryOf? (origins d.name) (newer.document? d.name) = none := by
      refine Option.eq_none_iff_forall_not_mem.mpr fun x hx => ?_
      exact hnone x (mem_diffAlong.mpr ⟨d, hd, hx⟩) (Document.document_of_entryOf? hx)
    obtain ⟨d', hd', hchanges⟩ := Document.entryOf?_eq_none_iff.mp hentry
    have hnames := hnodup d' (List.mem_of_find?_eq_some hd')
    exact ⟨d', hd', fun f => FieldDiff.same_fields_of_ofDocuments hnames hchanges⟩
  · have hentry : ∀ x, d.entryOf? (origins d.name) (newer.document? d.name) = some x →
        x.isBreaking = false := fun x hx => hclean x (mem_diffAlong.mpr ⟨d, hd, hx⟩)
    obtain ⟨d', hd', hchanges⟩ := Document.isBreaking_entryOf?_iff.mp hentry
    have hnames := hnodup d' (List.mem_of_find?_eq_some hd')
    exact ⟨d', hd', (FieldDiff.supports_iff hnames).mpr hchanges⟩
  · refine List.eq_nil_iff_forall_not_mem.mpr fun x hx => ?_
    obtain ⟨d, hd, hx⟩ := mem_diffAlong.mp hx
    have hthere : s.document? d.name = some d :=
      (document?_eq_some_iff_of_replay h).mpr ⟨hd, rfl⟩
    have horigins : origins d.name = [] :=
      (originsSince_currentVersion_of_replay h d.name ▸ hperm d.name).eq_nil
    have hsame := FieldDiff.ofDocuments_nil_self (nodup_fieldNames_of_replay h hd)
    have hentry : d.entryOf? (origins d.name) (s.document? d.name) = none :=
      Document.entryOf?_eq_none_iff.mpr ⟨d, hthere, horigins.symm ▸ hsame⟩
    cases hentry.symm.trans hx

/-- A user and a team. -/
def staffLog : List Command :=
  [⟨"User", 1, .declare [⟨"name", .string, none⟩]⟩,
    ⟨"Team", 1, .declare [⟨"title", .string, none⟩]⟩]

/-- A field of the user is renamed, and one with a default is added. -/
def enriching : List Command :=
  [⟨"User", 2, .change (.rename "name" "caption")⟩,
    ⟨"User", 3, .change (.add ⟨"mail", .string, some "''"⟩)⟩]

/-- The schema that `staffLog` leads to. -/
def staffSchema : Schema :=
  ⟨⟨1, staffLog.map Step.ofCommand⟩,
    [⟨"User", [⟨"name", .string, none⟩], 1⟩, ⟨"Team", [⟨"title", .string, none⟩], 1⟩]⟩

/-- The schema that `staffLog` and `enriching` lead to. -/
def enrichedSchema : Schema :=
  ⟨⟨3, (staffLog ++ enriching).map Step.ofCommand⟩,
    [⟨"User", [⟨"caption", .string, none⟩, ⟨"mail", .string, some "''"⟩], 1⟩,
      ⟨"Team", [⟨"title", .string, none⟩], 1⟩]⟩

theorem guarantees_of_diff_enriching :
    replay .nonDecreasing staffLog = .ok staffSchema
      ∧ replay .nonDecreasing (staffLog ++ enriching) = .ok enrichedSchema
      ∧ (∀ d ∈ enrichedSchema.documents, d.fieldNames.Nodup)
      ∧ staffSchema.diff enrichedSchema = [⟨"User", .modified
          [.renamed "name" "caption", .added ⟨"mail", .string, some "''"⟩]⟩]
      ∧ (∃ d', enrichedSchema.document? "Team" = some d'
          ∧ ∀ f, f ∈ d'.fields ↔ f ∈ [⟨"title", .string, none⟩])
      ∧ (∀ d ∈ staffSchema.documents, ∃ d', enrichedSchema.document? d.name = some d'
          ∧ d'.Supports (enrichedSchema.originsSince d.name staffSchema.currentVersion) d)
      ∧ enrichedSchema.diff enrichedSchema = [] := by
  have hnodup : ∀ d ∈ enrichedSchema.documents, d.fieldNames.Nodup := by decide
  have hnewer : replay .nonDecreasing (staffLog ++ enriching) = .ok enrichedSchema := rfl
  obtain ⟨-, hsame, hsupports, hself⟩ := @guarantees_of_diff staffSchema enrichedSchema hnodup
  let since (version : Version) (name : String) := enrichedSchema.originsSince name version
  refine ⟨rfl, hnewer, hnodup, rfl, ?_, hsupports (since 1) (by decide), ?_⟩
  · exact hsame (since 1) ⟨"Team", [⟨"title", .string, none⟩], 1⟩ (by decide) (by decide)
  · exact hself _ _ _ (since 3) hnewer fun name => List.Perm.refl _

end Schema

end SchemaLog
