import SchemaLog.Proofs.Differences
import Mathlib.Data.List.Dedup
import Mathlib.Data.List.Pairwise

/-!
# Proofs/Counterparts — the fields of two versions, matched and counted

    older:   name    title
                ╲    │          name renamed to title, after title was removed
    newer:        title

Each older field is matched with the newer one of its current name, or else reported as removed; the
newer fields that are not matched are reported as added.  The report accounts for all fields as long
as no two older ones are matched with one newer field (`balanced_iff_nodup_keptNames`).  Two of them
are when a field has got the name of another one whose removal is not noticed (`TakenOver`).
-/

namespace SchemaLog

namespace FieldDiff

/-- Whether a field is reported as removed. -/
def isRemoved : FieldDiff → Bool
  | removed _ => true
  | added _ | renamed _ _ | retyped _ _ _ | redefaulted _ _ _ => false

/-- Whether a field is reported as added. -/
def isAdded : FieldDiff → Bool
  | added _ => true
  | removed _ | renamed _ _ | retyped _ _ _ | redefaulted _ _ _ => false

/-- The names of the newer fields in which the older ones live on, one for each of these. -/
def keptNames (origins : Origins) (old new : Document) : List String :=
  (old.fields.filterMap (counterpart? origins new)).map Field.name

/-- No newer field is matched with two older ones. -/
def MatchedApart (origins : Origins) (old new : Document) : Prop :=
  ∀ f ∈ old.fields, ∀ g ∈ old.fields, ∀ h, counterpart? origins new f = some h →
    counterpart? origins new g = some h → f = g

/-- A field has got the name of another older field, and both are matched with the newer one. -/
def TakenOver (origins : Origins) (old new : Document) : Prop :=
  ∃ f ∈ old.fields, ∃ g ∈ old.fields,
    g.name ∈ new.fieldNames ∧ origins.TakesOver f.name g.name

variable {origins : Origins} {old new : Document} {f g : Field}

/-! ## What is reported -/

/-- Of a field that has a counterpart, neither a removal nor an addition is reported. -/
theorem eq_false_of_mem_between {currentName : String} {x : FieldDiff}
    (h : x ∈ between f g currentName) : x.isRemoved = false ∧ x.isAdded = false := by
  rcases mem_between.mp h with ⟨-, rfl⟩ | ⟨-, rfl⟩ | ⟨-, rfl⟩ <;> exact ⟨rfl, rfl⟩

theorem countP_isRemoved_ofField :
    (ofField origins new f).countP isRemoved
      = if (counterpart? origins new f).isNone then 1 else 0 := by
  rw [ofField]
  cases counterpart? origins new f with
  | none => rfl
  | some g =>
    refine List.countP_eq_zero.mpr fun x hx => ?_
    rw [(eq_false_of_mem_between hx).1]
    exact Bool.false_ne_true

theorem countP_isAdded_ofField : (ofField origins new f).countP isAdded = 0 := by
  rw [ofField]
  cases counterpart? origins new f with
  | none => rfl
  | some g =>
    refine List.countP_eq_zero.mpr fun x hx => ?_
    rw [(eq_false_of_mem_between hx).2]
    exact Bool.false_ne_true

/-- **A field is reported as removed exactly if it has no counterpart.** -/
theorem removed_mem_ofDocuments :
    removed f ∈ ofDocuments origins old new
      ↔ f ∈ old.fields ∧ counterpart? origins new f = none := by
  rw [mem_ofDocuments]
  constructor
  · rintro (⟨g, hg, hnone, heq⟩ | ⟨g, -, h, -, hbetween⟩ | ⟨g, -, heq⟩)
    · obtain rfl := removed.inj heq
      exact ⟨hg, hnone⟩
    · cases (eq_false_of_mem_between hbetween).1
    · cases heq
  · rintro ⟨hf, hnone⟩
    exact .inl ⟨f, hf, hnone, rfl⟩

/-- There are as many removals as older fields without a counterpart. -/
theorem countP_isRemoved_ofDocuments :
    (ofDocuments origins old new).countP isRemoved
      = old.fields.countP fun f => (counterpart? origins new f).isNone := by
  have hadded : ((addedFields origins old new).map added).countP isRemoved = 0 := by
    rw [List.countP_map]
    exact List.countP_eq_zero.mpr fun f _ => Bool.false_ne_true
  rw [ofDocuments, List.countP_append, hadded, Nat.add_zero]
  induction old.fields with
  | nil => rfl
  | cons f rest ih =>
    rw [List.flatMap_cons, List.countP_append, ih, countP_isRemoved_ofField, List.countP_cons,
      Nat.add_comm]

/-- There are as many additions as newer fields that are not matched. -/
theorem countP_isAdded_ofDocuments :
    (ofDocuments origins old new).countP isAdded = (addedFields origins old new).length := by
  have hfields : (old.fields.flatMap (ofField origins new)).countP isAdded = 0 := by
    refine List.countP_eq_zero.mpr fun x hx => ?_
    obtain ⟨f, -, hx⟩ := List.mem_flatMap.mp hx
    exact List.countP_eq_zero.mp countP_isAdded_ofField x hx
  rw [ofDocuments, List.countP_append, hfields, Nat.zero_add, List.countP_map]
  exact List.countP_eq_length.mpr fun f _ => rfl

/-! ## Counting -/

/-- An older field lives on under its current name, if that is the name of a newer one. -/
theorem mem_keptNames_iff {name : String} :
    name ∈ keptNames origins old new
      ↔ name ∈ new.fieldNames ∧ ∃ f ∈ old.fields, origins.currentName f.name = name := by
  rw [keptNames, List.mem_map]
  constructor
  · rintro ⟨g, hg, rfl⟩
    obtain ⟨f, hf, hcounterpart⟩ := List.mem_filterMap.mp hg
    obtain ⟨hmem, hname⟩ := Document.mem_and_name_of_field? hcounterpart
    exact ⟨Field.name_mem_names hmem, f, hf, hname.symm⟩
  · rintro ⟨hname, f, hf, rfl⟩
    cases hcounterpart : counterpart? origins new f with
    | none => exact absurd hname (Document.field?_eq_none_iff.mp hcounterpart)
    | some g =>
      exact ⟨g, List.mem_filterMap.mpr ⟨f, hf, hcounterpart⟩,
        (Document.mem_and_name_of_field? hcounterpart).2⟩

theorem keptNames_subset : keptNames origins old new ⊆ new.fieldNames :=
  fun _ hname => (mem_keptNames_iff.mp hname).1

/-- Each older field is matched or removed. -/
theorem length_old (origins : Origins) (old new : Document) :
    old.fields.length
      = (keptNames origins old new).length + (ofDocuments origins old new).countP isRemoved := by
  rw [keptNames, List.length_map, List.length_filterMap_eq_countP, countP_isRemoved_ofDocuments,
    List.length_eq_countP_add_countP fun f => (counterpart? origins new f).isSome]
  refine congrArg _ (List.countP_congr fun f _ => ?_)
  cases counterpart? origins new f <;> simp

/-- Each newer field is matched at least once or added. -/
theorem length_new (origins : Origins) (old : Document) (hnodup : new.fieldNames.Nodup) :
    new.fields.length
      = (keptNames origins old new).dedup.length
        + (ofDocuments origins old new).countP isAdded := by
  have hmatched : (new.fieldNames.filter (· ∈ keptNames origins old new)).Perm
      (keptNames origins old new).dedup := by
    refine (List.perm_ext_iff_of_nodup (hnodup.filter _) (List.nodup_dedup _)).mpr fun name => ?_
    rw [List.mem_filter, List.mem_dedup, decide_eq_true_eq]
    exact ⟨And.right, fun h => ⟨keptNames_subset h, h⟩⟩
  rw [← hmatched.length_eq, countP_isAdded_ofDocuments, addedFields, Document.fieldNames,
    Field.names, List.filter_map, List.length_map, ← List.countP_eq_length_filter,
    ← List.countP_eq_length_filter,
    List.length_eq_countP_add_countP fun f : Field => decide (f.name ∈ keptNames origins old new)]
  refine congrArg _ (List.countP_congr fun f _ => ?_)
  rw [List.contains_eq_mem, ← keptNames]
  simp only [decide_eq_true_eq, Bool.not_eq_true', decide_eq_false_iff_not]

/-- **The report accounts for all fields exactly if no newer field is matched twice.** -/
theorem balanced_iff_nodup_keptNames (hnodup : new.fieldNames.Nodup) :
    old.fields.length + (ofDocuments origins old new).countP isAdded
        = new.fields.length + (ofDocuments origins old new).countP isRemoved
      ↔ (keptNames origins old new).Nodup := by
  have hold := length_old origins old new
  have hnew := length_new origins old hnodup
  constructor
  · intro h
    have hlength : (keptNames origins old new).length
        ≤ (keptNames origins old new).dedup.length := by omega
    exact List.dedup_eq_self.mp ((List.dedup_sublist _).eq_of_length_le hlength)
  · intro h
    rw [h.dedup] at hnew
    omega

/-! ## Matching twice -/

/-- **No newer field is matched with two older ones exactly if no name is taken over.** -/
theorem matchedApart_iff (hold : old.fieldNames.Nodup) (hnew : new.fieldNames.Nodup)
    (horigins : (origins.map Prod.fst).Nodup) :
    MatchedApart origins old new ↔ ¬ TakenOver origins old new := by
  constructor
  · rintro hinj ⟨f, hf, g, hg, hthere, hne, hcurrent, hself⟩
    obtain ⟨h, hh, hname⟩ := Field.mem_names.mp hthere
    refine hne (congrArg Field.name (hinj f hf g hg h ?_ ?_))
    · exact (Document.field?_eq_some_iff hnew).mpr ⟨hh, hname.trans hcurrent.symm⟩
    · exact (Document.field?_eq_some_iff hnew).mpr ⟨hh, hname.trans hself.symm⟩
  · intro hnot f hf g hg h hfh hgh
    obtain ⟨hh, hname⟩ := Document.mem_and_name_of_field? hfh
    obtain ⟨-, hname'⟩ := Document.mem_and_name_of_field? hgh
    by_contra hne
    have hnames : f.name ≠ g.name := fun heq => hne (List.inj_on_of_nodup_map hold hf hg heq)
    have hsame : origins.currentName f.name = origins.currentName g.name := hname.symm.trans hname'
    rcases Origins.takesOver_of_currentName_eq horigins hnames hsame with hover | hover
    · refine hnot ⟨f, hf, g, hg, ?_, hover⟩
      exact hover.2.2 ▸ hname' ▸ Field.name_mem_names hh
    · refine hnot ⟨g, hg, f, hf, ?_, hover⟩
      exact hover.2.2 ▸ hname ▸ Field.name_mem_names hh

/-- A newer field that is matched twice comes twice among the names. -/
theorem nodup_keptNames_iff (hold : old.fieldNames.Nodup) (hnew : new.fieldNames.Nodup) :
    (keptNames origins old new).Nodup ↔ MatchedApart origins old new := by
  rw [keptNames, List.Nodup, List.pairwise_map, List.pairwise_filterMap]
  constructor
  · intro hpairwise f hf g hg h hfh hgh
    by_contra hne
    have : Std.Symm fun f g : Field => ∀ h, counterpart? origins new f = some h →
        ∀ h', counterpart? origins new g = some h' → h.name ≠ h'.name :=
      ⟨fun f g hfg h hh h' hh' => (hfg h' hh' h hh).symm⟩
    exact hpairwise.forall hf hg hne h hfh h hgh rfl
  · intro hinj
    refine (List.Nodup.of_map Field.name hold).pairwise_of_forall_ne ?_
    intro f hf g hg hne h hfh h' hgh heq
    have hh := (Document.mem_and_name_of_field? hfh).1
    have hh' := (Document.mem_and_name_of_field? hgh).1
    obtain rfl := List.inj_on_of_nodup_map hnew hh hh' heq
    exact hne (hinj f hf g hg h hfh hgh)

end FieldDiff

/-! ## The changes of a document in a report -/

namespace DocumentDiff

variable {x : DocumentDiff} {change : FieldDiff}

theorem isBreaking_of_mem_fields (h : change ∈ x.fields) (hbreaking : change.isBreaking) :
    x.isBreaking := by
  rcases x with ⟨document, _ | fields⟩
  · cases h
  · exact List.any_eq_true.mpr ⟨change, h, hbreaking⟩

end DocumentDiff

namespace Schema

variable {older newer : Schema} {old new : Document} {document : String}

/-- The differences of fields that are reported for a document, of which there are none if the
document has no entry. -/
def reported (older newer : Schema) (document : String) : List FieldDiff :=
  ((older.diff newer).find? fun x => x.document == document).elim [] DocumentDiff.fields

/-- **A document has one entry, if it has any.** -/
theorem filter_diff (hnodup : (older.documents.map Document.name).Nodup)
    (hold : old ∈ older.documents) :
    ((older.diff newer).filter fun x => x.document == old.name)
      = (diffOf? older newer old).toList := by
  have hother (d : Document) (hne : d.name ≠ old.name) :
      (diffOf? older newer d).filter (fun x => x.document == old.name) = none := by
    refine Option.filter_eq_none_iff.mpr fun x hx heq => hne ?_
    rw [← document_of_diffOf? hx, beq_iff_eq.mp heq]
  have hself : (diffOf? older newer old).filter (fun x => x.document == old.name)
      = diffOf? older newer old := by
    cases hx : diffOf? older newer old with
    | none => rfl
    | some x => rw [Option.filter_some, if_pos (beq_iff_eq.mpr (document_of_diffOf? hx))]
  obtain ⟨front, back, hdocuments⟩ := List.append_of_mem hold
  rw [hdocuments, List.map_append, List.map_cons] at hnodup
  obtain ⟨-, hback, hapart⟩ := List.nodup_append.mp hnodup
  have hfront : ∀ d ∈ front, d.name ≠ old.name := fun d hd =>
    hapart d.name (List.mem_map_of_mem hd) old.name List.mem_cons_self
  have hback : ∀ d ∈ back, d.name ≠ old.name := fun d hd heq =>
    (List.nodup_cons.mp hback).1 (heq ▸ List.mem_map_of_mem hd)
  rw [diff, List.filter_filterMap, hdocuments, List.filterMap_append, List.filterMap_cons, hself,
    List.filterMap_eq_nil_iff.mpr fun d hd => hother d (hfront d hd),
    List.filterMap_eq_nil_iff.mpr fun d hd => hother d (hback d hd)]
  cases diffOf? older newer old <;> rfl

theorem document_eq_of_find? {x : DocumentDiff}
    (h : ((older.diff newer).find? fun x => x.document == document) = some x) :
    x.document = document :=
  beq_iff_eq.mp (List.find?_some (p := fun x : DocumentDiff => x.document == document) h)

/-- What is reported of a document are its differences. -/
theorem reported_eq (hnodup : (older.documents.map Document.name).Nodup)
    (hold : old ∈ older.documents) (hnew : newer.document? old.name = some new) :
    older.reported newer old.name
      = FieldDiff.ofDocuments (newer.originsSince old.name older.currentVersion) old new := by
  rw [reported, ← List.head?_filter, filter_diff hnodup hold, Option.head?_toList,
    fields_diffOf? hnew]

/-- A breaking difference makes the entry of its document breaking. -/
theorem exists_isBreaking_of_mem_reported {change : FieldDiff}
    (h : change ∈ older.reported newer document) (hbreaking : change.isBreaking) :
    ∃ x ∈ older.diff newer, x.document = document ∧ x.isBreaking := by
  rw [reported] at h
  cases hfind : (older.diff newer).find? fun x => x.document == document with
  | none =>
    rw [hfind] at h
    cases h
  | some x =>
    rw [hfind] at h
    exact ⟨x, List.mem_of_find?_eq_some hfind, document_eq_of_find? hfind,
      DocumentDiff.isBreaking_of_mem_fields h hbreaking⟩

end Schema

/-! ## Replayed schemas -/

namespace Evolution

open Command FieldDiff

variable {policy policy' : VersionPolicy} {cs cs' : List Command} {older newer : Schema}

/-- **What a diff reports accounts for every field, unless a name is taken over**, and none is where
the newer log goes on from the older one and renames no field to a name that it has removed. -/
theorem reported_accounts_for_fields (holder : replay policy cs = .ok older)
    (hnewer : replay policy' cs' = .ok newer) {name : String} {old new : Document}
    (hold : older.document? name = some old) (hnew : newer.document? name = some new) :
    let origins := newer.originsSince name older.currentVersion
    let changes := older.reported newer name
    (∀ f ∈ old.fields, counterpart? origins new f = none →
        removed f ∈ changes ∧ ∃ x ∈ older.diff newer, x.document = name ∧ x.isBreaking)
      ∧ (MatchedApart origins old new ↔ ¬ TakenOver origins old new)
      ∧ (old.fields.length + changes.countP isAdded = new.fields.length + changes.countP isRemoved
          ↔ ¬ TakenOver origins old new)
      ∧ ∀ ext, policy' = policy → cs' = cs ++ ext →
          (∀ c ∈ ext.head?, older.currentVersion < c.version) →
          Change.RenamesApart (changesTo name ext) → ¬ TakenOver origins old new := by
  intro origins changes
  obtain ⟨hmem, rfl⟩ := (document?_eq_some_iff_of_replay holder).mp hold
  obtain ⟨hmem', -⟩ := (document?_eq_some_iff_of_replay hnewer).mp hnew
  have hfields := nodup_fieldNames_of_replay holder hmem
  have hfields' := nodup_fieldNames_of_replay hnewer hmem'
  have hchanges : changes = ofDocuments origins old new :=
    Schema.reported_eq (nodup_documents_of_replay holder) hmem hnew
  have horigins : (origins.map Prod.fst).Nodup := Origins.nodup_followAll _ List.nodup_nil
  have hmatched := matchedApart_iff hfields hfields' horigins
  refine ⟨fun f hf hnone => ?_, hmatched, ?_, ?_⟩
  · have hremoved : removed f ∈ changes := hchanges ▸ removed_mem_ofDocuments.mpr ⟨hf, hnone⟩
    exact ⟨hremoved, Schema.exists_isBreaking_of_mem_reported hremoved rfl⟩
  · rw [hchanges, balanced_iff_nodup_keptNames hfields', nodup_keptNames_iff hfields hfields',
      hmatched]
  · rintro ext rfl rfl hext hapart ⟨f, hf, g, hg, -, hover⟩
    obtain ⟨new', -, hafter, haccepted, -⟩ := exists_continued holder hnewer hext hold
    have hover' : (Origins.after (changesTo old.name ext)).TakesOver f.name g.name := hafter ▸ hover
    exact Origins.not_takesOver haccepted hapart (Field.name_mem_names hg) hover'

/-- A user with two fields. -/
def titledLog : List Command :=
  [⟨"User", 1, .declare [⟨"name", .string, none⟩, ⟨"title", .string, none⟩]⟩]

/-- One field is renamed, one is removed, and one is added. -/
def reshaping : List Command :=
  [⟨"User", 2, .change (.rename "name" "caption")⟩,
    ⟨"User", 2, .change (.remove "title")⟩,
    ⟨"User", 3, .change (.add ⟨"mail", .string, none⟩)⟩]

theorem reported_accounts_for_fields_reshaping :
    ∃ older newer old new, replay .nonDecreasing titledLog = .ok older
      ∧ replay .nonDecreasing (titledLog ++ reshaping) = .ok newer
      ∧ older.document? "User" = some old ∧ newer.document? "User" = some new
      ∧ (∀ c ∈ reshaping.head?, older.currentVersion < c.version)
      ∧ Change.RenamesApart (changesTo "User" reshaping)
      ∧ old.fields.length + (older.reported newer "User").countP isAdded
          = new.fields.length + (older.reported newer "User").countP isRemoved
      ∧ ∃ x ∈ older.diff newer, x.document = "User" ∧ x.isBreaking := by
  refine ⟨_, _, _, _, rfl, rfl, rfl, rfl, by decide, by decide, ?_⟩
  obtain ⟨hremoved, -, hbalanced, hapart⟩ :=
    @reported_accounts_for_fields .nonDecreasing .nonDecreasing titledLog (titledLog ++ reshaping)
      _ _ rfl rfl "User" _ _ rfl rfl
  refine ⟨hbalanced.mpr (hapart reshaping rfl rfl (by decide) (by decide)), ?_⟩
  exact (hremoved ⟨"title", .string, none⟩ (List.mem_cons_of_mem _ List.mem_cons_self) rfl).2

/-- One field is removed, and the other one gets its name. -/
def succeeding : List Command :=
  [⟨"User", 2, .change (.remove "title")⟩,
    ⟨"User", 2, .change (.rename "name" "title")⟩]

/-- Both fields are matched with the one that is left: no removal is reported, nothing is breaking,
and two fields without a removal make one. -/
theorem matched_twice_after_removal :
    ∃ older newer old new, replay .nonDecreasing titledLog = .ok older
      ∧ replay .nonDecreasing (titledLog ++ succeeding) = .ok newer
      ∧ older.document? "User" = some old ∧ newer.document? "User" = some new
      ∧ (∀ c ∈ succeeding.head?, older.currentVersion < c.version)
      ∧ old.fields.map (counterpart? (newer.originsSince "User" older.currentVersion) new)
          = [some ⟨"title", .string, none⟩, some ⟨"title", .string, none⟩]
      ∧ older.reported newer "User" = [.renamed "name" "title"]
      ∧ (older.diff newer).all (fun x => !x.isBreaking)
      ∧ old.fields.length = 2 ∧ new.fields.length = 1 :=
  ⟨_, _, _, _, rfl, rfl, rfl, rfl, by decide, rfl, rfl, rfl, rfl, rfl⟩

end Evolution

end SchemaLog
