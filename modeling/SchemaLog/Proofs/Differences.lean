import SchemaLog.Diff
import SchemaLog.Proofs.Renamings

/-!
# Proofs/Differences — which renamings a diff reports

    older ──rename a to b──▸ ──remove b──▸ ──add b──▸ newer      reported: a renamed to b

A diff finds the field that an older one has become by the renamings alone.  Where the newer log
goes on from the older one, the further commands are the changes that it follows
(`exists_continued`), so each reported renaming is a chain of theirs.  It is the older field that
now has the new name, unless another one was added.
-/

namespace SchemaLog

namespace Document

variable {d : Document} {name : String}

theorem field?_eq_none_iff : d.field? name = none ↔ name ∉ d.fieldNames := by
  rw [field?, Field.find?, List.find?_eq_none]
  simp only [beq_iff_eq]
  exact ⟨fun h hmem => (Field.mem_names.mp hmem).elim fun f hf => h f hf.1 hf.2,
    fun h f hf heq => h (heq ▸ Field.name_mem_names hf)⟩

theorem mem_and_name_of_field? {f : Field} (h : d.field? name = some f) :
    f ∈ d.fields ∧ f.name = name :=
  ⟨List.mem_of_find?_eq_some h,
    beq_iff_eq.mp (List.find?_some (p := fun f : Field => f.name == name) h)⟩

/-- Where the names are distinct, a field is found by its own. -/
theorem field?_eq_some_iff (hnodup : d.fieldNames.Nodup) {f : Field} :
    d.field? name = some f ↔ f ∈ d.fields ∧ f.name = name := by
  refine ⟨mem_and_name_of_field?, fun ⟨hf, hname⟩ => ?_⟩
  cases hfind : d.field? name with
  | none => exact absurd (hname ▸ Field.name_mem_names hf) (field?_eq_none_iff.mp hfind)
  | some g =>
    obtain ⟨hg, hgname⟩ := mem_and_name_of_field? hfind
    exact congrArg some (List.inj_on_of_nodup_map hnodup hg hf (hgname.trans hname.symm))

end Document

/-! ## Entries -/

namespace FieldDiff

variable {origins : Origins} {old new : Document} {f g : Field} {x : FieldDiff}

/-- What is reported of a field that has a counterpart. -/
theorem mem_between {currentName : String} :
    x ∈ between f g currentName
      ↔ currentName ≠ f.name ∧ x = renamed f.name currentName
        ∨ f.type ≠ g.type ∧ x = retyped g.name f.type g.type
        ∨ (f.type = g.type ∧ f.default ≠ g.default)
          ∧ x = redefaulted g.name f.default g.default := by
  rw [between, List.mem_append]
  refine or_congr ?_ ?_
  · by_cases hname : currentName = f.name <;> simp [hname]
  · by_cases htype : f.type = g.type <;> by_cases hdefault : f.default = g.default
      <;> simp [htype, hdefault]

/-- **What is reported of a document**: fields without a counterpart, differences from the
counterparts, and the newer fields that are none. -/
theorem mem_ofDocuments :
    x ∈ ofDocuments origins old new
      ↔ (∃ f ∈ old.fields, counterpart? origins new f = none ∧ x = removed f)
        ∨ (∃ f ∈ old.fields, ∃ g, counterpart? origins new f = some g
            ∧ x ∈ between f g (origins.currentName f.name))
        ∨ ∃ f ∈ addedFields origins old new, x = added f := by
  have hfield (f : Field) : x ∈ ofField origins new f
      ↔ counterpart? origins new f = none ∧ x = removed f
        ∨ ∃ g, counterpart? origins new f = some g
            ∧ x ∈ between f g (origins.currentName f.name) := by
    rw [ofField]
    cases counterpart? origins new f <;> simp
  rw [ofDocuments, List.mem_append, List.mem_flatMap, List.mem_map, ← or_assoc]
  refine or_congr ?_ (by simp only [eq_comm])
  simp only [hfield, and_or_left, exists_or]

/-- A field that is reported as renamed was there, and its name is now that of a field. -/
theorem currentName_of_renamed_mem {a b : String} (h : renamed a b ∈ ofDocuments origins old new) :
    a ∈ old.fieldNames ∧ b ∈ new.fieldNames ∧ origins.currentName a = b ∧ a ≠ b := by
  rcases mem_ofDocuments.mp h with ⟨f, -, -, heq⟩ | ⟨f, hf, g, hg, h⟩ | ⟨f, -, heq⟩
  · cases heq
  · rcases mem_between.mp h with ⟨hne, heq⟩ | ⟨-, heq⟩ | ⟨-, heq⟩ <;> cases heq
    obtain ⟨hmem, hname⟩ := Document.mem_and_name_of_field? hg
    exact ⟨Field.name_mem_names hf, hname ▸ Field.name_mem_names hmem, rfl, hne.symm⟩
  · cases heq

end FieldDiff

namespace Document

variable {origins : Origins} {new? : Option Document} {d new : Document} {x : DocumentDiff}

/-- The entry for a document, given what it has become and the renamings that are followed. -/
def entryOf? (origins : Origins) (new? : Option Document) (d : Document) : Option DocumentDiff :=
  match new? with
  | none => some ⟨d.name, .removed⟩
  | some new =>
    match FieldDiff.ofDocuments origins d new with
    | [] => none
    | fields => some ⟨d.name, .modified fields⟩

/-- An entry is for the document whose name it has. -/
theorem document_of_entryOf? (h : d.entryOf? origins new? = some x) : x.document = d.name := by
  unfold entryOf? at h
  split at h
  · rw [← Option.some.inj h]
  · split at h
    · cases h
    · rw [← Option.some.inj h]

/-- **An entry lists the differences of the two documents**; where there are none, there is none. -/
theorem fields_entryOf? :
    (d.entryOf? origins (some new)).elim [] DocumentDiff.fields
      = FieldDiff.ofDocuments origins d new := by
  dsimp only [entryOf?]
  split
  · next hnil => rw [hnil]; rfl
  · rfl

end Document

namespace Schema

variable {older newer : Schema} {d : Document} {x : DocumentDiff}

theorem diffOf?_eq_entryOf? (older newer : Schema) (d : Document) :
    diffOf? older newer d
      = d.entryOf? (newer.originsSince d.name older.currentVersion) (newer.document? d.name) :=
  rfl

theorem document_of_diffOf? (h : diffOf? older newer d = some x) : x.document = d.name :=
  Document.document_of_entryOf? h

theorem fields_diffOf? {new : Document} (hnew : newer.document? d.name = some new) :
    (diffOf? older newer d).elim [] DocumentDiff.fields
      = FieldDiff.ofDocuments (newer.originsSince d.name older.currentVersion) d new := by
  rw [diffOf?_eq_entryOf?, hnew, Document.fields_entryOf?]

/-- Where differences of fields are listed, the document is in both schemas. -/
theorem exists_document?_of_mem_fields (h : diffOf? older newer d = some x) {change : FieldDiff}
    (hchange : change ∈ x.fields) :
    ∃ new, newer.document? d.name = some new
      ∧ change ∈ FieldDiff.ofDocuments (newer.originsSince d.name older.currentVersion) d new := by
  cases hnew : newer.document? d.name with
  | none =>
    rw [diffOf?, hnew] at h
    obtain rfl := Option.some.inj h
    cases hchange
  | some new =>
    refine ⟨new, rfl, ?_⟩
    rw [← fields_diffOf? hnew, h]
    exact hchange

end Schema

/-! ## A log that goes on -/

namespace Evolution

open Command

variable {policy : VersionPolicy} {cs ext : List Command} {older newer : Schema} {name : String}

/-- **What takes effect after the older version are the further commands**, if the first of them is
stamped above it. -/
theorem dropWhile_of_continued {e : Evolution} (h : (start policy).applyAll cs = (e, none))
    (hext : ∀ c ∈ ext.head?, e.currentVersion < c.version) :
    (cs ++ ext).dropWhile (fun c => c.version ≤ e.currentVersion) = ext := by
  have hwf := wellFormed_of_applyAll h
  have hcommands : e.commands = cs := commands_of_applyAll h
  have hle : ∀ c ∈ cs, decide (c.version ≤ e.currentVersion) = true := by
    intro c hc
    refine decide_eq_true (highest_le_iff.mp ?_ c hc)
    rw [hwf.currentVersion_eq, hcommands]
    exact UInt32.le_refl _
  rw [List.dropWhile_append_of_pos hle]
  cases ext with
  | nil => rfl
  | cons c rest =>
    refine List.dropWhile_cons_of_neg ?_
    rw [decide_eq_true_eq, UInt32.not_le]
    exact hext c rfl

/-- **A document of the older schema has gone through the changes of the further commands**, and
these are the changes whose renamings are followed. -/
theorem exists_continued (holder : replay policy cs = .ok older)
    (hnewer : replay policy (cs ++ ext) = .ok newer)
    (hext : ∀ c ∈ ext.head?, older.currentVersion < c.version) {old : Document}
    (hold : older.document? name = some old) :
    ∃ new, newer.document? name = some new
      ∧ newer.originsSince name older.currentVersion = Origins.after (changesTo name ext)
      ∧ Change.Accepted old.fields (changesTo name ext)
      ∧ new.fields = Change.effects (changesTo name ext) old.fields := by
  obtain ⟨e₀, h₀, rfl⟩ := replay_eq_ok_iff.mp holder
  obtain ⟨e, he, rfl⟩ := replay_eq_ok_iff.mp hnewer
  have hwf₀ := wellFormed_of_applyAll h₀
  have hwf := wellFormed_of_applyAll he
  obtain ⟨e₁, h₁, hrest⟩ := applyAll_append_iff.mp he
  obtain rfl : e₀ = e₁ := congrArg Prod.fst (h₀.symm.trans h₁)
  rw [hwf₀.document?_resolve] at hold
  have hfields : e₀.fields? name = some old.fields := congrArg (Option.map Document.fields) hold
  obtain ⟨haccepted, heffects⟩ := accepted_of_applyAll hwf₀ hrest hfields
  obtain ⟨new, hnew, hnewFields⟩ := Option.map_eq_some_iff.mp heffects
  refine ⟨new, (hwf.document?_resolve name).trans hnew, ?_, haccepted, hnewFields⟩
  rw [History.originsSince, History.map_snd_changesAfter (steps_of_applyAll he)]
  exact congrArg (fun cs => Origins.after (changesTo name cs)) (dropWhile_of_continued h₀ hext)

/-- **A reported renaming is a chain of renamings in the further commands**, and it is the older
field that now has the new name, unless that field was added. -/
theorem renamed_of_mem_diff (holder : replay policy cs = .ok older)
    (hnewer : replay policy (cs ++ ext) = .ok newer)
    (hext : ∀ c ∈ ext.head?, older.currentVersion < c.version) {x : DocumentDiff}
    (hx : x ∈ older.diff newer) {a b : String} (hrenamed : .renamed a b ∈ x.fields) :
    ∃ old new, older.document? x.document = some old ∧ newer.document? x.document = some new
      ∧ a ∈ old.fieldNames ∧ b ∈ new.fieldNames
      ∧ RenameChain (changesTo x.document ext) a b
      ∧ (Change.carryAll (changesTo x.document ext) a = some b
          ↔ ¬ Change.AddedAs (changesTo x.document ext) b) := by
  obtain ⟨old, hmem, hold⟩ := List.mem_filterMap.mp hx
  obtain ⟨new, hnew, hchange⟩ := Schema.exists_document?_of_mem_fields hold hrenamed
  obtain ⟨ha, hb, hcurrent, hne⟩ := FieldDiff.currentName_of_renamed_mem hchange
  rw [Schema.document_of_diffOf? hold]
  have holdName : older.document? old.name = some old :=
    (document?_eq_some_iff_of_replay holder).mpr ⟨hmem, rfl⟩
  obtain ⟨new', hnew', horigins, haccepted, hfields⟩ :=
    exists_continued holder hnewer hext holdName
  obtain rfl := Option.some.inj (hnew.symm.trans hnew')
  rw [horigins] at hcurrent
  have hentry := Origins.mem_of_currentName hcurrent hne
  refine ⟨old, new, holdName, hnew, ha, hb, Origins.chain_of_mem hentry, ?_⟩
  have hfirst : (Origins.after (changesTo old.name ext)).firstName b = a :=
    Origins.firstName_of_mem (Origins.nodup_after _) hentry
  exact Origins.carryAll_iff_not_addedAs haccepted (hfields ▸ hb) ha hfirst

/-- A user with one field. -/
def userLog : List Command :=
  [⟨"User", 1, .declare [⟨"name", .string, none⟩]⟩]

/-- The field is renamed twice, and another one is added under its first name. -/
def retitling : List Command :=
  [⟨"User", 2, .change (.rename "name" "title")⟩,
    ⟨"User", 3, .change (.rename "title" "caption")⟩,
    ⟨"User", 3, .change (.add ⟨"name", .string, some "''"⟩)⟩]

theorem renamed_of_mem_diff_retitling :
    ∃ older newer, replay .nonDecreasing userLog = .ok older
      ∧ replay .nonDecreasing (userLog ++ retitling) = .ok newer
      ∧ (∀ c ∈ retitling.head?, older.currentVersion < c.version)
      ∧ older.diff newer = [⟨"User", .modified
          [.renamed "name" "caption", .added ⟨"name", .string, some "''"⟩]⟩]
      ∧ RenameChain (changesTo "User" retitling) "name" "caption"
      ∧ ¬ Change.AddedAs (changesTo "User" retitling) "caption" := by
  refine ⟨_, _, rfl, rfl, by decide, rfl, ?_⟩
  obtain ⟨-, -, -, -, -, -, hchain, hcarry⟩ :=
    @renamed_of_mem_diff .nonDecreasing userLog retitling _ _ rfl rfl (by decide) _
      List.mem_cons_self "name" "caption" List.mem_cons_self
  exact ⟨hchain, hcarry.mp rfl⟩

/-- The field is renamed and removed, and another one is added under its last name. -/
def replacing : List Command :=
  [⟨"User", 2, .change (.rename "name" "title")⟩,
    ⟨"User", 2, .change (.remove "title")⟩,
    ⟨"User", 2, .change (.add ⟨"title", .string, none⟩)⟩]

/-- A field that was removed is reported as renamed, and nothing as breaking. -/
theorem renamed_though_removed :
    ∃ older newer, replay .nonDecreasing userLog = .ok older
      ∧ replay .nonDecreasing (userLog ++ replacing) = .ok newer
      ∧ (∀ c ∈ replacing.head?, older.currentVersion < c.version)
      ∧ older.diff newer = [⟨"User", .modified [.renamed "name" "title"]⟩]
      ∧ (older.diff newer).all (fun x => !x.isBreaking)
      ∧ Change.carryAll (changesTo "User" replacing) "name" = none :=
  ⟨_, _, rfl, rfl, by decide, rfl, rfl, rfl⟩

end Evolution

end SchemaLog
