import SchemaLog.Proofs.Differences

/-!
# Proofs/Inversion — when the renamings can be read backwards

    a ──rename──▸ b      add a      a ──rename──▸ c        b and c both go back to a

`Origins` say what each name goes back to, and a diff asks the other way round, which name a field
has got.  There is one answer, whatever the order in which the entries are looked through, exactly
if no two of them go back to one name (`Origins.nodup_iff_perm`).  An entry begins where a field is
renamed that no renaming has given its name; for a second one to begin at the same name, another
field must have been added under it in between (`Origins.renamedAnew_of_mem`).
-/

namespace SchemaLog

namespace Origins

variable {o o' : Origins} {e : String × String}

/-! ## One answer in any order -/

/-- Where no two entries go back to one name, every entry is found. -/
theorem currentName_of_mem (hnodup : (o.map Prod.snd).Nodup) (he : e ∈ o) :
    o.currentName e.2 = e.1 := by
  rcases o.currentName_cases e.2 with hmem | ⟨-, hnone⟩
  · exact congrArg Prod.fst (List.inj_on_of_nodup_map hnodup hmem he rfl)
  · exact absurd rfl (hnone e he)

/-- **No entry is lost exactly if no two go back to one name.** -/
theorem nodup_iff_currentName (hnodup : (o.map Prod.fst).Nodup) :
    (o.map Prod.snd).Nodup ↔ ∀ e ∈ o, o.currentName e.2 = e.1 := by
  refine ⟨fun h e he => currentName_of_mem h he, fun h => ?_⟩
  refine (List.Nodup.of_map Prod.fst hnodup).map_on fun e he e' he' heq => ?_
  exact Prod.ext ((h e he).symm.trans (heq ▸ h e' he')) heq

/-- Some order begins with a given entry. -/
theorem exists_perm_currentName (he : e ∈ o) : ∃ o', o'.Perm o ∧ currentName o' e.2 = e.1 := by
  refine ⟨e :: o.erase e, (List.perm_cons_erase he).symm, ?_⟩
  have hfound : (e :: o.erase e).find? (fun x => x.2 == e.2) = some e :=
    List.find?_cons_of_pos (beq_self_eq_true e.2)
  rw [currentName, hfound]
  rfl

/-- **The order plays no part exactly if no two entries go back to one name.** -/
theorem nodup_iff_perm (hnodup : (o.map Prod.fst).Nodup) :
    (o.map Prod.snd).Nodup ↔ ∀ o', o'.Perm o → currentName o' = o.currentName := by
  refine ⟨fun h o' hperm => funext fun name => ?_, fun h => ?_⟩
  · rcases o.currentName_cases name with hmem | ⟨hself, hnone⟩
    · exact currentName_of_mem ((hperm.map Prod.snd).nodup_iff.mpr h) (hperm.mem_iff.mpr hmem)
    · rcases currentName_cases o' name with hmem | ⟨hself', -⟩
      · exact absurd rfl (hnone _ (hperm.mem_iff.mp hmem))
      · exact hself'.trans hself.symm
  · refine (nodup_iff_currentName hnodup).mpr fun e he => ?_
    obtain ⟨o', hperm, hfound⟩ := exists_perm_currentName he
    rw [← h o' hperm, hfound]

end Origins

/-! ## Where two entries begin at one name -/

/-- Without a renaming, a name is taken only by an addition. -/
theorem Change.eq_add_of_takes {c : Change} {name : String} (hc : c.renamedTo? = none)
    (h : name ∈ c.takes?) : ∃ field, c = .add field ∧ field.name = name := by
  cases c with
  | add field => exact ⟨field, rfl, Option.some.inj h⟩
  | rename old new => cases hc
  | remove gone => cases h
  | retype retyped type conversion => cases h

/-- A field is renamed, another one is added under the name that it had, and a field of this name is
renamed again. -/
def Change.RenamedAnew (changes : List Change) (name : String) : Prop :=
  ∃ new field new', field.name = name
    ∧ [.rename name new, .add field, .rename name new'].Sublist changes

namespace Origins

open Change

variable {fields : List Field} {changes : List Change} {e e' : String × String} {name : String}

/-- What an entry goes back to has been renamed. -/
theorem exists_rename_of_mem (he : e ∈ after changes) : ∃ new, .rename e.2 new ∈ changes := by
  induction changes using List.reverseRecOn generalizing e with
  | nil => cases he
  | append_singleton changes c ih =>
    have hearlier {e : String × String} (he : e ∈ after changes) :
        ∃ new, .rename e.2 new ∈ changes ++ [c] :=
      (ih he).imp fun new hnew => List.mem_append_left _ hnew
    rcases c.rename_or with ⟨old, new, rfl⟩ | hno
    · rw [after_concat_rename] at he
      rcases mem_follow.mp he with rfl | ⟨he, -⟩
      · rcases (after changes).firstName_cases old with hmem | ⟨hself, -⟩
        · exact hearlier (e := (old, _)) hmem
        · refine ⟨new, List.mem_append_right _ ?_⟩
          rw [hself]
          exact List.mem_singleton_self _
      · exact hearlier he
    · rw [after_concat hno] at he
      exact hearlier he

/-- **A name that was given up and is there again, but by no renaming, was added.** -/
theorem exists_readded (h : Accepted fields changes)
    (hthere : name ∈ Field.names (effects changes fields)) (hnone : ∀ e ∈ after changes, e.1 ≠ name)
    {new : String} (hrename : .rename name new ∈ changes) :
    ∃ field, field.name = name ∧ [.rename name new, .add field].Sublist changes := by
  induction changes using List.reverseRecOn with
  | nil => cases hrename
  | append_singleton changes c ih =>
    obtain ⟨hchanges, hc⟩ := accepted_concat_iff.mp h
    rw [effects_append] at hthere
    have hearlier (hthere : name ∈ Field.names (effects changes fields))
        (hnone : ∀ e ∈ after changes, e.1 ≠ name) (hrename : .rename name new ∈ changes) :
        ∃ field, field.name = name ∧ [.rename name new, .add field].Sublist (changes ++ [c]) :=
      (ih hchanges hthere hnone hrename).imp fun field hfield =>
        ⟨hfield.1, hfield.2.trans (List.sublist_append_left changes [c])⟩
    rcases c.rename_or with ⟨old, given, rfl⟩ | hno
    · rw [after_concat_rename] at hnone
      have hgiven : given ≠ name := hnone _ (mem_follow.mpr (.inl rfl))
      rcases (mem_names_effect hc.needs).mp hthere with htaken | ⟨hthere, hkept⟩
      · exact absurd (Option.some.inj htaken) hgiven
      have hold : name ≠ old := fun heq => hkept (congrArg some heq.symm)
      refine hearlier hthere (fun e he heq => ?_) ?_
      · exact hnone e (mem_follow.mpr (.inr ⟨he, heq.trans_ne hold, heq.trans_ne hgiven.symm⟩)) heq
      · refine (List.mem_append.mp hrename).resolve_right fun hlast => hold ?_
        exact (Change.rename.inj (List.mem_singleton.mp hlast)).1
    · rw [after_concat hno] at hnone
      have hrename' : .rename name new ∈ changes := (List.mem_append.mp hrename).resolve_right
        fun hlast => ne_rename hno name new (List.mem_singleton.mp hlast).symm
      rcases (mem_names_effect hc.needs).mp hthere with htaken | ⟨hthere, -⟩
      · obtain ⟨field, rfl, hfield⟩ := eq_add_of_takes hno htaken
        refine ⟨field, hfield, ?_⟩
        exact (List.singleton_sublist.mpr hrename').append (List.Sublist.refl _)
      · exact hearlier hthere hnone hrename'

end Origins

theorem Change.RenamedAnew.append {changes : List Change} {name : String}
    (h : RenamedAnew changes name) (more : List Change) : RenamedAnew (changes ++ more) name := by
  obtain ⟨new, field, new', hfield, hsub⟩ := h
  exact ⟨new, field, new', hfield, hsub.trans (List.sublist_append_left _ _)⟩

namespace Origins

open Change

variable {fields : List Field} {changes : List Change} {e e' : String × String}

/-- Where a renaming makes an entry that goes back to the same name as an earlier one, a field has
been renamed anew. -/
theorem renamedAnew_concat {old new : String} (h : Accepted fields changes)
    (hold : old ∈ Field.names (effects changes fields)) (he : e ∈ after changes) (hne : e.1 ≠ old)
    (heq : e.2 = (after changes).firstName old)
    (hchanges : ∀ e' ∈ after changes, e' ≠ e → e'.2 = e.2 → RenamedAnew changes e.2) :
    RenamedAnew (changes ++ [.rename old new]) e.2 := by
  rcases (after changes).firstName_cases old with hmem | ⟨hself, hnone⟩
  · have hother : (old, (after changes).firstName old) ≠ e := fun h =>
      hne (congrArg Prod.fst h).symm
    exact (hchanges _ hmem hother heq.symm).append _
  · rw [hself] at heq
    obtain ⟨x, hx⟩ := exists_rename_of_mem he
    rw [heq] at hx ⊢
    obtain ⟨field, hfield, hsub⟩ := exists_readded h hold hnone hx
    exact ⟨x, field, new, hfield, hsub.append (List.Sublist.refl _)⟩

/-- **Two entries go back to one name only if a field was renamed anew.** -/
theorem renamedAnew_of_mem (h : Accepted fields changes) (he : e ∈ after changes)
    (he' : e' ∈ after changes) (hne : e' ≠ e) (heq : e'.2 = e.2) : RenamedAnew changes e.2 := by
  induction changes using List.reverseRecOn generalizing e e' with
  | nil => cases he
  | append_singleton changes c ih =>
    obtain ⟨hchanges, hc⟩ := accepted_concat_iff.mp h
    rcases c.rename_or with ⟨old, new, rfl⟩ | hno
    · rw [after_concat_rename] at he he'
      have hold := hc.needs old rfl
      rcases mem_follow.mp he with rfl | ⟨he, hne₁, -⟩ <;>
        rcases mem_follow.mp he' with rfl | ⟨he', hne₂, -⟩
      · exact absurd rfl hne
      · rw [← heq]
        exact renamedAnew_concat hchanges hold he' hne₂ heq fun e₁ he₁ => ih hchanges he' he₁
      · exact renamedAnew_concat hchanges hold he hne₁ heq.symm fun e₁ he₁ => ih hchanges he he₁
      · exact (ih hchanges he he' hne heq).append _
    · rw [after_concat hno] at he he'
      exact (ih hchanges he he' hne heq).append _

/-- Where no field is renamed anew, no two entries go back to one name. -/
theorem nodup_of_not_renamedAnew (h : Accepted fields changes)
    (hanew : ∀ name, ¬ RenamedAnew changes name) : ((after changes).map Prod.snd).Nodup := by
  refine (List.Nodup.of_map Prod.fst (nodup_after changes)).map_on fun e he e' he' heq => ?_
  by_contra hne
  exact hanew e'.2 (renamedAnew_of_mem h he' he hne heq)

end Origins

/-! ## Replayed schemas -/

namespace Evolution

open Command

variable {policy : VersionPolicy} {cs : List Command} {s : Schema} {e e' : Evolution}

/-- **Some fields have gone through the changes to a document**: those that it has, or those that
it is declared with on the way. -/
theorem exists_accepted (hwf : e.WellFormed) (h : e.applyAll cs = (e', none)) (name : String) :
    ∃ fields, Change.Accepted fields (changesTo name cs) := by
  induction cs generalizing e with
  | nil => exact ⟨[], .nil []⟩
  | cons c rest ih =>
    cases hfields : e.fields? name with
    | some fields => exact ⟨fields, (accepted_of_applyAll hwf h hfields).1⟩
    | none =>
      obtain ⟨e₁, hc, hrest⟩ := applyAll_cons_iff.mp h
      have hacc := accepts_of_apply hc
      have hsame : changesTo name (c :: rest) = changesTo name rest := by
        by_cases hname : c.document = name
        swap
        · exact changesTo_cons_of_ne hname rest
        subst hname
        cases hacc with
        | declared _ haction _ _ => simp [changesTo, changeTo?, Command.change?, haction]
        | changed _ _ hd _ => simp [fields?, hd] at hfields
      rw [hsame]
      exact ih (hwf.accepts hacc) hrest

/-- **A document is declared or changed, but never changed in a way that it refuses**, after any
version of a replay. -/
theorem exists_accepted_of_replay (h : replay policy cs = .ok s) (name : String)
    (since : Version) :
    ∃ fields, Change.Accepted fields ((s.changesAfter name since).map Prod.snd) := by
  obtain ⟨e, he, rfl⟩ := replay_eq_ok_iff.mp h
  obtain ⟨e₀, h₀, hrest⟩ := exists_applyAll_upTo he since
  rw [History.map_snd_changesAfter (steps_of_applyAll he)]
  exact exists_accepted (wellFormed_of_applyAll h₀) hrest name

/-- **The renamings after a version can be read backwards in any order, and none is lost, exactly if
no two names go back to one.**  That is so if no field was renamed, added again under the name that
it had, and renamed anew. -/
theorem origins_inverted (h : replay policy cs = .ok s) (name : String) (since : Version) :
    let origins := s.originsSince name since
    let changes := (s.changesAfter name since).map Prod.snd
    (origins.map Prod.fst).Nodup
      ∧ ((origins.map Prod.snd).Nodup ↔ ∀ e ∈ origins, origins.currentName e.2 = e.1)
      ∧ ((origins.map Prod.snd).Nodup
          ↔ ∀ o', o'.Perm origins → Origins.currentName o' = origins.currentName)
      ∧ ((∀ original, ¬ Change.RenamedAnew changes original) → (origins.map Prod.snd).Nodup) := by
  intro origins changes
  have hnodup : (origins.map Prod.fst).Nodup := Origins.nodup_after changes
  obtain ⟨fields, haccepted⟩ := exists_accepted_of_replay h name since
  exact ⟨hnodup, Origins.nodup_iff_currentName hnodup, Origins.nodup_iff_perm hnodup,
    Origins.nodup_of_not_renamedAnew haccepted⟩

/-- Two fields change their names with each other, another one is added under the name that they
have used for it, and a third one is renamed. -/
def circling : List Change :=
  [.rename "a" "t", .rename "b" "a", .rename "t" "b", .add ⟨"t", .object, none⟩, .rename "c" "d"]

/-- The changes of `circling` to a user. -/
def circlingLog : List Command :=
  ⟨"User", 1, .declare [⟨"a", .string, none⟩, ⟨"b", .number, none⟩, ⟨"c", .boolean, none⟩]⟩
    :: circling.map fun change => ⟨"User", 2, .change change⟩

/-- The schema that `circlingLog` leads to. -/
def circlingSchema : Schema :=
  ⟨⟨2, circlingLog.map Step.ofCommand⟩,
    [⟨"User", [⟨"b", .string, none⟩, ⟨"a", .number, none⟩, ⟨"d", .boolean, none⟩,
      ⟨"t", .object, none⟩], 1⟩]⟩

theorem origins_inverted_circlingLog :
    replay .nonDecreasing circlingLog = .ok circlingSchema
      ∧ (circlingSchema.changesAfter "User" 1).map Prod.snd = circling
      ∧ (∀ original, ¬ Change.RenamedAnew circling original)
      ∧ circlingSchema.originsSince "User" 1 = [("d", "c"), ("b", "a"), ("a", "b")]
      ∧ ∀ o', o'.Perm [("d", "c"), ("b", "a"), ("a", "b")] →
          ["a", "b", "c", "t"].map (Origins.currentName o') = ["b", "a", "d", "t"] := by
  have hok : replay .nonDecreasing circlingLog = .ok circlingSchema := rfl
  have hanew : ∀ original, ¬ Change.RenamedAnew circling original := by
    rintro original ⟨new, field, new', rfl, hsub⟩
    simp [circling, List.cons_sublist_cons'] at hsub
    grind
  obtain ⟨-, -, hperm, hnodup⟩ := origins_inverted hok "User" 1
  refine ⟨hok, rfl, hanew, rfl, fun o' ho' => ?_⟩
  rw [hperm.mp (hnodup hanew) o' ho']
  rfl

/-- The field is renamed, another one is added under its first name, and that one is renamed too. -/
def doubling : List Command :=
  [⟨"User", 2, .change (.rename "name" "title")⟩,
    ⟨"User", 2, .change (.add ⟨"name", .string, some "''"⟩)⟩,
    ⟨"User", 2, .change (.rename "name" "label")⟩]

/-- Both names go back to the one that the field had.  What is reported, and whether it is breaking,
depends on the order in which the two entries are looked through. -/
theorem two_names_from_one :
    ∃ older newer old new, replay .nonDecreasing userLog = .ok older
      ∧ replay .nonDecreasing (userLog ++ doubling) = .ok newer
      ∧ older.document? "User" = some old ∧ newer.document? "User" = some new
      ∧ newer.originsSince "User" older.currentVersion = [("label", "name"), ("title", "name")]
      ∧ (let changes := FieldDiff.ofDocuments [("label", "name"), ("title", "name")] old new
        changes = [.renamed "name" "label", .redefaulted "label" none (some "''"),
            .added ⟨"title", .string, none⟩] ∧ changes.any FieldDiff.isBreaking)
      ∧ (let changes := FieldDiff.ofDocuments [("title", "name"), ("label", "name")] old new
        changes = [.renamed "name" "title", .added ⟨"label", .string, some "''"⟩]
          ∧ changes.all fun x => !x.isBreaking) :=
  ⟨_, _, _, _, rfl, rfl, rfl, rfl, rfl, ⟨rfl, rfl⟩, ⟨rfl, rfl⟩⟩

end Evolution

end SchemaLog
