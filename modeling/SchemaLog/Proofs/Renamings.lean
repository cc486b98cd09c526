import SchemaLog.Diff.Origins
import SchemaLog.Proofs.Lineage

/-!
# Proofs/Renamings — what the followed renamings say of a field

    a ──rename──▸ b ──remove──▸ ·    · ──add──▸ b      b goes back to a, but is another field

`Origins` follow the renamings among changes and nothing else.  Each entry stands for a chain of
renamings (`Origins.chain_of_mem`).  A field that is carried to a name is what the name goes back to
(`Origins.firstName_of_carryAll`), but a field that was added may stand under a name that goes back
to another one.  A field that was there keeps its entry as long as none is renamed to a name that
was removed (`Origins.given_or_kept`).
-/

namespace SchemaLog

/-! ## Entries -/

namespace Origins

variable {o : Origins} {old new name : String}

theorem mem_follow {e : String × String} :
    e ∈ o.follow old new
      ↔ e = (new, o.firstName old) ∨ (e ∈ o ∧ e.1 ≠ old ∧ e.1 ≠ new) := by
  rw [follow, List.mem_cons, forget, forget, List.mem_filter, List.mem_filter, bne_iff_ne,
    bne_iff_ne, and_assoc]

/-- A name goes back to what its entry says; without an entry it goes back to itself. -/
theorem firstName_cases (o : Origins) (name : String) :
    (name, o.firstName name) ∈ o ∨ (o.firstName name = name ∧ ∀ e ∈ o, e.1 ≠ name) := by
  rw [firstName]
  cases hlookup : o.lookup name with
  | none =>
    refine .inr ⟨rfl, fun e he heq => ?_⟩
    have hne := List.lookup_eq_none_iff.mp hlookup e he
    exact bne_iff_ne.mp hne heq.symm
  | some a =>
    obtain ⟨front, back, rfl, -⟩ := List.lookup_eq_some_iff.mp hlookup
    exact .inl (List.mem_append_right _ List.mem_cons_self)

/-- A field has the name that an entry gives it; without an entry it keeps its own. -/
theorem currentName_cases (o : Origins) (name : String) :
    (o.currentName name, name) ∈ o ∨ (o.currentName name = name ∧ ∀ e ∈ o, e.2 ≠ name) := by
  rw [currentName]
  cases hfind : o.find? fun e => e.2 == name with
  | none =>
    refine .inr ⟨rfl, fun e he heq => ?_⟩
    exact List.find?_eq_none.mp hfind e he (beq_iff_eq.mpr heq)
  | some e =>
    have hname : e.2 = name := beq_iff_eq.mp
      (List.find?_some (p := fun e : String × String => e.2 == name) hfind)
    exact .inl (hname ▸ List.mem_of_find?_eq_some hfind)

/-- A field that has another name has an entry. -/
theorem mem_of_currentName (h : o.currentName old = new) (hne : old ≠ new) : (new, old) ∈ o := by
  rcases o.currentName_cases old with hmem | ⟨hself, -⟩
  · rwa [h] at hmem
  · exact absurd (hself.symm.trans h) hne

/-- Where each name has one entry, the entry tells what the name goes back to. -/
theorem firstName_of_mem (hnodup : (o.map Prod.fst).Nodup) {e : String × String} (he : e ∈ o) :
    o.firstName e.1 = e.2 := by
  rcases o.firstName_cases e.1 with hmem | ⟨-, hnone⟩
  · exact congrArg Prod.snd (List.inj_on_of_nodup_map hnodup hmem he rfl)
  · exact absurd rfl (hnone e he)

/-- Another name goes back to what it did. -/
theorem firstName_follow_of_ne (hnodup : (o.map Prod.fst).Nodup) (hold : name ≠ old)
    (hnew : name ≠ new) : (o.follow old new).firstName name = o.firstName name := by
  rcases (o.follow old new).firstName_cases name with hmem | ⟨hself, hnone⟩
  · rcases mem_follow.mp hmem with heq | ⟨hmem, -⟩
    · exact absurd (congrArg Prod.fst heq) hnew
    · exact (firstName_of_mem hnodup hmem).symm
  · rcases o.firstName_cases name with hmem | ⟨hself', -⟩
    · exact absurd rfl (hnone _ (mem_follow.mpr (.inr ⟨hmem, hold, hnew⟩)))
    · exact hself.trans hself'.symm

/-- A name that has no entry goes back to itself, and so does what it is renamed to. -/
theorem mem_follow_self (h : ∀ e ∈ o, e.1 ≠ old) : (new, old) ∈ o.follow old new := by
  rcases o.firstName_cases old with hmem | ⟨hself, -⟩
  · exact absurd rfl (h _ hmem)
  · exact mem_follow.mpr (.inl (by rw [hself]))

/-- A field keeps having an entry, if none is given a name that an entry gives already. -/
theorem exists_mem_follow (hnodup : (o.map Prod.fst).Nodup) (hnew : ∀ e ∈ o, e.1 ≠ new)
    (h : ∃ e ∈ o, e.2 = name) : ∃ e ∈ o.follow old new, e.2 = name := by
  obtain ⟨e, he, rfl⟩ := h
  by_cases hold : e.1 = old
  · refine ⟨_, mem_follow.mpr (.inl rfl), ?_⟩
    rw [← hold]
    exact firstName_of_mem hnodup he
  · exact ⟨e, mem_follow.mpr (.inr ⟨he, hold, hnew e he⟩), rfl⟩

theorem followAll_append :
    ∀ (o : Origins) (changes more : List Change),
      o.followAll (changes ++ more) = (o.followAll changes).followAll more
  | _, [], _ => rfl
  | o, .rename old new :: rest, more => followAll_append (o.follow old new) rest more
  | o, .add _ :: rest, more => followAll_append o rest more
  | o, .remove _ :: rest, more => followAll_append o rest more
  | o, .retype _ _ _ :: rest, more => followAll_append o rest more

end Origins

/-! ## Chains of renamings -/

/-- Among changes there is a chain of renamings from one name to another, each of which takes up the
name that the one before it has given. -/
inductive RenameChain : List Change → String → String → Prop
  | nil (name : String) : RenameChain [] name name
  | skip (c : Change) {rest : List Change} {a b : String} (h : RenameChain rest a b) :
      RenameChain (c :: rest) a b
  | link {old new b : String} {rest : List Change} (h : RenameChain rest new b) :
      RenameChain (.rename old new :: rest) old b

namespace RenameChain

variable {changes more : List Change} {a b c : String}

theorem refl (changes : List Change) (name : String) : RenameChain changes name name := by
  induction changes with
  | nil => exact .nil name
  | cons c rest ih => exact .skip c ih

theorem append (h : RenameChain changes a b) (hmore : RenameChain more b c) :
    RenameChain (changes ++ more) a c := by
  induction h with
  | nil name => exact hmore
  | skip d _ ih => exact .skip d (ih hmore)
  | link _ ih => exact .link (ih hmore)

end RenameChain

/-- **Every entry stands for a chain of renamings.** -/
theorem Origins.chain_of_mem {changes : List Change} {e : String × String}
    (he : e ∈ followAll [] changes) : RenameChain changes e.2 e.1 := by
  induction changes using List.reverseRecOn generalizing e with
  | nil => cases he
  | append_singleton changes c ih =>
    have hkeep : e ∈ followAll [] changes → RenameChain (changes ++ [c]) e.2 e.1 := fun he =>
      (ih he).append (.refl _ _)
    rw [followAll_append] at he
    cases c with
    | rename old new =>
      rcases mem_follow.mp he with rfl | ⟨he, -⟩
      · refine RenameChain.append ?_ (.link (.nil new))
        rcases (followAll [] changes).firstName_cases old with hmem | ⟨hself, -⟩
        · exact ih hmem
        · rw [hself]
          exact .refl changes old
      · exact hkeep he
    | add f => exact hkeep he
    | remove gone => exact hkeep he
    | retype retyped type conversion => exact hkeep he

/-! ## Two kinds of change

A change renames a field, or it leaves the origins as they are. -/

namespace Change

variable {c : Change} {changes : List Change} {name : String}

/-- The name that a change renames a field to. -/
def renamedTo? : Change → Option String
  | rename _ new => some new
  | add _ | remove _ | retype _ _ _ => none

theorem rename_or (c : Change) : (∃ old new, c = .rename old new) ∨ c.renamedTo? = none := by
  cases c with
  | rename old new => exact .inl ⟨old, new, rfl⟩
  | add field => exact .inr rfl
  | remove gone => exact .inr rfl
  | retype retyped type conversion => exact .inr rfl

/-- Without a renaming, a field that goes on keeps its name. -/
theorem eq_of_carry (hc : c.renamedTo? = none) {n : String} (h : c.carry name = some n) :
    n = name := by
  cases c with
  | rename old new => cases hc
  | add field => exact (Option.some.inj h).symm
  | retype retyped type conversion => exact (Option.some.inj h).symm
  | remove gone =>
    rw [carry] at h
    split at h
    · cases h
    · exact (Option.some.inj h).symm

/-- Without a renaming, a name is given up only by a removal. -/
theorem eq_remove_of_frees (hc : c.renamedTo? = none) (h : name ∈ c.frees?) : c = .remove name := by
  cases c with
  | rename old new => cases hc
  | add field => cases h
  | retype retyped type conversion => cases h
  | remove gone => exact congrArg remove (Option.some.inj h)

/-- A name stays that of a field or of one that was removed, unless the field is renamed. -/
theorem Fits.there_or_removed {fields : List Field} (hc : c.Fits fields)
    (hrename : ∀ new, c ≠ .rename name new)
    (h : name ∈ Field.names fields ∨ .remove name ∈ changes) :
    name ∈ Field.names (c.effect fields) ∨ .remove name ∈ changes ++ [c] := by
  rcases h with hthere | hgone
  swap
  · exact .inr (List.mem_append_left _ hgone)
  by_cases hfree : name ∈ c.frees?
  · rcases c.rename_or with ⟨old, new, rfl⟩ | hno
    · obtain rfl := Option.some.inj hfree
      exact absurd rfl (hrename new)
    · rw [eq_remove_of_frees hno hfree]
      exact .inr (List.mem_append_right _ (List.mem_singleton_self _))
  · exact .inl ((mem_names_effect hc.needs).mpr (.inr ⟨hthere, hfree⟩))

/-- Without a renaming, no field of any name is renamed. -/
theorem ne_rename (hc : c.renamedTo? = none) (old new : String) : c ≠ .rename old new := by
  rintro rfl
  cases hc

end Change

namespace Origins

open Change

variable {fields : List Field} {changes : List Change} {c : Change} {a b name : String}

/-- The origins after changes. -/
abbrev after (changes : List Change) : Origins := followAll [] changes

theorem nodup_after (changes : List Change) : ((after changes).map Prod.fst).Nodup :=
  nodup_followAll changes List.nodup_nil

theorem after_concat_rename (old new : String) :
    after (changes ++ [.rename old new]) = (after changes).follow old new :=
  followAll_append _ _ _

theorem after_concat (hc : c.renamedTo? = none) : after (changes ++ [c]) = after changes := by
  rw [after, followAll_append]
  cases c with
  | rename old new => cases hc
  | add field => rfl
  | remove gone => rfl
  | retype retyped type conversion => rfl

/-! ## A field that is carried -/

/-- **A field that is carried to a name is the one that the name goes back to.** -/
theorem firstName_of_carryAll (h : Accepted fields changes) (ha : a ∈ Field.names fields)
    (hcarry : carryAll changes a = some name) : (after changes).firstName name = a := by
  induction changes using List.reverseRecOn generalizing name with
  | nil => exact (Option.some.inj hcarry).symm
  | append_singleton changes c ih =>
    obtain ⟨hchanges, hc⟩ := accepted_concat_iff.mp h
    rw [carryAll_concat] at hcarry
    obtain ⟨m, hm, hcarry⟩ := Option.bind_eq_some_iff.mp hcarry
    rcases c.rename_or with ⟨old, new, rfl⟩ | hrename
    · rw [after_concat_rename]
      obtain rfl := Option.some.inj hcarry
      by_cases hold : m = old
      · rw [if_pos hold, firstName_follow_new, ← hold]
        exact ih hchanges hm
      · -- The new name is free, and so it is not the name of this field.
        have hnew : m ≠ new := by
          rintro rfl
          exact hc.free m rfl (hchanges.mem_names_carryAll ha hm)
        rw [if_neg hold, firstName_follow_of_ne (nodup_after changes) hold hnew]
        exact ih hchanges hm
    · rw [after_concat hrename, eq_of_carry hrename hcarry]
      exact ih hchanges hm

/-- **No two fields are carried to one name.** -/
theorem eq_of_carryAll (h : Accepted fields changes) (ha : a ∈ Field.names fields)
    (hb : b ∈ Field.names fields) (hcarry : carryAll changes a = some name)
    (hcarry' : carryAll changes b = some name) : a = b :=
  (firstName_of_carryAll h ha hcarry).symm.trans (firstName_of_carryAll h hb hcarry')

/-- What is carried to a name is not one of the fields that were added. -/
theorem not_addedAs (h : Accepted fields changes) (ha : a ∈ Field.names fields)
    (hcarry : carryAll changes a = some name) : ¬ AddedAs changes name := by
  rintro ⟨before, field, rest, rfl, hadded⟩
  obtain ⟨hbefore, hrest⟩ := accepted_append_iff.mp h
  cases hrest with
  | cons fits hrest =>
    rw [carryAll_append] at hcarry
    obtain ⟨m, hm, hcarry⟩ := Option.bind_eq_some_iff.mp hcarry
    have hthere := hbefore.mem_names_carryAll ha hm
    have hm' := fits.mem_names_carry hthere rfl
    have hfield := (mem_names_effect fits.needs).mpr (.inl (rfl : field.name ∈ (add field).takes?))
    obtain rfl := eq_of_carryAll hrest hm' hfield hcarry hadded
    exact fits.free field.name rfl hthere

/-- **What goes back to a field was carried there, unless it was added.** -/
theorem carryAll_iff_not_addedAs (h : Accepted fields changes)
    (hname : name ∈ Field.names (effects changes fields)) {a : String} (ha : a ∈ Field.names fields)
    (hfirst : (after changes).firstName name = a) :
    carryAll changes a = some name ↔ ¬ AddedAs changes name := by
  refine ⟨not_addedAs h ha, fun hnot => ?_⟩
  rcases h.carried_or_added hname with ⟨b, hb, hcarry⟩ | hadded
  · obtain rfl := hfirst.symm.trans (firstName_of_carryAll h hb hcarry)
    exact hcarry
  · exact absurd hadded hnot

/-! ## A name that is taken over -/

/-- One field has got a name that another one seems to have kept. -/
def TakesOver (o : Origins) (a b : String) : Prop :=
  a ≠ b ∧ o.currentName a = b ∧ o.currentName b = b

/-- **Where two fields have one name, one of them has taken over that of the other.** -/
theorem takesOver_of_currentName_eq {o : Origins} (hnodup : (o.map Prod.fst).Nodup) (hne : a ≠ b)
    (h : o.currentName a = o.currentName b) : o.TakesOver a b ∨ o.TakesOver b a := by
  rcases o.currentName_cases a with hmem | ⟨hself, -⟩
  · rcases o.currentName_cases b with hmem' | ⟨hself', -⟩
    · exact absurd (congrArg Prod.snd (List.inj_on_of_nodup_map hnodup hmem hmem' h)) hne
    · exact .inl ⟨hne, h.trans hself', hself'⟩
  · exact .inr ⟨hne.symm, h.symm.trans hself, hself⟩

/-- A name that an entry gives is the name of a field, unless a field of that name was removed. -/
theorem mem_names_or_remove_mem (h : Accepted fields changes) {e : String × String}
    (he : e ∈ after changes) :
    e.1 ∈ Field.names (effects changes fields) ∨ .remove e.1 ∈ changes := by
  induction changes using List.reverseRecOn with
  | nil => cases he
  | append_singleton changes c ih =>
    obtain ⟨hchanges, hc⟩ := accepted_concat_iff.mp h
    rw [effects_append]
    rcases c.rename_or with ⟨old, new, rfl⟩ | hrename
    · rw [after_concat_rename, mem_follow] at he
      rcases he with rfl | ⟨he, hold, -⟩
      · exact .inl ((mem_names_effect hc.needs).mpr (.inl rfl))
      · refine hc.there_or_removed (fun n heq => ?_) (ih hchanges he)
        exact hold (Change.rename.inj heq).1.symm
    · rw [after_concat hrename] at he
      exact hc.there_or_removed (ne_rename hrename e.1) (ih hchanges he)

end Origins

/-- No field is renamed to a name that was removed before. -/
def Change.RenamesApart (changes : List Change) : Prop :=
  changes.Pairwise fun b c => ∀ n ∈ c.renamedTo?, b ≠ .remove n

instance (changes : List Change) : Decidable (Change.RenamesApart changes) :=
  inferInstanceAs (Decidable (changes.Pairwise fun b c => ∀ n ∈ c.renamedTo?, b ≠ .remove n))

namespace Origins

open Change

variable {fields : List Field} {changes : List Change} {a b : String}

/-- **A field that was there has an entry, or no other field has got its name**, if none is renamed
to a name that was removed. -/
theorem given_or_kept (h : Accepted fields changes) (hapart : RenamesApart changes)
    (ha : a ∈ Field.names fields) :
    (∃ e ∈ after changes, e.2 = a)
      ∨ (∀ e ∈ after changes, e.1 ≠ a)
        ∧ (a ∈ Field.names (effects changes fields) ∨ .remove a ∈ changes) := by
  induction changes using List.reverseRecOn with
  | nil => exact .inr ⟨fun e he => (by cases he), .inl ha⟩
  | append_singleton changes c ih =>
    obtain ⟨hchanges, hc⟩ := accepted_concat_iff.mp h
    obtain ⟨hbefore, -, hlast⟩ := List.pairwise_append.mp hapart
    rw [effects_append]
    rcases c.rename_or with ⟨old, new, rfl⟩ | hrename
    · rw [after_concat_rename]
      -- The new name is that of no field and of none that was removed.
      have hnew : ¬ (new ∈ Field.names (effects changes fields) ∨ .remove new ∈ changes) := by
        rintro (hthere | hgone)
        · exact hc.free new rfl hthere
        · exact hlast _ hgone _ (List.mem_singleton_self _) new rfl rfl
      rcases ih hchanges hbefore with hgiven | ⟨hkept, hthere⟩
      · refine .inl (exists_mem_follow (nodup_after changes) (fun e he heq => ?_) hgiven)
        exact hnew (heq ▸ mem_names_or_remove_mem hchanges he)
      by_cases hold : a = old
      · subst hold
        exact .inl ⟨_, mem_follow_self hkept, rfl⟩
      · have hne : new ≠ a := fun heq => hnew (heq ▸ hthere)
        refine .inr ⟨fun e he => ?_, hc.there_or_removed (fun n heq => ?_) hthere⟩
        · rcases mem_follow.mp he with rfl | ⟨he, -⟩
          · exact hne
          · exact hkept e he
        · exact hold (Change.rename.inj heq).1.symm
    · rw [after_concat hrename]
      exact (ih hchanges hbefore).imp_right fun ⟨hkept, hthere⟩ =>
        ⟨hkept, hc.there_or_removed (ne_rename hrename a) hthere⟩

/-- **No name is taken over** if no field is renamed to a name that was removed. -/
theorem not_takesOver (h : Accepted fields changes) (hapart : RenamesApart changes)
    (hb : b ∈ Field.names fields) : ¬ (after changes).TakesOver a b := by
  rintro ⟨hne, ha, hself⟩
  have hentry := mem_of_currentName ha hne
  rcases given_or_kept h hapart hb with ⟨e, he, heq⟩ | ⟨hkept, -⟩
  · rcases (after changes).currentName_cases b with hmem | ⟨-, hnone⟩
    · rw [hself] at hmem
      exact hne (congrArg Prod.snd (List.inj_on_of_nodup_map (nodup_after changes) hentry hmem rfl))
    · exact hnone e he heq
  · exact hkept _ hentry rfl

end Origins

end SchemaLog
