import SchemaLog.Proofs.Faults
import SchemaLog.Proofs.Validity

/-!
# Proofs/Policies — where the two policies agree

    1  2  2  5       accepted under both or under none, each command in effect at its own stamp
    1  3 │ 2  4      the same up to the first stamp that goes down

A replay reads its policy in one place, where a stamp is below the current version.  At every other
command an evolution under another policy does the same and stays one under that policy
(`apply_under`), so over stamps in order the two replays go side by side (`applyAll_under`).
-/

namespace SchemaLog

/-! ## Stamps in order -/

namespace Command

variable {cs : List Command} {c : Command}

/-- No stamp is below an earlier one. -/
def InOrder (cs : List Command) : Prop :=
  cs.Pairwise fun b c => b.version ≤ c.version

instance (cs : List Command) : Decidable (InOrder cs) :=
  inferInstanceAs (Decidable (cs.Pairwise fun b c => b.version ≤ c.version))

/-- The changes that commands make to a document above a version, each with the stamp of its
command. -/
def stampedChanges (document : String) (version : Version) (cs : List Command) :
    List (Version × Change) :=
  (cs.filter fun c => version < c.version).filterMap fun c =>
    (c.changeTo? document).map fun change => (c.version, change)

theorem inOrder_concat_iff : InOrder (cs ++ [c]) ↔ InOrder cs ∧ highest cs ≤ c.version := by
  simp only [InOrder, List.pairwise_append, List.pairwise_singleton, List.mem_singleton,
    forall_eq, true_and, highest_le_iff]

/-- **In order, every command takes effect at its own stamp.** -/
theorem withEffect_of_inOrder (h : InOrder cs) :
    withEffect cs = cs.map fun c => (c.version, c) := by
  induction cs using List.reverseRecOn with
  | nil => rfl
  | append_singleton cs c ih =>
    obtain ⟨hcs, hc⟩ := inOrder_concat_iff.mp h
    have hown : highest (cs ++ [c]) = c.version := by
      rw [highest_concat, Version.max_eq_ite, if_pos hc]
    rw [withEffect_concat, ih hcs, hown, List.map_append, List.map_singleton]

end Command

namespace History

variable {h : History} {cs : List Command}

theorem effective_of_inOrder (hsteps : h.steps = cs.map Step.ofCommand)
    (horder : Command.InOrder cs) :
    h.effective = cs.map fun c => (c.version, Step.ofCommand c) := by
  rw [effective, hsteps, Command.effectiveFrom_map_ofCommand,
    Command.withEffect_of_inOrder horder, List.map_map]
  rfl

/-- **In order, a change comes after a version if its stamp does.** -/
theorem changesAfter_of_inOrder (hsteps : h.steps = cs.map Step.ofCommand)
    (horder : Command.InOrder cs) (document : String) (version : Version) :
    h.changesAfter document version = Command.stampedChanges document version cs := by
  rw [changesAfter, effectiveOf, effective_of_inOrder hsteps horder, List.filterMap_filter,
    List.filterMap_map, Command.stampedChanges, List.filterMap_filter]
  refine List.filterMap_congr fun c _ => ?_
  by_cases hd : c.document = document <;> by_cases hv : version < c.version
    <;> simp [Command.changeTo?, Step.ofCommand, hd, hv, UInt32.not_lt.mp, UInt32.not_le.mpr]

end History

/-! ## Under another policy -/

namespace Evolution

open Command

variable {e e' : Evolution} {c : Command} {cs : List Command} {r : Refusal}
  {policy : VersionPolicy}

/-- The evolution as it stands, under a policy for all that comes. -/
def under (e : Evolution) (policy : VersionPolicy) : Evolution := { e with policy := policy }

/-- The outcome of a step or of a run, with the evolution under another policy. -/
def underPolicy {α : Type} (policy : VersionPolicy) (result : Evolution × α) : Evolution × α :=
  (result.1.under policy, result.2)

/-- A stamp that is 0, or not below the current version, is judged alike. -/
theorem stampFault?_under {version : Version} (h : version = 0 ∨ e.currentVersion ≤ version) :
    (e.under policy).stampFault? version = e.stampFault? version := by
  rcases h with rfl | hle
  · rfl
  · have hlow : ¬ version < e.currentVersion := UInt32.not_lt.mpr hle
    have hlow' : ¬ version < (e.under policy).currentVersion := hlow
    rw [stampFault?, stampFault?, if_neg hlow, if_neg hlow']
    rfl

theorem declare_under (name : String) (fields : List Field) (version : Version) :
    (e.under policy).declare name fields version
      = underPolicy policy (e.declare name fields version) := by
  have hcatalog : (e.under policy).catalog = e.catalog := rfl
  rw [declare, declare, hcatalog]
  split
  · rfl
  · cases Document.declare name fields version <;> rfl

theorem change_under (name : String) (change : Change) :
    (e.under policy).change name change = underPolicy policy (e.change name change) := by
  have hdocument : (e.under policy).document? name = e.document? name := rfl
  rw [Evolution.change, Evolution.change, hdocument]
  cases e.document? name <;> rfl

/-- **A command whose stamp is judged alike does the same under both policies.** -/
theorem apply_under (h : c.version = 0 ∨ e.currentVersion ≤ c.version) :
    (e.under policy).apply c = underPolicy policy (e.apply c) := by
  have htransition : (e.under policy).transition c = underPolicy policy (e.transition c) := by
    rw [transition, transition, stampFault?_under h]
    cases e.stampFault? c.version with
    | some reason => rfl
    | none =>
      cases c.action with
      | declare fields => exact declare_under c.document fields c.version
      | change change => exact change_under c.document change
  rw [apply, apply, htransition]
  rcases e.transition c with ⟨e₁, _ | reason⟩ <;> rfl

/-- **Over stamps in order the policy plays no part**, whether or not a command is refused. -/
theorem applyAll_under (horder : InOrder cs) (habove : ∀ c ∈ cs, e.currentVersion ≤ c.version) :
    (e.under policy).applyAll cs = underPolicy policy (e.applyAll cs) := by
  induction cs generalizing e with
  | nil => rfl
  | cons c rest ih =>
    obtain ⟨hc, hrest⟩ := List.pairwise_cons.mp horder
    have hle : e.currentVersion ≤ c.version := habove c List.mem_cons_self
    rw [applyAll, applyAll, apply_under (.inr hle)]
    rcases hres : e.apply c with ⟨e₁, _ | r⟩
    · refine ih hrest fun b hb => ?_
      rw [(accepts_of_apply hres).currentVersion_eq, Version.max_eq_ite, if_pos hle]
      exact hc b hb
    · rfl

theorem applyAll_start_under (horder : InOrder cs) (policy policy' : VersionPolicy) :
    (start policy').applyAll cs = underPolicy policy' ((start policy).applyAll cs) :=
  applyAll_under (e := start policy) horder fun _ _ => UInt32.zero_le

/-- **What is accepted under the stricter policy is in order.** -/
theorem inOrder_of_applyAll (h : (start .nonDecreasing).applyAll cs = (e, none)) : InOrder cs := by
  induction cs using List.reverseRecOn generalizing e with
  | nil => exact List.Pairwise.nil
  | append_singleton cs c ih =>
    obtain ⟨e₀, he₀, hc⟩ := applyAll_concat_iff.mp h
    obtain ⟨hpolicy, hlog, hwf, -⟩ := knows_of_applyAll he₀
    have hstamp := (stampFault?_eq_none_iff.mp (accepts_of_apply hc).stampFault?_eq).2 hpolicy
    rw [hwf.currentVersion_eq, hlog] at hstamp
    exact inOrder_concat_iff.mpr ⟨ih he₀, hstamp⟩

/-- A command that is refused for anything but a stamp that goes down has a stamp that is judged
alike. -/
theorem eq_zero_or_le_of_apply (hpolicy : e.policy = .nonDecreasing) (h : e.apply c = (e', some r))
    (hreason : ∀ version current, r.reason = .lowVersion version current → version = 0) :
    c.version = 0 ∨ e.currentVersion ≤ c.version := by
  by_contra hboth
  obtain ⟨hzero, hlow⟩ := not_or.mp hboth
  have hstamp : e.stampFault? c.version = some (.lowVersion c.version e.currentVersion) := by
    rw [stampFault?, if_neg hzero, if_pos (UInt32.not_le.mp hlow), hpolicy]
  obtain ⟨-, htransition, -⟩ := apply_refused h
  rw [transition, hstamp] at htransition
  exact hzero (hreason _ _ (Option.some.inj htransition).symm)

/-- **The same refusal under the policy that asks less**, unless it is for a stamp that goes
down. -/
theorem applyAll_lenient_of_refused (h : (start .nonDecreasing).applyAll cs = (e, some r))
    (hreason : ∀ version current, r.reason = .lowVersion version current → version = 0) :
    (start .lenient).applyAll cs = (e.under .lenient, some r) := by
  obtain ⟨before, c, after, rfl, hbefore, hc⟩ := applyAll_refused h
  have hlenient := applyAll_start_under (inOrder_of_applyAll hbefore) .nonDecreasing .lenient
  have hjudged := eq_zero_or_le_of_apply (knows_of_applyAll hbefore).1 hc hreason
  have hc' : (e.under .lenient).apply c = underPolicy .lenient (e.apply c) := apply_under hjudged
  rw [hbefore] at hlenient
  rw [hc] at hc'
  exact applyAll_of_refused hlenient hc' after

/-! ## The two replays -/

/-- **A list in order is replayed alike**, to the same schema or to the same refusal. -/
theorem replay_of_inOrder (horder : InOrder cs) (policy policy' : VersionPolicy) :
    replay policy' cs = replay policy cs := by
  rw [replay, replay, applyAll_start_under horder policy policy']
  rcases (start policy).applyAll cs with ⟨e, _ | r⟩ <;> rfl

/-- A document that is declared in order is declared at its own version. -/
theorem declaredAt?_of_inOrder {s : Schema} (h : replay policy cs = .ok s) (horder : InOrder cs)
    {name : String} {d : Document} (hd : s.document? name = some d) :
    s.declaredAt? name = some d.version := by
  obtain ⟨declared, hdeclared, -, -⟩ := exists_declaredAt?_of_replay h hd
  obtain ⟨e, he, rfl⟩ := replay_eq_ok_iff.mp h
  have hwf := wellFormed_of_applyAll he
  have hlog : e.commands = cs := commands_of_applyAll he
  rw [hwf.document?_resolve] at hd
  obtain ⟨step, -, heffective, hdecl, rfl⟩ := History.exists_step_of_declaredAt? hdeclared
  rw [History.effective_of_inOrder (steps_of_applyAll he) horder] at heffective
  obtain ⟨c, hc, heq⟩ := List.mem_map.mp heffective
  obtain ⟨rfl, rfl⟩ := Prod.mk.inj heq
  rw [hdeclared, ← hwf.version_of_declares (hlog ▸ hc) hdecl hd]
  rfl

/-- **The two policies agree where both apply.**  What the stricter one accepts is what the other
accepts in order, and leads to the same schema; then every version that is read of the history is
the stamp of a command.  What the stricter one refuses, the other refuses alike, unless it is for a
stamp that goes down. -/
theorem policies_agree (cs : List Command) :
    (∀ s, replay .nonDecreasing cs = .ok s ↔ replay .lenient cs = .ok s ∧ InOrder cs)
      ∧ (∀ s, replay .nonDecreasing cs = .ok s →
          s.effective = s.steps.map (fun step => (step.version, step))
            ∧ (∀ name d, s.document? name = some d → s.declaredAt? name = some d.version)
            ∧ ∀ name version plan, s.plan name version = .ok plan →
              Stage.ungroup plan.stages = stampedChanges name version cs)
      ∧ ∀ r, replay .nonDecreasing cs = .error r →
          (∀ version current, r.reason = .lowVersion version current → version = 0) →
          replay .lenient cs = .error r := by
  have hinOrder : ∀ {s}, replay .nonDecreasing cs = .ok s → InOrder cs := by
    intro s h
    obtain ⟨e, he, -⟩ := replay_eq_ok_iff.mp h
    exact inOrder_of_applyAll he
  refine ⟨fun s => ⟨fun h => ?_, ?_⟩, fun s h => ⟨?_, fun name d => ?_, ?_⟩, fun r h hreason => ?_⟩
  · exact ⟨(replay_of_inOrder (hinOrder h) .nonDecreasing .lenient).trans h, hinOrder h⟩
  · rintro ⟨h, horder⟩
    exact (replay_of_inOrder horder .lenient .nonDecreasing).trans h
  · obtain ⟨e, he, rfl⟩ := replay_eq_ok_iff.mp h
    have hsteps := steps_of_applyAll he
    rw [History.effective_of_inOrder hsteps (hinOrder h), hsteps, List.map_map]
    rfl
  · exact declaredAt?_of_inOrder h (hinOrder h)
  · intro name version plan hplan
    obtain ⟨e, he, rfl⟩ := replay_eq_ok_iff.mp h
    rw [History.eq_of_plan hplan, Stage.ungroup_group,
      History.changesAfter_of_inOrder (steps_of_applyAll he) (hinOrder h)]
  · obtain ⟨e, he⟩ := replay_eq_error_iff.mp h
    exact replay_eq_error_iff.mpr ⟨_, applyAll_lenient_of_refused he hreason⟩

/-- Two documents under stamps in order, one of which is used twice. -/
def orderedLog : List Command :=
  [⟨"user", 1, .declare [⟨"age", .number, some "0"⟩]⟩,
    ⟨"order", 2, .declare [⟨"total", .string, none⟩]⟩,
    ⟨"user", 2, .change (.rename "age" "years")⟩,
    ⟨"order", 4, .change (.retype "total" .number "Number(total)")⟩,
    ⟨"user", 4, .change (.add ⟨"age", .boolean, none⟩)⟩]

/-- A stamp that is 0, where others have come before it. -/
def unstamped : Command := ⟨"user", 0, .change (.remove "age")⟩

/-- `unevenLog` is accepted under one policy only, as its stamps go down. -/
theorem policies_agree_orderedLog :
    (∃ s, replay .nonDecreasing orderedLog = .ok s
        ∧ replay .lenient orderedLog = .ok s ∧ InOrder orderedLog
        ∧ s.declaredAt? "order" = some 2
        ∧ ∃ plan, s.plan "user" 1 = .ok plan
          ∧ Stage.ungroup plan.stages
            = [(2, .rename "age" "years"), (4, .add ⟨"age", .boolean, none⟩)])
      ∧ (¬ ∃ s, replay .nonDecreasing unevenLog = .ok s)
      ∧ replay .nonDecreasing (orderedLog ++ [unstamped])
        = .error ⟨5, .removeField, "user", some "age", .lowVersion 0 4⟩
      ∧ replay .lenient (orderedLog ++ [unstamped])
        = .error ⟨5, .removeField, "user", some "age", .lowVersion 0 4⟩ := by
  have hok : replay .nonDecreasing orderedLog = .ok _ := rfl
  obtain ⟨hiff, hread, -⟩ := policies_agree orderedLog
  obtain ⟨hlenient, horder⟩ := (hiff _).mp hok
  obtain ⟨-, hdeclared, hplans⟩ := hread _ hok
  refine ⟨⟨_, hok, hlenient, horder, hdeclared "order" _ rfl, _, rfl, hplans "user" 1 _ rfl⟩,
    fun ⟨s, hs⟩ => ?_, rfl, ?_⟩
  · exact absurd (((policies_agree unevenLog).1 s).mp hs).2 (by decide)
  · refine (policies_agree (orderedLog ++ [unstamped])).2.2 _ rfl ?_
    rintro version current heq
    exact (Rejection.lowVersion.inj heq).1.symm

end Evolution

end SchemaLog
