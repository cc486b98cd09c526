import SchemaLog.Proofs.Stages

/-!
# Proofs/Schedule — what a plan lists, for any log

    document    u  o  u  u  o  u  u
    stamp       1  3  2  3  5  1  4
    highest     1  3  3  3  5  5  5        stamp up to there, of any document
    plan for u        └3─┘     └5─┘        from 1

A plan lists the changes to its document, in the order of the log, under the highest stamps.  That
highest stamps never go down is all that is needed for changes of one stamp to share one stage, so
nothing is asked of the stamps themselves: the steps need not come from a replay
(`History.schedule_of_plan`).
-/

namespace SchemaLog

/-! ## The highest stamp so far -/

namespace Step

/-- The highest stamp among steps; it is 0 if there are none. -/
def highest (steps : List Step) : Version :=
  (steps.map Step.version).max?.getD 0

/-- Every step with the highest stamp up to and including its own. -/
def withHighest (steps : List Step) : List (Version × Step) :=
  steps.mapIdx fun i s => (highest (steps.take (i + 1)), s)

/-- The changes that steps make to a document under a highest stamp above the given version, in the
order of the steps. -/
def listing (document : String) (stored : Version) (steps : List Step) : List (Version × Change) :=
  (withHighest steps).filterMap fun e =>
    if e.2.command.document = document ∧ stored < e.1 then e.2.command.change?.map fun c => (e.1, c)
    else none

theorem foldl_max_version (steps : List Step) :
    (steps.map Step.version).foldl max 0 = highest steps := by
  rw [List.foldl_max, Version.max_eq_ite, if_pos UInt32.zero_le]
  rfl

theorem effectiveFrom_eq_mapIdx (steps : List Step) (reached : Version) :
    effectiveFrom reached steps
      = steps.mapIdx fun i s => (((steps.take (i + 1)).map Step.version).foldl max reached, s) := by
  induction steps generalizing reached with
  | nil => rfl
  | cons s rest ih =>
    rw [effectiveFrom, ih, List.mapIdx_cons]
    rfl

end Step

/-- **A step takes effect at the highest stamp up to and including its own.** -/
theorem History.effective_eq_withHighest (h : History) :
    h.effective = Step.withHighest h.steps := by
  simp only [effective, Step.effectiveFrom_eq_mapIdx, Step.foldl_max_version, Step.withHighest]

/-- **The changes after a version** are those under a highest stamp above it. -/
theorem History.changesAfter_eq_listing (h : History) (document : String) (stored : Version) :
    h.changesAfter document stored = Step.listing document stored h.steps := by
  rw [changesAfter, effectiveOf, Step.listing, effective_eq_withHighest, List.filterMap_filter]
  refine List.filterMap_congr fun e _ => ?_
  by_cases hname : e.2.command.document = document <;> by_cases hle : e.1 ≤ stored
    <;> simp [hname, hle, UInt32.not_lt.mpr, UInt32.not_le.mp]

/-! ## Stages -/

/-- A stage holds at least one change. -/
theorem Stage.ne_nil_of_mem_group :
    ∀ {changes : List (Version × Change)} {s : Stage}, s ∈ group changes → s.changes ≠ []
  | [], _, hs => absurd hs List.not_mem_nil
  | (v, c) :: rest, s, hs => by
    have hrest : ∀ t ∈ group rest, t.changes ≠ [] := fun t => ne_nil_of_mem_group
    rw [group] at hs
    split at hs
    · rw [List.mem_singleton.mp hs]
      exact List.cons_ne_nil c []
    · next t stages hg =>
      rw [hg] at hrest
      split at hs <;> rcases List.mem_cons.mp hs with rfl | hs
      · exact List.cons_ne_nil c t.changes
      · exact hrest s (List.mem_cons_of_mem t hs)
      · exact List.cons_ne_nil c []
      · exact hrest s hs

namespace History

variable {h : History} {document : String} {stored : Version} {plan : Plan}

/-- A stage comes after the stored version, and takes effect together with a step. -/
theorem exists_step_of_mem_stages {s : Stage}
    (hs : s ∈ Stage.group (h.changesAfter document stored)) :
    stored < s.version ∧ ∃ step, (s.version, step) ∈ h.effective := by
  obtain ⟨c, hc⟩ := Stage.exists_mem_of_mem_group hs
  obtain ⟨hlt, step, hstep, -⟩ := (h.mem_changesAfter_iff document).mp hc
  exact ⟨hlt, step, (List.mem_filter.mp hstep).1⟩

/-- **A plan lists what has happened since**: its stages come in the order of their versions, all of
them above the stored one, none is empty, and together they hold the changes to the document in the
order of the log, each under the highest stamp up to its own.  If a replay has made the log, no
stage is above the current version. -/
theorem schedule_of_plan (hplan : h.plan document stored = .ok plan) :
    (∀ stage ∈ plan.stages, stage.changes ≠ [] ∧ stored < stage.version)
      ∧ plan.stages.Pairwise (fun s t => s.version < t.version)
      ∧ Stage.ungroup plan.stages = Step.listing document stored h.steps
      ∧ ∀ policy cs schema, replay policy cs = .ok schema → schema.toHistory = h →
          ∀ stage ∈ plan.stages, stage.version ≤ plan.currentVersion := by
  obtain rfl := eq_of_plan hplan
  refine ⟨fun stage hstage => ?_, ?_, ?_, ?_⟩
  · exact ⟨Stage.ne_nil_of_mem_group hstage, (exists_step_of_mem_stages hstage).1⟩
  · exact Stage.pairwise_group (h.pairwise_changesAfter document stored)
  · rw [Stage.ungroup_group, changesAfter_eq_listing]
  · rintro policy cs schema hreplay rfl stage hstage
    obtain ⟨e, he, rfl⟩ := replay_eq_ok_iff.mp hreplay
    obtain ⟨-, step, hstep⟩ := exists_step_of_mem_stages hstage
    exact (Evolution.wellFormed_of_applyAll he).effective_le hstep

/-- Between the changes of the user, the order raises the highest stamp to 3 and to 5. -/
theorem schedule_of_plan_unevenLog :
    ∃ plan, Evolution.unevenSchema.plan "user" 1 = .ok plan
      ∧ plan.stages = [⟨3, [.rename "age" "years", .add ⟨"age", .boolean, some "false"⟩]⟩,
        ⟨5, [.remove "mail", .retype "years" .string "String(years)"]⟩]
      ∧ plan.stages.Pairwise (fun s t => s.version < t.version)
      ∧ Stage.ungroup plan.stages = Step.listing "user" 1 Evolution.unevenSchema.steps
      ∧ ∀ stage ∈ plan.stages, stage.version ≤ plan.currentVersion := by
  have hplan : Evolution.unevenSchema.plan "user" 1 = .ok _ := rfl
  obtain ⟨-, hordered, hlisted, hbound⟩ := schedule_of_plan hplan
  exact ⟨_, hplan, rfl, hordered, hlisted, hbound _ _ _ Evolution.replay_unevenLog rfl⟩

end History

end SchemaLog
