import SchemaLog.Schema

/-!
# History — when a step takes effect, and the way from a stored version to the current one

A step takes effect at the highest stamp up to and including its own, over all documents; under
non-decreasing stamps that is its own stamp.  `History.effective` pairs every step with this
version, and the versions never decrease along it (`pairwise_effective`).  A `Plan` lists what has
happened to one document after a stored version, in stages of one version each.
-/

namespace SchemaLog

/-- Why a history has no answer. -/
inductive HistoryFault
  | unknownDocument (document : String)
  | futureVersion (stored current : Version)
  deriving DecidableEq

/-- The changes that take effect at one version. -/
structure Stage where
  version : Version
  changes : List Change
  deriving DecidableEq

/-- What brings a record of one document from a stored version to the current one. -/
structure Plan where
  document : String
  storedVersion : Version
  currentVersion : Version
  stages : List Stage
  deriving DecidableEq

/-- All changes of a plan, in order. -/
def Plan.changes (p : Plan) : List Change :=
  p.stages.flatMap Stage.changes

/-! ## Effective versions -/

/-- Pairs steps with the highest stamp so far, counting from a version already reached. -/
def Step.effectiveFrom : Version → List Step → List (Version × Step)
  | _, [] => []
  | reached, s :: rest =>
    (max reached s.version, s) :: effectiveFrom (max reached s.version) rest

namespace History

/-- Every step with the version at which it takes effect. -/
def effective (h : History) : List (Version × Step) :=
  Step.effectiveFrom 0 h.steps

/-- The steps of one document. -/
def stepsOf (h : History) (document : String) : List Step :=
  h.steps.filter fun s => s.command.document == document

/-- The steps of one document, with the versions at which they take effect. -/
def effectiveOf (h : History) (document : String) : List (Version × Step) :=
  h.effective.filter fun e => e.2.command.document == document

/-- The version at which the first declaration of a document takes effect. -/
def declaredAt? (h : History) (document : String) : Option Version :=
  (h.effectiveOf document).findSome? fun e => if e.2.command.declares then some e.1 else none

end History

/-! ## Plans -/

namespace Stage

/-- Puts neighbours of one version into one stage. -/
def group : List (Version × Change) → List Stage
  | [] => []
  | (v, c) :: rest =>
    match group rest with
    | [] => [⟨v, [c]⟩]
    | s :: stages =>
      if s.version == v then ⟨v, c :: s.changes⟩ :: stages else ⟨v, [c]⟩ :: s :: stages

/-- The changes of a list of stages, each with its stage's version. -/
def ungroup (stages : List Stage) : List (Version × Change) :=
  stages.flatMap fun s => s.changes.map fun c => (s.version, c)

end Stage

namespace History

/-- The changes to a document that take effect after a version, each with its own. -/
def changesAfter (h : History) (document : String) (version : Version) : List (Version × Change) :=
  (h.effectiveOf document).filterMap fun e =>
    if e.1 ≤ version then none else e.2.command.change?.map fun c => (e.1, c)

/-- The plan for a record of a document that was stored at a version.  The document has to be
declared in the history, and the version must not be ahead of it. -/
def plan (h : History) (document : String) (stored : Version) : Except HistoryFault Plan :=
  if (h.declaredAt? document).isNone then .error (.unknownDocument document)
  else if h.currentVersion < stored then .error (.futureVersion stored h.currentVersion)
  else .ok ⟨document, stored, h.currentVersion, Stage.group (h.changesAfter document stored)⟩

end History

/-! ## Small laws -/

theorem Step.map_snd_effectiveFrom (v : Version) (steps : List Step) :
    (Step.effectiveFrom v steps).map Prod.snd = steps := by
  induction steps generalizing v with
  | nil => rfl
  | cons s rest ih => simp [Step.effectiveFrom, ih]

theorem Step.le_of_mem_effectiveFrom :
    ∀ {steps : List Step} {v : Version} {e : Version × Step},
      e ∈ Step.effectiveFrom v steps → v ≤ e.1
  | [], _, _, h => by simp [Step.effectiveFrom] at h
  | s :: rest, v, e, h => by
    simp only [Step.effectiveFrom, List.mem_cons] at h
    rcases h with rfl | h
    · exact Std.left_le_max
    · exact UInt32.le_trans (Std.left_le_max) (le_of_mem_effectiveFrom h)

/-- **Effective versions never decrease along the history.** -/
theorem History.pairwise_effective (h : History) :
    h.effective.Pairwise fun a b => a.1 ≤ b.1 := by
  unfold History.effective
  generalize (0 : Version) = v
  generalize h.steps = steps
  induction steps generalizing v with
  | nil => exact List.Pairwise.nil
  | cons s rest ih =>
    exact List.Pairwise.cons (fun e he => Step.le_of_mem_effectiveFrom he) (ih _)

/-- **Grouping loses nothing**: the stages list the same changes with the same versions. -/
theorem Stage.ungroup_group (changes : List (Version × Change)) :
    Stage.ungroup (Stage.group changes) = changes := by
  induction changes with
  | nil => rfl
  | cons e rest ih =>
    obtain ⟨v, c⟩ := e
    unfold Stage.group
    split
    · next hg =>
      rw [hg] at ih
      simp only [ungroup, List.flatMap_nil] at ih
      simp [ungroup, ← ih]
    · next s stages hg =>
      rw [hg] at ih
      split
      · next hv =>
        have hv : s.version = v := by simpa using hv
        simp only [ungroup, List.flatMap_cons, List.map_cons, List.cons_append] at ih ⊢
        rw [← ih, hv]
      · simp only [ungroup, List.flatMap_cons, List.map_cons, List.map_nil, List.cons_append,
          List.nil_append] at ih ⊢
        rw [← ih]

end SchemaLog
