import SchemaLog.History
import Mathlib.Data.List.Induction

/-!
# Proofs/Stamps — the highest stamp, and the commands that take effect up to a version

A command takes effect at the highest stamp up to and including its own.  As this version never goes
down along a list of commands, those that take effect up to a version are the commands in front of
the first stamp above it (`upTo_eq_takeWhile`): a prefix of the list, whatever the stamps are.
-/

namespace SchemaLog

namespace Command

/-- The highest stamp among commands; it is 0 if there are none. -/
def highest (cs : List Command) : Version :=
  cs.foldl (fun v c => max v c.version) 0

/-- Commands with the versions at which they take effect. -/
def withEffect (cs : List Command) : List (Version × Command) :=
  cs.mapIdx fun i c => (highest (cs.take (i + 1)), c)

/-- The commands that take effect at a version or before it. -/
def upTo (version : Version) (cs : List Command) : List Command :=
  ((withEffect cs).filter fun e => e.1 ≤ version).map Prod.snd

@[simp] theorem highest_nil : highest [] = 0 := rfl

@[simp] theorem highest_concat (cs : List Command) (c : Command) :
    highest (cs ++ [c]) = max (highest cs) c.version := by
  rw [highest, List.foldl_append]
  rfl

/-- **The highest stamp is the least bound of all stamps.** -/
theorem highest_le_iff {cs : List Command} {v : Version} :
    highest cs ≤ v ↔ ∀ c ∈ cs, c.version ≤ v := by
  induction cs using List.reverseRecOn with
  | nil => simp
  | append_singleton cs c ih =>
    rw [highest_concat, Std.max_le_iff, ih, List.forall_mem_append, List.forall_mem_singleton]

@[simp] theorem withEffect_concat (cs : List Command) (c : Command) :
    withEffect (cs ++ [c]) = withEffect cs ++ [(highest (cs ++ [c]), c)] := by
  rw [withEffect, List.mapIdx_concat, List.take_of_length_le (by simp)]
  refine congrArg (· ++ _) (List.ext_getElem (by simp [withEffect]) fun i h _ => ?_)
  have hi : i < cs.length := by simpa using h
  simp [withEffect, List.take_append_of_le_length hi]

end Command

/-! ## The version reached -/

namespace Step

theorem effectiveFrom_concat (s : Step) :
    ∀ (steps : List Step) (reached : Version),
      effectiveFrom reached (steps ++ [s])
        = effectiveFrom reached steps
          ++ [(max (steps.foldl (fun v t => max v t.version) reached) s.version, s)]
  | [], _ => rfl
  | t :: rest, reached => by
    simp only [List.cons_append, effectiveFrom, List.foldl_cons]
    rw [effectiveFrom_concat s rest]

variable {v : Version}

/-- Once a version is exceeded, it stays exceeded. -/
theorem filter_effectiveFrom_of_lt {reached : Version} (h : ¬ reached ≤ v) (steps : List Step) :
    (effectiveFrom reached steps).filter (fun e => e.1 ≤ v) = [] := by
  refine List.filter_eq_nil_iff.mpr fun e he hle => h ?_
  exact UInt32.le_trans (le_of_mem_effectiveFrom he) (of_decide_eq_true hle)

/-- **What takes effect up to a version stands in front of the first stamp above it.** -/
theorem filter_effectiveFrom :
    ∀ (steps : List Step) {reached : Version}, reached ≤ v →
      ((effectiveFrom reached steps).filter fun e => e.1 ≤ v).map Prod.snd
        = steps.takeWhile fun s => s.version ≤ v
  | [], _, _ => rfl
  | s :: rest, reached, h => by
    rw [effectiveFrom, List.filter_cons, List.takeWhile_cons]
    by_cases hs : s.version ≤ v
    · have hmax : max reached s.version ≤ v := Std.max_le_iff.mpr ⟨h, hs⟩
      simp only [hmax, hs, decide_true, if_true, List.map_cons]
      rw [filter_effectiveFrom rest hmax]
    · have hmax : ¬ max reached s.version ≤ v := fun hle => hs (Std.max_le_iff.mp hle).2
      simp only [hmax, hs, decide_false, Bool.false_eq_true, if_false]
      rw [filter_effectiveFrom_of_lt hmax, List.map_nil]

/-- …and all else behind it. -/
theorem filter_not_effectiveFrom :
    ∀ (steps : List Step) {reached : Version}, reached ≤ v →
      ((effectiveFrom reached steps).filter fun e => !decide (e.1 ≤ v)).map Prod.snd
        = steps.dropWhile fun s => s.version ≤ v
  | [], _, _ => rfl
  | s :: rest, reached, h => by
    rw [effectiveFrom, List.filter_cons, List.dropWhile_cons]
    by_cases hs : s.version ≤ v
    · have hmax : max reached s.version ≤ v := Std.max_le_iff.mpr ⟨h, hs⟩
      simp only [hmax, hs, decide_true, Bool.not_true, Bool.false_eq_true, if_false, if_true]
      exact filter_not_effectiveFrom rest hmax
    · have hmax : ¬ max reached s.version ≤ v := fun hle => hs (Std.max_le_iff.mp hle).2
      have hall : ∀ e ∈ effectiveFrom (max reached s.version) rest,
          (!decide (e.1 ≤ v)) = true := by
        intro e he
        simpa using fun hle => hmax (UInt32.le_trans (le_of_mem_effectiveFrom he) hle)
      simp only [hmax, hs, decide_false, Bool.not_false, Bool.false_eq_true, if_false, if_true]
      rw [List.filter_eq_self.mpr hall, List.map_cons, map_snd_effectiveFrom]

end Step

namespace Command

/-- The history of commands pairs them with the versions at which they take effect. -/
theorem effectiveFrom_map_ofCommand (cs : List Command) :
    Step.effectiveFrom 0 (cs.map Step.ofCommand)
      = (withEffect cs).map fun e => (e.1, Step.ofCommand e.2) := by
  induction cs using List.reverseRecOn with
  | nil => rfl
  | append_singleton cs c ih =>
    rw [List.map_append, List.map_singleton, Step.effectiveFrom_concat, ih, withEffect_concat,
      List.map_append, List.map_singleton, highest_concat, List.foldl_map]
    rfl

/-- **The commands that take effect up to a version are a prefix.** -/
theorem upTo_eq_takeWhile (version : Version) (cs : List Command) :
    upTo version cs = cs.takeWhile fun c => c.version ≤ version := by
  have h := Step.filter_effectiveFrom (cs.map Step.ofCommand) (UInt32.zero_le : 0 ≤ version)
  rw [effectiveFrom_map_ofCommand, List.filter_map, List.takeWhile_map] at h
  have h := congrArg (List.map Step.command) h
  simp only [List.map_map, Function.comp_def, Step.ofCommand, List.map_id'] at h
  exact h

end Command

end SchemaLog
