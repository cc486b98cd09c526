import SchemaLog.Proofs.Plans

/-!
# Proofs/Stages — a plan from a later version is the rest of a plan from an earlier one

    from v₀:   │ v₁ │ v₂ │ v₃ │ v₄ │
    from v₂:             │ v₃ │ v₄ │

A plan drops the changes that a record already has and puts the others into stages.  As effective
versions never go down, all changes of one version are neighbours: it comes to the same to put all
changes into stages and to drop stages (`Stage.group_filter`), and no two stages share a version
(`Stage.pairwise_group`).
-/

namespace SchemaLog

/-! ## Stages of changes in order -/

namespace Stage

variable {changes : List (Version × Change)}

/-- Stages have no versions but those of the changes. -/
theorem exists_mem_of_mem_group :
    ∀ {changes : List (Version × Change)} {s : Stage}, s ∈ group changes →
      ∃ c, (s.version, c) ∈ changes
  | [], _, hs => absurd hs List.not_mem_nil
  | (v, c) :: rest, s, hs => by
    have hrest : s ∈ group rest → ∃ c', (s.version, c') ∈ (v, c) :: rest := by
      intro hmem
      obtain ⟨c', hc'⟩ := exists_mem_of_mem_group hmem
      exact ⟨c', List.mem_cons_of_mem _ hc'⟩
    have hhead : s.version = v → ∃ c', (s.version, c') ∈ (v, c) :: rest := by
      rintro rfl
      exact ⟨c, List.mem_cons_self⟩
    rw [group] at hs
    split at hs
    · exact hhead (by rw [List.mem_singleton.mp hs])
    · next t stages hg =>
      rw [hg] at hrest
      split at hs <;> rcases List.mem_cons.mp hs with rfl | hs
      · exact hhead rfl
      · exact hrest (List.mem_cons_of_mem _ hs)
      · exact hhead rfl
      · exact hrest hs

/-- Where no change comes before a version, no stage does. -/
theorem le_of_mem_group {v : Version} (h : ∀ e ∈ changes, v ≤ e.1) {s : Stage}
    (hs : s ∈ group changes) : v ≤ s.version := by
  obtain ⟨c, hc⟩ := exists_mem_of_mem_group hs
  exact h _ hc

/-- **No two stages share a version**, and later stages have higher ones. -/
theorem pairwise_group :
    ∀ {changes : List (Version × Change)}, changes.Pairwise (fun a b => a.1 ≤ b.1) →
      (group changes).Pairwise fun s t => s.version < t.version
  | [], _ => List.Pairwise.nil
  | (v, c) :: rest, h => by
    obtain ⟨hv, hrest⟩ := List.pairwise_cons.mp h
    have ih := pairwise_group hrest
    have hle : ∀ s ∈ group rest, v ≤ s.version := fun s hs => le_of_mem_group hv hs
    rw [group]
    split
    · exact List.pairwise_singleton _ _
    · next t stages hg =>
      rw [hg] at ih hle
      obtain ⟨ht, hstages⟩ := List.pairwise_cons.mp ih
      split
      · next heq =>
        exact List.pairwise_cons.mpr ⟨fun s hs => beq_iff_eq.mp heq ▸ ht s hs, hstages⟩
      · next hne =>
        have hlt : v < t.version :=
          UInt32.lt_of_le_of_ne (hle t List.mem_cons_self) fun heq => hne (beq_iff_eq.mpr heq.symm)
        refine List.pairwise_cons.mpr ⟨fun s hs => ?_, ih⟩
        rcases List.mem_cons.mp hs with rfl | hs
        · exact hlt
        · exact UInt32.lt_trans hlt (ht s hs)

end Stage

/-! ## Changes after a version -/

/-- No step takes effect above a version that no stamp exceeds. -/
theorem Step.le_of_forall_version_le {v : Version} :
    ∀ {steps : List Step} {reached : Version}, reached ≤ v → (∀ s ∈ steps, s.version ≤ v) →
      ∀ e ∈ effectiveFrom reached steps, e.1 ≤ v
  | [], _, _, _, _, he => absurd he List.not_mem_nil
  | s :: rest, reached, hreached, hsteps, e, he => by
    obtain ⟨hs, hrest⟩ := List.forall_mem_cons.mp hsteps
    have hmax : max reached s.version ≤ v := Std.max_le_iff.mpr ⟨hreached, hs⟩
    rcases List.mem_cons.mp he with rfl | he
    · exact hmax
    · exact le_of_forall_version_le hmax hrest e he

namespace History

variable (h : History) (document : String)

theorem pairwise_effectiveOf : (h.effectiveOf document).Pairwise fun a b => a.1 ≤ b.1 :=
  h.pairwise_effective.sublist List.filter_sublist

theorem mem_changesAfter_iff {v : Version} {e : Version × Change} :
    e ∈ h.changesAfter document v
      ↔ v < e.1 ∧ ∃ s, (e.1, s) ∈ h.effectiveOf document ∧ s.command.change? = some e.2 := by
  obtain ⟨w, c⟩ := e
  simp only [changesAfter, List.mem_filterMap, Prod.exists]
  constructor
  · rintro ⟨w', s, hs, he⟩
    split at he
    · cases he
    · next hle =>
      obtain ⟨c', hc', he⟩ := Option.map_eq_some_iff.mp he
      obtain ⟨rfl, rfl⟩ := Prod.mk.inj he
      exact ⟨UInt32.not_le.mp hle, s, hs, hc'⟩
  · rintro ⟨hlt, s, hs, hc⟩
    refine ⟨w, s, hs, ?_⟩
    rw [if_neg (UInt32.not_le.mpr hlt), hc, Option.map_some]

/-- Changes come in the order of their versions. -/
theorem pairwise_changesAfter (v : Version) :
    (h.changesAfter document v).Pairwise fun a b => a.1 ≤ b.1 := by
  refine List.pairwise_filterMap.mpr ((h.pairwise_effectiveOf document).imp ?_)
  intro a b hab x hx y hy
  have hversion : ∀ {e : Version × Step} {z : Version × Change},
      (if e.1 ≤ v then none else e.2.command.change?.map fun c => (e.1, c)) = some z →
        z.1 = e.1 := by
    intro e z hz
    split at hz
    · cases hz
    · obtain ⟨c, -, rfl⟩ := Option.map_eq_some_iff.mp hz
      rfl
  rw [hversion hx, hversion hy]
  exact hab

end History

/-! ## The version of a declaration -/

/-- The version of a declaration is that of a step, which declares the document. -/
theorem History.exists_step_of_declaredAt? {h : History} {document : String} {declared : Version}
    (hdeclared : h.declaredAt? document = some declared) :
    ∃ s ∈ h.steps, (declared, s) ∈ h.effective ∧ s.command.declares
      ∧ s.command.document = document := by
  obtain ⟨x, hx, hversion⟩ := List.exists_of_findSome?_eq_some hdeclared
  obtain ⟨hx, hname⟩ := List.mem_filter.mp hx
  split at hversion
  · next hdecl =>
    obtain rfl := Option.some.inj hversion
    have hmem : x.2 ∈ h.effective.map Prod.snd := List.mem_map_of_mem hx
    rw [effective, Step.map_snd_effectiveFrom] at hmem
    exact ⟨x.2, hmem, hx, hdecl, beq_iff_eq.mp hname⟩
  · cases hversion

namespace Evolution

variable {e : Evolution}

/-- The current version is not exceeded. -/
theorem WellFormed.effective_le (h : e.WellFormed) {x : Version × Step}
    (hx : x ∈ e.resolve.effective) : x.1 ≤ e.currentVersion := by
  refine Step.le_of_forall_version_le UInt32.zero_le (fun s hs => ?_) x hx
  rw [resolve, h.steps_eq] at hs
  obtain ⟨c, hc, rfl⟩ := List.mem_map.mp hs
  exact Command.highest_le_iff.mp (h.currentVersion_eq ▸ UInt32.le_refl _) c hc

/-- **Every document was declared at some version**, and not after the current one. -/
theorem WellFormed.exists_declaredAt? (h : e.WellFormed) {d : Document}
    (hd : d ∈ e.resolve.documents) :
    ∃ declared, e.resolve.declaredAt? d.name = some declared ∧ declared ≤ e.currentVersion := by
  rw [h.resolve_documents, h.mem_documents_iff] at hd
  obtain ⟨c, hc, hdecl, hname, -⟩ := (h.entry d.name d hd).declaration
  have hsome := History.isSome_declaredAt? (h := e.resolve.toHistory) h.steps_eq hc hdecl
  rw [hname] at hsome
  obtain ⟨declared, hdeclared⟩ := Option.isSome_iff_exists.mp hsome
  refine ⟨declared, hdeclared, ?_⟩
  obtain ⟨s, -, hs, -⟩ := History.exists_step_of_declaredAt? hdeclared
  exact h.effective_le hs

end Evolution

end SchemaLog
