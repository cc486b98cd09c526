import SchemaLog.Proofs.Files
import SchemaLog.Proofs.Texts
import SchemaLog.Regeneration

/-!
# Proofs/Saving — an artifact is loaded as it was saved

    artifact ──text──▸ file ──text──▸ artifact, if its hash is the one of its schema

Saving makes directories and then writes one file, so it keeps the files at all other places
(`Disk.keeps_save`), and all files if it fails.  If it succeeds, the file holds the text, and the
text is read back whole: what is loaded is what was saved, or is refused for its hash and for
nothing else (`Artifact.load_of_file?`).
-/

namespace SchemaLog

@[simp] theorem Failure.fst_at (p : Path) (attempt : Disk × Option DiskFault) :
    (Failure.at p attempt).1 = attempt.1 := rfl

/-! ## Saving texts -/

namespace Disk

variable {d d' : Disk} {p directory : Path} {loc : Location} {text : String} {failure : Failure}

theorem keeps_prepare (loc : Location) (d : Disk) (p : Path) : Keeps loc d (d.prepare p).1 := by
  rw [prepare]
  split
  · exact .refl loc d
  · next parent _ =>
    rw [Failure.fst_at]
    exact keeps_createDirectories loc d parent

/-- Saving comes to one write, on a disk on which directories have been made, or it fails before
it. -/
theorem save_cases (loc : Location) (d : Disk) (p : Path) (text : String) :
    ∃ d₁, Keeps loc d d₁ ∧ ((∃ failure, d.save p text = (d₁, some failure))
      ∨ d.save p text = Failure.at p (d₁.writeFile p (.text text))) := by
  have hprepare := keeps_prepare loc d p
  rw [save]
  rcases heq : d.prepare p with ⟨d₁, _ | failure⟩ <;> rw [heq] at hprepare
  · exact ⟨d₁, hprepare, .inr rfl⟩
  · exact ⟨d₁, hprepare, .inl ⟨failure, rfl⟩⟩

/-- **Saving keeps the files at other places.** -/
theorem keeps_save (h : d.place p ≠ loc) (text : String) : Keeps loc d (d.save p text).1 := by
  obtain ⟨d₁, hkeeps, ⟨failure, heq⟩ | heq⟩ := save_cases loc d p text <;> rw [heq]
  · exact hkeeps
  · rw [← place_congr hkeeps.workingDirectory_eq] at h
    exact hkeeps.trans (keeps_writeFile h (.text text))

/-- **Where saving fails, all files are kept.** -/
theorem keeps_save_of_failed (h : d.save p text = (d', some failure)) (loc : Location) :
    Keeps loc d d' := by
  obtain ⟨d₁, hkeeps, ⟨failure, heq⟩ | heq⟩ := save_cases loc d p text <;> rw [heq] at h
  · cases h
    exact hkeeps
  · rcases hwrite : d₁.writeFile p (.text text) with ⟨d₂, _ | fault⟩ <;> rw [hwrite] at h <;>
      cases h
    exact hkeeps.trans (keeps_writeFile_of_failed hwrite loc)

/-- Saving takes no directory away. -/
theorem keeps_root_save (d : Disk) (p : Path) (text : String) : Keeps [] d (d.save p text).1 := by
  obtain ⟨d₁, hkeeps, ⟨failure, heq⟩ | heq⟩ := save_cases [] d p text <;> rw [heq]
  · exact hkeeps
  · exact hkeeps.trans (keeps_root_writeFile d₁ p (.text text))

/-- **What is saved is in the file.** -/
theorem file?_of_save (h : d.save p text = (d', none)) : d'.file? p = some (.text text) := by
  obtain ⟨d₁, -, ⟨failure, heq⟩ | heq⟩ := save_cases (d.place p) d p text <;> rw [heq] at h
  · cases h
  · rcases hwrite : d₁.writeFile p (.text text) with ⟨d₂, _ | fault⟩ <;> rw [hwrite] at h <;>
      cases h
    exact file?_of_writeFile hwrite

theorem keeps_saveAll : ∀ {files : List GeneratedFile} {d : Disk},
    (∀ file ∈ files, d.place (directory.join file.name) ≠ loc) →
      Keeps loc d (d.saveAll directory files).1
  | [], d, _ => .refl loc d
  | file :: rest, d, h => by
    obtain ⟨hfile, hrest⟩ := List.forall_mem_cons.mp h
    have hkeeps := keeps_save hfile file.text
    rw [saveAll]
    rcases heq : d.save (directory.join file.name) file.text with ⟨d₁, _ | failure⟩ <;>
      rw [heq] at hkeeps
    · refine hkeeps.trans (keeps_saveAll fun other hother => ?_)
      rw [place_congr hkeeps.workingDirectory_eq]
      exact hrest other hother
    · exact hkeeps

/-- **Saving files below a directory keeps the files at other places.** -/
theorem keeps_saveBelow {files : List GeneratedFile}
    (h : ∀ file ∈ files, d.place (directory.join file.name) ≠ loc) :
    Keeps loc d (d.saveBelow directory files).1 := by
  have hkeeps := keeps_createDirectories loc d directory
  rw [saveBelow, Failure.at]
  rcases heq : d.createDirectories directory with ⟨d₁, _ | fault⟩ <;> rw [heq] at hkeeps
  · refine hkeeps.trans (keeps_saveAll fun file hfile => ?_)
    rw [place_congr hkeeps.workingDirectory_eq]
    exact h file hfile
  · exact hkeeps

end Disk

/-! ## Loading artifacts -/

namespace Artifact

variable {d d' : Disk} {p : Path} {a : Artifact}

/-- **An artifact is loaded from its text**, unless its hash is another one. -/
theorem load_of_file? (h : d.file? p = some (.text a.text)) :
    load d p = if a.isIntact then .ok (some a)
      else .error (.hashMismatch p a.hash a.schema.hash) := by
  obtain ⟨hread, hexists⟩ := Disk.readText_of_file? h
  simp only [load, hexists, if_true, hread, parse?_text]

/-- Only from a file is there anything to load. -/
theorem file?_of_load (h : load d p = .ok (some a)) : ∃ s, d.file? p = some (.text s) := by
  rw [load] at h
  split at h
  · split at h
    · cases h
    · next s hread => exact ⟨s, Disk.file?_of_readText hread⟩
  · cases h

/-- **What is saved of a schema is loaded again**, with all that is noted beside it; under any other
hash it is refused, and for the hash alone. -/
theorem load_of_save (d : Disk) (p : Path) (s : Schema) (engineVersion time hash : String) :
    let a := ofSchema s engineVersion time
    (∀ d', d.save p a.text = (d', none) → load d' p = .ok (some a))
      ∧ ∀ d', d.save p { a with hash := hash }.text = (d', none) → hash ≠ a.hash →
          load d' p = .error (.hashMismatch p hash a.hash) := by
  intro a
  refine ⟨fun d' hsave => ?_, fun d' hsave hne => ?_⟩
  · rw [load_of_file? (Disk.file?_of_save hsave), isIntact_ofSchema, if_pos rfl]
  · have hbroken : ¬ isIntact { a with hash := hash } = true :=
      fun h => hne (beq_iff_eq.mp h).symm
    rw [load_of_file? (Disk.file?_of_save hsave), if_neg hbroken]
    rfl

/-- A schema that no replay gives: its step does not say what its command does, a field name comes
twice, and texts are empty or hold what has to be escaped. -/
def oddSchema : Schema :=
  ⟨⟨4294967295, [⟨0, ⟨"a\"b\\", 7, .change (.remove "\n\x01")⟩, "😀\t"⟩]⟩,
    [⟨"", [⟨"x", .object, some ""⟩, ⟨"x", .string, none⟩], 0⟩]⟩

theorem load_of_save_oddSchema :
    let d := Disk.empty ["home"]
    let p : Path := ⟨"kept/history.json"⟩
    let a := ofSchema oddSchema "0.1.0" "2024-01-31T12:00:00Z"
    (∃ d', d.save p a.text = (d', none) ∧ load d' p = .ok (some a))
      ∧ ∃ d', d.save p { a with hash := "" }.text = (d', none) ∧ "" ≠ a.hash
        ∧ load d' p = .error (.hashMismatch p "" a.hash) := by
  intro d p a
  have hsave : d.save p a.text = ((d.save p a.text).1, none) := Prod.ext rfl (by decide +kernel)
  have hsave' : d.save p { a with hash := "" }.text
      = ((d.save p { a with hash := "" }.text).1, none) := Prod.ext rfl (by decide +kernel)
  have hne : "" ≠ a.hash := by simp [a, ofSchema, Schema.hash, hashText]
  have h := load_of_save d p oddSchema "0.1.0" "2024-01-31T12:00:00Z" ""
  exact ⟨⟨_, hsave, h.1 _ hsave⟩, _, hsave', hne, h.2 _ hsave' hne⟩

end Artifact

end SchemaLog
