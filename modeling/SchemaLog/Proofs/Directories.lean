import SchemaLog.Proofs.Files
import Mathlib.Data.List.DropRight

/-!
# Proofs/Directories — what is made once is there, and is not made again

    a / b / c        every segment leads to a directory       Disk.Leads

Making directories asks for each of them whether it is there, in two ways: by trying to make it, and
by looking where the path leads.  Both come to one thing, that the whole path can be walked along
(`isDirectory_iff`, `createDirectory_of_leads`).  So once directories have been made they are there,
and from then on making them changes nothing (`createDirectories_of_prepared`).
-/

namespace SchemaLog

namespace Disk

variable {d d' : Disk} {p : Path} {loc base directory : Location} {name : String}
  {segments : List String}

/-! ## Walking -/

theorem walk_append (d : Disk) (base : Location) (front back : List String) :
    d.walk base (front ++ back) = (d.walk base front).bind fun loc => d.walk loc back := by
  induction front generalizing base with
  | nil => rfl
  | cons segment rest ih =>
    rw [List.cons_append, walk, walk]
    split
    · exact ih base
    · split
      · exact ih base.tail
      · split
        · exact ih (segment :: base)
        · rfl
        · rfl

/-- A name can be walked along if there is a directory. -/
theorem walk_name (hname : isName name = true) :
    d.walk directory [name] = .ok loc
      ↔ loc = name :: directory ∧ d.child directory name = .ok .directory := by
  simp only [isName, Bool.and_eq_true, bne_iff_ne, ne_eq] at hname
  rw [walk, if_neg (not_or.mpr hname.1), if_neg hname.2]
  rcases d.child directory name with fault | content | _ <;> simp [walk, eq_comm]

/-- A walk comes to the directory in front of the last segment first. -/
theorem walk_eq_ok_iff :
    d.walk base segments = .ok loc ↔ ∃ directory, d.walk base segments.dropLast = .ok directory
      ∧ d.walk directory [segments.getLastD ""] = .ok loc := by
  rcases segments.eq_nil_or_concat with rfl | ⟨front, last, rfl⟩
  · simp [walk]
  · rw [List.concat_eq_append, walk_append, List.dropLast_concat, List.getLastD_concat]
    rcases d.walk base front with fault | directory <;> simp [Except.bind]

/-- Slashes at the end do not matter for a walk. -/
theorem walk_withoutSlash (d : Disk) (base : Location) (segments : List String) :
    d.walk base (withoutSlash segments) = d.walk base segments := by
  have hread (segments : List String) :
      withoutSlash segments = segments.rdropWhile fun segment => segment == "" := rfl
  induction segments using List.reverseRecOn with
  | nil => rfl
  | append_singleton front last ih =>
    rw [hread, List.rdropWhile_concat]
    split
    · next hempty =>
      rw [← hread, ih, walk_append, beq_iff_eq.mp hempty]
      rcases d.walk base front with fault | directory <;> rfl
    · rfl

/-! ## Paths that lead to directories -/

/-- Every segment of the path leads to a directory. -/
def Leads (d : Disk) (p : Path) : Prop :=
  ∃ base segments loc, d.start p = .ok (base, segments) ∧ d.walk base segments = .ok loc

/-- What a path leads to is a directory exactly if the whole path can be walked along. -/
theorem locate_directory_iff : (∃ loc, d.locate p = .ok (loc, .directory)) ↔ d.Leads p := by
  simp only [locate_eq_ok_iff]
  constructor
  · rintro ⟨loc, base, segments, directory, hstart, hfront, hlast⟩
    refine ⟨base, segments, loc, hstart, walk_eq_ok_iff.mpr ⟨directory, hfront, ?_⟩⟩
    split at hlast
    · next hname => exact (walk_name hname).mpr hlast.symm
    · exact hlast.1
  · rintro ⟨base, segments, loc, hstart, hwalk⟩
    obtain ⟨directory, hfront, hlast⟩ := walk_eq_ok_iff.mp hwalk
    refine ⟨loc, base, segments, directory, hstart, hfront, ?_⟩
    split
    · next hname => exact ((walk_name hname).mp hlast).symm
    · exact ⟨hlast, trivial⟩

theorem isDirectory_iff : d.isDirectory p = true ↔ d.Leads p := by
  rw [← locate_directory_iff, isDirectory]
  rcases d.locate p with fault | ⟨loc, _ | _⟩ <;> simp

theorem Keeps.leads (hkeeps : Keeps loc d d') (h : d.Leads p) : d'.Leads p := by
  obtain ⟨base, segments, loc, hstart, hwalk⟩ := h
  exact ⟨base, segments, loc, (start_congr hkeeps.workingDirectory_eq p).trans hstart,
    hkeeps.walk hwalk⟩

/-- **A directory that is there is not made again.** -/
theorem createDirectory_of_leads (h : d.Leads p) : d.createDirectory p = (d, some .refused) := by
  obtain ⟨base, segments, loc, hstart, hwalk⟩ := h
  rw [← walk_withoutSlash] at hwalk
  obtain ⟨directory, hfront, hlast⟩ := walk_eq_ok_iff.mp hwalk
  simp only [createDirectory, hstart]
  rcases htarget : d.target base (withoutSlash segments) with fault | ⟨directory', name⟩
  · -- The walk gets through, so it is the last segment that names no entry.
    rw [target, hfront] at htarget
    simp only [bind, Except.bind] at htarget
    split at htarget <;> cases htarget
    rfl
  · obtain ⟨hfront', rfl, hname, -⟩ := target_eq_ok_iff.mp htarget
    obtain rfl : directory = directory' := Except.ok.inj (hfront.symm.trans hfront')
    obtain ⟨-, hentry⟩ := child_eq_ok_iff.mp ((walk_name hname).mp hlast).2
    simp only [hentry]

/-- **A directory that has been made is there.** -/
theorem leads_of_createDirectory (h : d.createDirectory p = (d', none)) : d'.Leads p := by
  have hkeeps := keeps_createDirectory [] d p
  rw [h] at hkeeps
  rw [createDirectory] at h
  rcases hstart : d.start p with fault | ⟨base, segments⟩ <;> simp only [hstart] at h
  · cases h
  rcases htarget : d.target base (withoutSlash segments) with fault | ⟨directory, name⟩ <;>
    simp only [htarget] at h
  · cases h
  obtain ⟨hfront, hlast, hname, hlength⟩ := target_eq_ok_iff.mp htarget
  split at h
  · cases h
  · have hput := d.entries_put (name :: directory) .directory
    rw [h] at hput
    rcases hput with ⟨-, hentries⟩ | ⟨hsome, -⟩
    · have hentry : d'.entry? (name :: directory) = some .directory := by
        rw [entry_of_set hentries (List.cons_ne_nil name directory), if_pos rfl]
      have hchild := child_eq_ok_iff.mpr ⟨Nat.not_lt.mpr hlength, hentry⟩
      refine ⟨base, segments, name :: directory,
        (start_congr hkeeps.workingDirectory_eq p).trans hstart, ?_⟩
      rw [← walk_withoutSlash]
      exact walk_eq_ok_iff.mpr
        ⟨directory, hkeeps.walk hfront, hlast ▸ (walk_name hname).mpr ⟨rfl, hchild⟩⟩
    · cases hsome

/-! ## Making all directories of a path -/

/-- Nothing has to be made for the path; the empty path stands for no directory at all. -/
def Prepared (d : Disk) (p : Path) : Prop :=
  p.text = "" ∨ d.Leads p

theorem Keeps.prepared (hkeeps : Keeps loc d d') (h : d.Prepared p) : d'.Prepared p :=
  h.imp_right hkeeps.leads

theorem leads_of_unlessDirectory (h : unlessDirectory p (d.createDirectory p) = (d', none)) :
    d'.Leads p := by
  rcases hattempt : d.createDirectory p with ⟨d₁, _ | fault⟩ <;> rw [hattempt, unlessDirectory] at h
  · cases h
    exact leads_of_createDirectory hattempt
  · split at h
    · next hdirectory =>
      cases h
      exact isDirectory_iff.mp hdirectory
    · cases h

theorem prepared_of_createDirectoriesUpTo {n : Nat}
    (h : createDirectoriesUpTo n d p = (d', none)) : d'.Prepared p := by
  rcases n with _ | n <;> rw [createDirectoriesUpTo] at h
  · cases h
  split at h
  · next hempty => exact .inl hempty
  · refine .inr ?_
    split at h
    · split at h
      · cases h
      · split at h
        · cases h
        · exact leads_of_unlessDirectory h
    · exact leads_of_unlessDirectory h

/-- **Directories that have been made are there.** -/
theorem prepared_of_createDirectories (h : d.createDirectories p = (d', none)) : d'.Prepared p :=
  prepared_of_createDirectoriesUpTo h

/-- **Directories that are there are not made again.** -/
theorem createDirectories_of_prepared (h : d.Prepared p) : d.createDirectories p = (d, none) := by
  rw [createDirectories, createDirectoriesUpTo]
  split
  · rfl
  · next hne =>
    have hleads := h.resolve_left hne
    simp only [createDirectory_of_leads hleads, unlessDirectory, isDirectory_iff.mpr hleads,
      if_true]

end Disk

end SchemaLog
