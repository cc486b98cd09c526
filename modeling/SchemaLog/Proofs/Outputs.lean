import SchemaLog.Proofs.Exports
import SchemaLog.Proofs.Places
import SchemaLog.Proofs.Repetition

/-!
# Proofs/Outputs — where the generated files end up

    document      file                      from the output directory
    User          user.migrations.ts        user.migrations.ts
    ./user        ./user.migrations.ts      user.migrations.ts        the same file
    ../user       ../user.migrations.ts     —                         it is beside the directory

Names of files are kept apart as texts, and nothing is said of the places that they lead to.  Each
file is in the output directory exactly if the names of all documents are contained
(`Schema.stays_below_iff`), and what is at a place is the last of the files that go there
(`Disk.file?_of_saveBelow`), so that a module is lost exactly if two documents have one place
(`Schema.each_held_iff`).
-/

namespace SchemaLog

namespace Disk

variable {d d' : Disk} {directory : Path} {loc : Location} {files : List GeneratedFile}
  {file last : GeneratedFile} {name : String}

/-! ## The last file at a place -/

/-- The last of the files that go to a place. -/
def lastAt (d : Disk) (directory : Path) (files : List GeneratedFile) (loc : Location) :
    Option GeneratedFile :=
  files.reverse.find? fun file => d.place (directory.join file.name) = loc

theorem lastAt_cons (d : Disk) (directory : Path) (file : GeneratedFile)
    (rest : List GeneratedFile) (loc : Location) :
    d.lastAt directory (file :: rest) loc = (d.lastAt directory rest loc).or
      (if d.place (directory.join file.name) = loc then some file else none) := by
  rw [lastAt, List.reverse_cons, List.find?_append, List.find?_singleton, lastAt]
  simp only [decide_eq_true_eq]

theorem lastAt_eq_none_iff :
    d.lastAt directory files loc = none
      ↔ ∀ file ∈ files, d.place (directory.join file.name) ≠ loc := by
  simp [lastAt]

theorem exists_lastAt (d : Disk) (directory : Path) (hfile : file ∈ files) :
    ∃ last ∈ files, d.lastAt directory files (d.place (directory.join file.name)) = some last := by
  rcases hlast : d.lastAt directory files (d.place (directory.join file.name)) with _ | last
  · exact absurd rfl (lastAt_eq_none_iff.mp hlast file hfile)
  · exact ⟨last, List.mem_reverse.mp (List.mem_of_find?_eq_some hlast), rfl⟩

theorem lastAt_congr (h : d'.workingDirectory = d.workingDirectory) :
    d'.lastAt directory files loc = d.lastAt directory files loc := by
  simp only [lastAt, place_congr h]

/-! ## What has been saved -/

/-- Files that are all saved are saved one after the other. -/
theorem exists_of_saveAll_cons {rest : List GeneratedFile}
    (h : d.saveAll directory (file :: rest) = (d', none)) :
    ∃ d₁, d.save (directory.join file.name) file.text = (d₁, none)
      ∧ d₁.workingDirectory = d.workingDirectory ∧ d₁.saveAll directory rest = (d', none) := by
  have hroot := keeps_root_save d (directory.join file.name) file.text
  rw [saveAll] at h
  rcases hsave : d.save (directory.join file.name) file.text with ⟨d₁, _ | failure⟩ <;>
    rw [hsave] at h hroot
  · exact ⟨d₁, rfl, hroot.workingDirectory_eq, h⟩
  · cases h

theorem keeps_root_saveAll :
    ∀ {files : List GeneratedFile} {d : Disk},
      d.saveAll directory files = (d', none) → Keeps [] d d'
  | [], d, h => by
    cases h
    exact .refl [] _
  | file :: rest, d, h => by
    obtain ⟨d₁, hsave, -, hrest⟩ := exists_of_saveAll_cons h
    have hroot := keeps_root_save d (directory.join file.name) file.text
    rw [hsave] at hroot
    exact hroot.trans (keeps_root_saveAll hrest)

/-- **At a place is the last of the files that go there.** -/
theorem entry_of_saveAll :
    ∀ {files : List GeneratedFile} {d : Disk}, d.saveAll directory files = (d', none) →
      d.lastAt directory files loc = some last →
        d'.entry? loc = some (.file (.text last.text))
  | [], _, _, hlast => by cases hlast
  | file :: rest, d, h, hlast => by
    obtain ⟨d₁, hsave, hworking, hrest⟩ := exists_of_saveAll_cons h
    rw [lastAt_cons, ← lastAt_congr hworking] at hlast
    rcases hlater : d₁.lastAt directory rest loc with _ | later
    · -- No other file goes to the place, so what has been saved there stays.
      rw [hlater, Option.none_or, Option.ite_none_right_eq_some] at hlast
      obtain ⟨rfl, hfile⟩ := hlast
      have hkeeps := keeps_saveAll (lastAt_eq_none_iff.mp hlater)
      rw [hrest] at hkeeps
      have hentry := entry_place_of_file? (file?_of_save hsave)
      rw [place_congr hworking] at hentry
      exact (hkeeps.file_iff _).mpr (Option.some.inj hfile ▸ hentry)
    · rw [hlater, Option.some_or] at hlast
      exact entry_of_saveAll hrest (hlater.trans hlast)

theorem targets_of_saveAll :
    ∀ {files : List GeneratedFile} {d : Disk}, d.saveAll directory files = (d', none) →
      ∀ file ∈ files, ∃ parent name, d'.Targets (directory.join file.name) parent name
  | [], _, _ => List.forall_mem_nil _
  | file :: rest, d, h => by
    obtain ⟨d₁, hsave, -, hrest⟩ := exists_of_saveAll_cons h
    obtain ⟨parent, name, htargets, -⟩ := file?_eq_some_iff.mp (file?_of_save hsave)
    exact List.forall_mem_cons.mpr
      ⟨⟨parent, name, (keeps_root_saveAll hrest).targets htargets⟩, targets_of_saveAll hrest⟩

theorem exists_saveAll_of_saveBelow (h : d.saveBelow directory files = (d', none)) :
    ∃ d₁ : Disk, d₁.workingDirectory = d.workingDirectory ∧ d'.workingDirectory = d.workingDirectory
      ∧ d₁.saveAll directory files = (d', none) := by
  have hkeeps := keeps_createDirectories [] d directory
  rw [saveBelow, Failure.at] at h
  rcases hmade : d.createDirectories directory with ⟨d₁, _ | fault⟩ <;> rw [hmade] at h hkeeps
  · have hall : d₁.saveAll directory files = (d', none) := h
    exact ⟨d₁, hkeeps.workingDirectory_eq,
      (hkeeps.trans (keeps_root_saveAll hall)).workingDirectory_eq, hall⟩
  · cases h

/-- **A name leads to the last of the files that have its place.** -/
theorem file?_of_saveBelow (h : d.saveBelow directory files = (d', none)) (hfile : file ∈ files)
    (hlast : d.lastAt directory files (d.place (directory.join file.name)) = some last) :
    d'.file? (directory.join file.name) = some (.text last.text) := by
  obtain ⟨d₁, hworking, hworking', hall⟩ := exists_saveAll_of_saveBelow h
  obtain ⟨parent, name, htargets⟩ := targets_of_saveAll hall file hfile
  have hentry := entry_of_saveAll hall ((lastAt_congr hworking).trans hlast)
  rw [← place_congr hworking', htargets.place_eq] at hentry
  exact file?_eq_some_iff.mpr ⟨parent, name, htargets, hentry⟩

/-- Every file is where its name leads to, and no two of them are one. -/
structure HoldsEach (d : Disk) (directory : Path) (files : List GeneratedFile) : Prop where
  file?_eq : ∀ file ∈ files, d.file? (directory.join file.name) = some (.text file.text)
  nodup : (files.map fun file => d.place (directory.join file.name)).Nodup

theorem holdsEach_iff_nodup (h : d.saveBelow directory files = (d', none)) :
    d'.HoldsEach directory files
      ↔ (files.map fun file => d.place (directory.join file.name)).Nodup := by
  obtain ⟨d₁, hworking, hworking', hall⟩ := exists_saveAll_of_saveBelow h
  have hplace (p : Path) : d'.place p = d.place p := place_congr hworking' p
  refine ⟨fun hholds => by simpa only [hplace] using hholds.nodup, fun hnodup => ?_⟩
  refine ⟨fun file hfile => ?_, by simpa only [hplace] using hnodup⟩
  simp only [← place_congr hworking] at hnodup
  exact (saved_of_saveAll hnodup hall file hfile).file?_eq

end Disk

/-! ## Places of generated files -/

namespace UpcastModule

open Disk SchemaLog.Path

variable {d : Disk} {directory : Path}

/-- No module is put where the index is. -/
theorem place_fileName_ne_index (d : Disk) (directory : Path) (document : String) :
    d.place (directory.join (fileName document)) ≠ d.place (directory.join "index.ts") := by
  obtain ⟨last, heq⟩ := exists_pieces_fileName document
  obtain ⟨base, hplace⟩ := exists_place_join (namesFile_fileName document) d directory
  obtain ⟨base', hplace'⟩ := exists_place_join namesFile_index d directory
  rw [hplace, hplace', heq, List.getLastD_concat, pieces_index]
  intro h
  have hlength := congrArg String.length (List.cons.inj h).1
  have hending : ".migrations.ts".length = 14 := rfl
  have hindex : (["index.ts"].getLastD "").length = 8 := rfl
  rw [String.length_append, hending, hindex] at hlength
  omega

end UpcastModule

namespace Schema

open UpcastModule Disk

variable {s : Schema} {files : List GeneratedFile}

/-- The generated files are named after the documents, and behind them comes the index. -/
theorem map_name_of_upcastFiles {α : Type} (hfiles : s.upcastFiles = .ok files)
    (f : String → α) :
    files.map (fun file => f file.name)
      = (s.documents.map fun doc => f (fileName doc.name)) ++ [f "index.ts"] := by
  obtain ⟨modules, hmodules, rfl⟩ := exists_moduleFiles hfiles
  have hnames := congrArg (List.map f) (map_name_of_moduleFiles hmodules)
  rw [List.map_map, List.map_map] at hnames
  rw [List.map_append]
  exact congrArg (· ++ [f "index.ts"]) hnames

theorem forall_name_iff (hfiles : s.upcastFiles = .ok files) (property : String → Prop) :
    (∀ file ∈ files, property file.name)
      ↔ (∀ doc ∈ s.documents, property (fileName doc.name)) ∧ property "index.ts" := by
  have hnames : files.map GeneratedFile.name
      = (s.documents.map fun doc => fileName doc.name) ++ ["index.ts"] :=
    map_name_of_upcastFiles hfiles id
  rw [← List.forall_mem_map, hnames, List.forall_mem_append, List.forall_mem_map,
    List.forall_mem_singleton]

theorem nodup_places_iff (hfiles : s.upcastFiles = .ok files) (d : Disk) (directory : Path) :
    (files.map fun file => d.place (directory.join file.name)).Nodup
      ↔ (s.documents.map fun doc => d.place (directory.join (fileName doc.name))).Nodup := by
  rw [map_name_of_upcastFiles hfiles fun name => d.place (directory.join name), List.nodup_append]
  refine and_iff_left ⟨List.nodup_singleton _, fun loc hloc index hindex => ?_⟩
  obtain ⟨doc, -, rfl⟩ := List.mem_map.mp hloc
  rw [List.mem_singleton.mp hindex]
  exact place_fileName_ne_index d directory doc.name

/-- Whether the files are below a directory is decided by the names of the documents. -/
theorem files_below_iff (hfiles : s.upcastFiles = .ok files) (d : Disk) :
    (∀ directory, ∀ file ∈ files,
        (d.place (directory.join file.name)).IsBelow (d.place directory))
      ↔ ∀ doc ∈ s.documents, Path.isContained doc.name := by
  have hmodule (document : String) :=
    (isBelow_iff_isContained (namesFile_fileName document) d).trans
      (Bool.eq_iff_iff.mp (isContained_fileName document))
  have hindex :=
    iff_true_intro ((isBelow_iff_isContained namesFile_index d).mpr isContained_index)
  have hall := forall_name_iff hfiles fun name =>
    ∀ directory, (d.place (directory.join name)).IsBelow (d.place directory)
  simp only [hmodule, hindex, and_true] at hall
  exact ⟨fun h => hall.mp fun file hfile directory => h directory file hfile,
    fun h directory file hfile => hall.mpr h file hfile directory⟩

/-- **The generated files are below every output directory exactly if the names of all documents are
contained.**  Saving them puts each file where its name leads to, and where all names are contained
it keeps the files that are not below the directory. -/
theorem stays_below_iff (hfiles : s.upcastFiles = .ok files) (d : Disk) :
    ((∀ directory, ∀ file ∈ files,
          (d.place (directory.join file.name)).IsBelow (d.place directory))
        ↔ ∀ doc ∈ s.documents, Path.isContained doc.name)
      ∧ (∀ directory d', d.saveBelow directory files = (d', none) →
          ∀ file ∈ files, ∃ last ∈ files,
            d'.entry? (d.place (directory.join file.name)) = some (.file (.text last.text)))
      ∧ ((∀ doc ∈ s.documents, Path.isContained doc.name) →
          ∀ directory loc, ¬ loc.IsBelow (d.place directory) →
            Keeps loc d (d.saveBelow directory files).1) := by
  have hbelow := files_below_iff hfiles d
  refine ⟨hbelow, fun directory d' hsave file hfile => ?_, fun hnames directory loc hloc => ?_⟩
  · obtain ⟨last, hmem, hlast⟩ := exists_lastAt d directory hfile
    have hentry := entry_place_of_file? (file?_of_saveBelow hsave hfile hlast)
    obtain ⟨-, -, hworking, -⟩ := exists_saveAll_of_saveBelow hsave
    exact ⟨last, hmem, place_congr hworking _ ▸ hentry⟩
  · refine keeps_saveBelow fun file hfile heq => hloc ?_
    exact heq ▸ hbelow.mpr hnames directory file hfile

/-- Two documents of which the second one goes down before it goes up. -/
def downLog : List Command :=
  [⟨"User", 1, .declare []⟩, ⟨"sales/../Order", 1, .declare []⟩]

/-- The schema that `downLog` leads to. -/
def downSchema : Schema :=
  ⟨⟨1, downLog.map Step.ofCommand⟩, [⟨"User", [], 1⟩, ⟨"sales/../Order", [], 1⟩]⟩

/-- The files that are generated for `downSchema`. -/
def downFiles : List GeneratedFile :=
  [⟨"user.migrations.ts", UpcastModule.text ⟨"User", 1, []⟩⟩,
    ⟨"sales/../_order.migrations.ts", UpcastModule.text ⟨"sales/../Order", 1, []⟩⟩,
    indexFile ["User", "sales/../Order"]]

theorem stays_below_iff_downSchema :
    let d := Disk.empty ["home"]
    replay .nonDecreasing downLog = .ok downSchema ∧ downSchema.upcastFiles = .ok downFiles
      ∧ (∀ doc ∈ downSchema.documents, Path.isContained doc.name)
      ∧ (∀ directory, ∀ file ∈ downFiles,
          (d.place (directory.join file.name)).IsBelow (d.place directory))
      ∧ (∃ d', d.saveBelow ⟨"out"⟩ downFiles = (d', none)
          ∧ ∀ file ∈ downFiles, ∃ last ∈ downFiles,
            d'.entry? (d.place (Path.join ⟨"out"⟩ file.name)) = some (.file (.text last.text)))
      ∧ ¬ Location.IsBelow ["s.json", "home"] (d.place ⟨"out"⟩)
      ∧ Keeps ["s.json", "home"] d (d.saveBelow ⟨"out"⟩ downFiles).1 := by
  intro d
  have hfiles : downSchema.upcastFiles = .ok downFiles := by rfl
  have hnames : ∀ doc ∈ downSchema.documents, Path.isContained doc.name := by decide +kernel
  have hsave : d.saveBelow ⟨"out"⟩ downFiles = ((d.saveBelow ⟨"out"⟩ downFiles).1, none) :=
    Prod.ext rfl (by decide +kernel)
  have hbeside : ¬ Location.IsBelow ["s.json", "home"] (d.place ⟨"out"⟩) :=
    fun h => absurd h.length_lt (by decide +kernel)
  obtain ⟨hiff, hwritten, hkept⟩ := stays_below_iff hfiles d
  exact ⟨rfl, hfiles, hnames, hiff.mpr hnames, ⟨_, hsave, hwritten _ _ hsave⟩, hbeside,
    hkept hnames _ _ hbeside⟩

/-- A document whose name leads out of the directory. -/
def upLog : List Command :=
  [⟨"../user", 1, .declare [⟨"id", .string, none⟩]⟩]

/-- The schema that `upLog` leads to. -/
def upSchema : Schema :=
  ⟨⟨1, upLog.map Step.ofCommand⟩, [⟨"../user", [⟨"id", .string, none⟩], 1⟩]⟩

/-- The module of the document is written beside the output directory. -/
theorem written_beside :
    let d := Disk.empty ["home"]
    let file : GeneratedFile := ⟨"../user.migrations.ts", UpcastModule.text ⟨"../user", 1, []⟩⟩
    replay .nonDecreasing upLog = .ok upSchema
      ∧ upSchema.upcastFiles = .ok [file, indexFile ["../user"]]
      ∧ (∃ d', d.saveBelow ⟨"out"⟩ [file, indexFile ["../user"]] = (d', none)
          ∧ d'.file? (Path.join ⟨"out"⟩ file.name) = some (.text file.text))
      ∧ d.place (Path.join ⟨"out"⟩ file.name) = ["user.migrations.ts", "home"]
      ∧ ¬ Location.IsBelow ["user.migrations.ts", "home"] (d.place ⟨"out"⟩) := by
  intro d file
  have hsave : d.saveBelow ⟨"out"⟩ [file, indexFile ["../user"]]
      = ((d.saveBelow ⟨"out"⟩ [file, indexFile ["../user"]]).1, none) :=
    Prod.ext rfl (by decide +kernel)
  have hindex : d.place (Path.join ⟨"out"⟩ (indexFile ["../user"]).name)
      ≠ d.place (Path.join ⟨"out"⟩ file.name) := by decide +kernel
  have hlast : d.lastAt ⟨"out"⟩ [file, indexFile ["../user"]]
      (d.place (Path.join ⟨"out"⟩ file.name)) = some file := by
    rw [lastAt_cons, lastAt_cons, if_neg hindex, if_pos rfl]
    rfl
  exact ⟨rfl, by rfl, ⟨_, hsave, file?_of_saveBelow hsave List.mem_cons_self hlast⟩,
    by decide +kernel, fun h => absurd h.length_lt (by decide +kernel)⟩

/-- Where names are contained, places are distinct exactly if the ways to them are. -/
theorem nodup_places_iff_routes (hnames : ∀ doc ∈ s.documents, Path.isContained doc.name) (d : Disk)
    (directory : Path) :
    (s.documents.map fun doc => d.place (directory.join (fileName doc.name))).Nodup
      ↔ (s.documents.map fun doc => route (fileName doc.name)).Nodup := by
  have hplaces : (s.documents.map fun doc => d.place (directory.join (fileName doc.name)))
      = (s.documents.map fun doc => route (fileName doc.name)).map (· ++ d.place directory) := by
    rw [List.map_map]
    exact List.map_congr_left fun doc hdoc => place_of_isContained (namesFile_fileName doc.name)
      ((isContained_fileName doc.name).trans (hnames doc hdoc))
  rw [hplaces, List.nodup_map_iff (List.append_left_injective _)]

/-- Where no name has a slash, places are distinct because file names are. -/
theorem nodup_places_of_notMem (hfiles : s.upcastFiles = .ok files)
    (hslash : ∀ doc ∈ s.documents, '/' ∉ doc.name.toList) (d : Disk) (directory : Path) :
    (s.documents.map fun doc => d.place (directory.join (fileName doc.name))).Nodup := by
  have hplaces : (s.documents.map fun doc => d.place (directory.join (fileName doc.name)))
      = (s.documents.map fun doc => fileName doc.name).map (· :: d.place directory) := by
    rw [List.map_map]
    exact List.map_congr_left fun doc hdoc =>
      place_fileName_of_notMem (hslash doc hdoc) d directory
  obtain ⟨modules, hmodules, -⟩ := exists_moduleFiles hfiles
  rw [hplaces]
  exact (nodup_fileNames hmodules).map fun _ _ h => (List.cons.inj h).1

/-- **Each generated file is held exactly if no two documents have one place.**  Otherwise a file
holds what the last of the documents with its place has brought.  Where the names are contained, the
places are told apart by the names alone, and where no name has a slash they are always distinct. -/
theorem each_held_iff (hfiles : s.upcastFiles = .ok files) {d d' : Disk} {directory : Path}
    (hsave : d.saveBelow directory files = (d', none)) :
    (∀ file ∈ files, ∃ last ∈ files,
        d.lastAt directory files (d.place (directory.join file.name)) = some last
          ∧ d'.file? (directory.join file.name) = some (.text last.text))
      ∧ (d'.HoldsEach directory files
          ↔ (s.documents.map fun doc => d.place (directory.join (fileName doc.name))).Nodup)
      ∧ ((∀ doc ∈ s.documents, Path.isContained doc.name) →
          (d'.HoldsEach directory files
            ↔ (s.documents.map fun doc => route (fileName doc.name)).Nodup))
      ∧ ((∀ doc ∈ s.documents, '/' ∉ doc.name.toList) → d'.HoldsEach directory files) := by
  have hheld := (holdsEach_iff_nodup hsave).trans (nodup_places_iff hfiles d directory)
  refine ⟨fun file hfile => ?_, hheld,
    fun hnames => hheld.trans (nodup_places_iff_routes hnames d directory),
    fun hslash => hheld.mpr (nodup_places_of_notMem hfiles hslash d directory)⟩
  obtain ⟨last, hmem, hlast⟩ := exists_lastAt d directory hfile
  exact ⟨last, hmem, hlast, file?_of_saveBelow hsave hfile hlast⟩

/-- The files that are generated for `orderSchema`. -/
def orderFiles : List GeneratedFile :=
  [⟨"order.migrations.ts", UpcastModule.text ⟨"Order", 2, []⟩⟩,
    ⟨"order_line.migrations.ts",
      UpcastModule.text ⟨"order_line", 2, [⟨1, ⟨2, [.rename "price" "amount"]⟩⟩]⟩⟩,
    indexFile ["Order", "order_line"]]

theorem each_held_iff_orderSchema :
    let d := Disk.empty ["home"]
    replay .nonDecreasing orderLog = .ok orderSchema ∧ orderSchema.upcastFiles = .ok orderFiles
      ∧ (∀ doc ∈ orderSchema.documents, Path.isContained doc.name)
      ∧ (∀ doc ∈ orderSchema.documents, '/' ∉ doc.name.toList)
      ∧ (orderSchema.documents.map fun doc => route (fileName doc.name)).Nodup
      ∧ ∃ d', d.saveBelow ⟨"out"⟩ orderFiles = (d', none) ∧ d'.HoldsEach ⟨"out"⟩ orderFiles
        ∧ (orderSchema.documents.map fun doc =>
            d.place (Path.join ⟨"out"⟩ (fileName doc.name))).Nodup
        ∧ ∀ file ∈ orderFiles, ∃ last ∈ orderFiles,
          d.lastAt ⟨"out"⟩ orderFiles (d.place (Path.join ⟨"out"⟩ file.name)) = some last
            ∧ d'.file? (Path.join ⟨"out"⟩ file.name) = some (.text last.text) := by
  intro d
  have hfiles : orderSchema.upcastFiles = .ok orderFiles := by rfl
  have hnames : ∀ doc ∈ orderSchema.documents, Path.isContained doc.name := by decide +kernel
  have hslash : ∀ doc ∈ orderSchema.documents, '/' ∉ doc.name.toList := by decide +kernel
  have hsave : d.saveBelow ⟨"out"⟩ orderFiles = ((d.saveBelow ⟨"out"⟩ orderFiles).1, none) :=
    Prod.ext rfl (by decide +kernel)
  obtain ⟨hlast, hiff, hroutes, hheld⟩ := each_held_iff hfiles hsave
  exact ⟨rfl, hfiles, hnames, hslash, (hroutes hnames).mp (hheld hslash), _, hsave, hheld hslash,
    hiff.mp (hheld hslash), hlast⟩

/-- Two documents of which the second one has the name of the first one, written in another way. -/
def twinLog : List Command :=
  [⟨"user", 1, .declare [⟨"id", .string, none⟩]⟩, ⟨"./user", 1, .declare [⟨"id", .string, none⟩]⟩]

/-- The schema that `twinLog` leads to. -/
def twinSchema : Schema :=
  ⟨⟨1, twinLog.map Step.ofCommand⟩,
    [⟨"user", [⟨"id", .string, none⟩], 1⟩, ⟨"./user", [⟨"id", .string, none⟩], 1⟩]⟩

/-- The module of the first document is overwritten by that of the second one. -/
theorem overwritten_module :
    let d := Disk.empty ["home"]
    let first : GeneratedFile := ⟨"user.migrations.ts", UpcastModule.text ⟨"user", 1, []⟩⟩
    let second : GeneratedFile := ⟨"./user.migrations.ts", UpcastModule.text ⟨"./user", 1, []⟩⟩
    let files := [first, second, indexFile ["user", "./user"]]
    replay .nonDecreasing twinLog = .ok twinSchema ∧ twinSchema.upcastFiles = .ok files
      ∧ ∃ d', d.saveBelow ⟨"out"⟩ files = (d', none)
        ∧ d'.file? (Path.join ⟨"out"⟩ first.name) = some (.text second.text)
        ∧ second.text ≠ first.text := by
  intro d first second files
  have hsave : d.saveBelow ⟨"out"⟩ files = ((d.saveBelow ⟨"out"⟩ files).1, none) :=
    Prod.ext rfl (by decide +kernel)
  have hindex : d.place (Path.join ⟨"out"⟩ (indexFile ["user", "./user"]).name)
      ≠ d.place (Path.join ⟨"out"⟩ first.name) := by decide +kernel
  have hsame : d.place (Path.join ⟨"out"⟩ second.name)
      = d.place (Path.join ⟨"out"⟩ first.name) := by decide +kernel
  have hlast : d.lastAt ⟨"out"⟩ files (d.place (Path.join ⟨"out"⟩ first.name)) = some second := by
    rw [lastAt_cons, lastAt_cons, lastAt_cons, if_neg hindex, if_pos hsame]
    rfl
  exact ⟨rfl, by rfl, _, hsave, file?_of_saveBelow hsave List.mem_cons_self hlast,
    by decide +kernel⟩

end Schema

end SchemaLog
