import SchemaLog.Proofs.EntryPoint
import SchemaLog.Proofs.Faults
import Mathlib.Data.List.Infix
import Mathlib.Data.List.Lattice
import Mathlib.Data.List.Pairwise

/-!
# Proofs/Exports — what the modules of two documents export

    CartRecord        migrateCart_v1_to_v2        migrateCartRecord        CART_SCHEMA_VERSION
    OrderRecord       migrateOrder_v1_to_v2       migrateOrderRecord       ORDER_SCHEMA_VERSION

An index exports all modules side by side, so that no identifier may come from two of them.  Type
names are claimed and hence distinct.  The kind of an identifier can be told from its end, and from
three of the kinds the type name can be read off; a constant holds it in upper case only.  So two
modules share nothing but a constant (`eq_versionConstant_of_mem_exports`), and that only if their
type names are the same in upper case.
-/

namespace SchemaLog

namespace UpcastModule

variable {m m' : UpcastModule} {t u : Transition} {name : String}

theorem mem_exports :
    name ∈ m.exports ↔ name = m.recordType ∨ (∃ t ∈ m.transitions, m.functionName t = name)
      ∨ name = m.versionConstant ∨ name = m.entryPoint := by
  simp only [exports, List.mem_cons, List.cons_append, List.mem_append, List.mem_map,
    List.not_mem_nil, or_false]

/-! ## Exports in the text -/

/-- The line exports the identifier: a word for its kind stands in front of it, and a value or
parameters follow. -/
def LineExports (line name : String) : Prop :=
  ∃ kind ∈ ["export type ", "export function ", "export const "], ∃ mark ∈ [" = ", "(record: "],
    ∃ rest, line = kind ++ name ++ mark ++ rest

/-- **Every exported identifier has a line in the text that exports it.** -/
theorem exists_line_of_mem_exports (h : name ∈ m.exports) :
    ∃ line, LineExports line name ∧ m.Prints [line] := by
  have hprints {line : String} (hline : line ∈ m.lines) : m.Prints [line] :=
    prints_of_infix ((List.singleton_infix_iff _ _).mpr hline)
  have hheader {line : String} (hline : line ∈ m.headerLines) : m.Prints [line] :=
    hprints (List.mem_append_left _ (List.mem_append_left _ hline))
  have hentry {line : String} (hline : line ∈ m.entryLines) : m.Prints [line] :=
    hprints (List.mem_append_right _ hline)
  rcases mem_exports.mp h with rfl | ⟨t, ht, rfl⟩ | rfl | rfl
  · refine ⟨"export type " ++ m.recordType ++ " = " ++ "Record<string, unknown>;",
      ⟨"export type ", by simp, " = ", by simp, _, rfl⟩, hheader ?_⟩
    rw [String.append_assoc]
    simp [headerLines]
  · refine ⟨"export function " ++ m.functionName t ++ "(record: "
      ++ (m.recordType ++ "): " ++ m.recordType ++ " \x7b"),
      ⟨"export function ", by simp, "(record: ", by simp, _, rfl⟩, hprints ?_⟩
    refine List.mem_append_left _ (List.mem_append_right _ (List.mem_flatMap.mpr ⟨t, ht, ?_⟩))
    simp [functionLines, String.append_assoc]
  · refine ⟨"export const " ++ m.versionConstant ++ " = " ++ (m.currentVersion.text ++ ";"),
      ⟨"export const ", by simp, " = ", by simp, _, rfl⟩, hentry ?_⟩
    simp [entryLines, String.append_assoc]
  · refine ⟨"export function " ++ m.entryPoint ++ "(record: "
      ++ (m.recordType ++ ", storedVersion: number): " ++ m.recordType ++ " \x7b"),
      ⟨"export function ", by simp, "(record: ", by simp, _, rfl⟩, hentry ?_⟩
    simp [entryLines, String.append_assoc]

/-! ## Exports apart -/

theorem typeName_of_recordType_eq (h : m.recordType = m'.recordType) :
    m.typeName = m'.typeName :=
  (String.append_left_inj _).mp h

theorem typeName_of_entryPoint_eq (h : m.entryPoint = m'.entryPoint) :
    m.typeName = m'.typeName :=
  (String.append_right_inj _).mp ((String.append_left_inj _).mp h)

theorem versionConstant_eq_iff :
    m.versionConstant = m'.versionConstant
      ↔ Identifier.screaming m.typeName = Identifier.screaming m'.typeName :=
  String.append_left_inj _

/-- In the name of a function the type name ends at the first underscore. -/
theorem takeWhile_functionName (m : UpcastModule) (t : Transition) :
    ((m.functionName t).toList.drop 7).takeWhile (· != '_') = m.typeName.toList := by
  have hname : ∀ c ∈ m.typeName.toList, (c != '_') = true := by
    rintro c hc
    refine bne_iff_ne.mpr ?_
    rintro rfl
    exact Identifier.underscore_not_mem_pascalChars _ _ (m.toList_typeName ▸ hc)
  have hsplit : (m.functionName t).toList.drop 7
      = m.typeName.toList ++ '_' :: ("v".toList ++ t.source.text.toList ++ "_to_v".toList
        ++ t.stage.version.text.toList) := by
    simp only [functionName, String.toList_append, List.append_assoc]
    rfl
  rw [hsplit, List.takeWhile_append_of_pos hname, List.takeWhile_cons_of_neg (by decide),
    List.append_nil]

theorem typeName_of_functionName_eq (h : m.functionName t = m'.functionName u) :
    m.typeName = m'.typeName := by
  refine String.toList_injective ?_
  rw [← takeWhile_functionName m t, ← takeWhile_functionName m' u, h]

/-- **The end of an identifier tells its kind.** -/
theorem kind_of_mem_exports (h : name ∈ m.exports) {c : Char} (hc : ending name = some c) :
    (c.isDigit → ∃ t, m.functionName t = name) ∧ (c = 'N' → name = m.versionConstant)
      ∧ (c = 'd' → name = m.recordType ∨ name = m.entryPoint) := by
  rcases mem_exports.mp h with rfl | ⟨t, -, rfl⟩ | rfl | rfl
  · obtain rfl := Option.some.inj ((ending_recordType m).symm.trans hc)
    exact ⟨fun h => absurd h (by decide), fun h => absurd h (by decide), fun _ => .inl rfl⟩
  · obtain ⟨c', hc', hdigit⟩ := ending_functionName (m := m) t
    obtain rfl := Option.some.inj (hc'.symm.trans hc)
    refine ⟨fun _ => ⟨t, rfl⟩, ?_, ?_⟩ <;> rintro rfl <;> exact absurd hdigit (by decide)
  · obtain rfl := Option.some.inj ((ending_versionConstant m).symm.trans hc)
    exact ⟨fun h => absurd h (by decide), fun _ => rfl, fun h => absurd h (by decide)⟩
  · obtain rfl := Option.some.inj ((ending_entryPoint m).symm.trans hc)
    exact ⟨fun h => absurd h (by decide), fun h => absurd h (by decide), fun _ => .inr rfl⟩

/-- **Two modules share nothing but their constants**, if their type names are distinct. -/
theorem eq_versionConstant_of_mem_exports (hne : m.typeName ≠ m'.typeName)
    (h : name ∈ m.exports) (h' : name ∈ m'.exports) :
    name = m.versionConstant ∧ name = m'.versionConstant := by
  rcases mem_exports.mp h with rfl | ⟨t, -, rfl⟩ | rfl | rfl
  · rcases (kind_of_mem_exports h' (ending_recordType m)).2.2 rfl with heq | heq
    · exact absurd (typeName_of_recordType_eq heq) hne
    · exact absurd heq (recordType_ne_entryPoint m m')
  · obtain ⟨c, hc, hdigit⟩ := ending_functionName (m := m) t
    obtain ⟨u, hu⟩ := (kind_of_mem_exports h' hc).1 hdigit
    exact absurd (typeName_of_functionName_eq hu.symm) hne
  · exact ⟨rfl, (kind_of_mem_exports h' (ending_versionConstant m)).2.1 rfl⟩
  · rcases (kind_of_mem_exports h' (ending_entryPoint m)).2.2 rfl with heq | heq
    · exact absurd heq.symm (recordType_ne_entryPoint m' m)
    · exact absurd (typeName_of_entryPoint_eq heq) hne

/-! ## Claims -/

/-- The names that documents claim, in order. -/
def claimedNames (documents : List Document) : List String :=
  documents.flatMap fun d => [moduleName d.name, Identifier.pascal d.name]

theorem claimName_eq_ok {claims claims' : Claims} {document : String}
    (h : claimName claims document name = .ok claims') :
    name ∉ claims.map Prod.fst ∧ claims' = (name, document) :: claims := by
  rw [claimName] at h
  split at h
  · cases h
  · next hnone =>
    obtain rfl := Except.ok.inj h
    refine ⟨fun hmem => ?_, rfl⟩
    obtain ⟨e, he, rfl⟩ := List.mem_map.mp hmem
    exact bne_iff_ne.mp (List.lookup_eq_none_iff.mp hnone e he) rfl

/-- **Claimed names are new**, and the file name of a document is not its type name. -/
theorem claim_eq_ok {claims claims' : Claims} {document : String}
    (h : claim claims document = .ok claims') :
    moduleName document ∉ claims.map Prod.fst
      ∧ Identifier.pascal document ∉ moduleName document :: claims.map Prod.fst
      ∧ claims'.map Prod.fst
        = Identifier.pascal document :: moduleName document :: claims.map Prod.fst := by
  rw [claim] at h
  rcases hfile : claimName claims document (moduleName document) with fault | claims₁
  · rw [hfile] at h
    cases h
  · rw [hfile] at h
    obtain ⟨hnew, rfl⟩ := claimName_eq_ok hfile
    obtain ⟨hnew', rfl⟩ := claimName_eq_ok h
    exact ⟨hnew, hnew', rfl⟩

variable {h : History} {claims : Claims} {d : Document} {documents : List Document}
  {files : List GeneratedFile}

theorem exists_of_moduleFiles_cons {rest : List Document}
    (hfiles : moduleFiles h claims (d :: rest) = .ok files) :
    ∃ claims' m files', claim claims d.name = .ok claims' ∧ h.upcastModule d.name = .ok m
      ∧ moduleFiles h claims' rest = .ok files'
      ∧ files = ⟨fileName d.name, m.text⟩ :: files' := by
  rcases hclaim : claim claims d.name with fault | claims'
  · rw [moduleFiles_of_refused hclaim] at hfiles
    cases hfiles
  · rcases hm : h.upcastModule d.name with fault | m
    · rw [moduleFiles, hclaim, hm] at hfiles
      cases hfiles
    · rw [moduleFiles_of_claimed hclaim hm] at hfiles
      rcases hrest : moduleFiles h claims' rest with fault | files'
      · rw [hrest] at hfiles
        cases hfiles
      · rw [hrest] at hfiles
        exact ⟨claims', m, files', rfl, rfl, hrest, (Except.ok.inj hfiles).symm⟩

/-- **Where modules are generated, no name is claimed twice.** -/
theorem nodup_claimedNames :
    ∀ {documents : List Document} {claims : Claims} {files : List GeneratedFile},
      moduleFiles h claims documents = .ok files →
        (claimedNames documents).Nodup
          ∧ ∀ name ∈ claimedNames documents, name ∉ claims.map Prod.fst
  | [], _, _, _ => ⟨List.nodup_nil, fun _ hname => absurd hname List.not_mem_nil⟩
  | d :: rest, claims, files, hfiles => by
    obtain ⟨claims', m, files', hclaim, -, hrest, -⟩ := exists_of_moduleFiles_cons hfiles
    obtain ⟨hmodule, hpascal, hnames⟩ := claim_eq_ok hclaim
    obtain ⟨ih, hnew⟩ := nodup_claimedNames hrest
    rw [hnames] at hnew
    simp only [List.mem_cons, not_or] at hpascal hnew
    have hnodup : (moduleName d.name :: Identifier.pascal d.name :: claimedNames rest).Nodup := by
      simp only [List.nodup_cons, List.mem_cons, not_or]
      exact ⟨⟨Ne.symm hpascal.1, fun hmem => (hnew _ hmem).2.1 rfl⟩,
        fun hmem => (hnew _ hmem).1 rfl, ih⟩
    refine ⟨hnodup, ?_⟩
    refine List.forall_mem_cons.mpr ⟨hmodule, List.forall_mem_cons.mpr ⟨hpascal.2, ?_⟩⟩
    exact fun name hname => (hnew name hname).2.2

theorem fileName_ne_index (document : String) : fileName document ≠ "index.ts" := by
  intro h
  have hlength := congrArg String.length h
  have hending : ".migrations".length = 11 := rfl
  have hkind : ".ts".length = 3 := rfl
  have hindex : "index.ts".length = 8 := rfl
  rw [fileName, moduleName, String.length_append, String.length_append, hending, hkind,
    hindex] at hlength
  omega

theorem map_fileName_sublist (documents : List Document) :
    (documents.map fun d => moduleName d.name).Sublist (claimedNames documents) := by
  induction documents with
  | nil => exact .slnil
  | cons d rest ih => exact (ih.cons _).cons_cons _

/-- The files of all modules have names of their own. -/
theorem nodup_fileNames (hfiles : moduleFiles h claims documents = .ok files) :
    (documents.map fun d => fileName d.name).Nodup := by
  have hnodup := (map_fileName_sublist documents).nodup (nodup_claimedNames hfiles).1
  have hmap : documents.map (fun d => fileName d.name)
      = (documents.map fun d => moduleName d.name).map (· ++ ".ts") := by
    rw [List.map_map]
    rfl
  rw [hmap]
  exact hnodup.map fun _ _ => (String.append_left_inj ".ts").mp

/-- The file of a document's module. -/
def IsModuleFile (h : History) (d : Document) (file : GeneratedFile) : Prop :=
  ∃ m, h.upcastModule d.name = .ok m ∧ file = ⟨fileName d.name, m.text⟩

/-- **Where modules are generated, each document has one file**, in order. -/
theorem forall₂_moduleFiles :
    ∀ {documents : List Document} {claims : Claims} {files : List GeneratedFile},
      moduleFiles h claims documents = .ok files → List.Forall₂ (IsModuleFile h) documents files
  | [], _, _, hfiles => by
    cases hfiles
    exact .nil
  | d :: rest, claims, files, hfiles => by
    obtain ⟨claims', m, files', -, hm, hrest, rfl⟩ := exists_of_moduleFiles_cons hfiles
    exact .cons ⟨m, hm, rfl⟩ (forall₂_moduleFiles hrest)

theorem map_name_of_moduleFiles (hfiles : moduleFiles h claims documents = .ok files) :
    files.map GeneratedFile.name = documents.map fun d => fileName d.name := by
  have hall := forall₂_moduleFiles hfiles
  clear hfiles
  induction hall with
  | nil => rfl
  | cons hfile _ ih =>
    obtain ⟨m, -, rfl⟩ := hfile
    rw [List.map_cons, List.map_cons, ih]

/-- Each document has its module among the files. -/
theorem exists_module_of_moduleFiles (hfiles : moduleFiles h claims documents = .ok files) :
    ∀ d ∈ documents, ∃ m, h.upcastModule d.name = .ok m ∧ ⟨fileName d.name, m.text⟩ ∈ files := by
  have hall := forall₂_moduleFiles hfiles
  clear hfiles
  induction hall with
  | nil => exact List.forall_mem_nil _
  | cons hfile _ ih =>
    obtain ⟨m, hm, rfl⟩ := hfile
    refine List.forall_mem_cons.mpr ⟨⟨m, hm, List.mem_cons_self⟩, fun d hd => ?_⟩
    obtain ⟨m', hm', hmem⟩ := ih d hd
    exact ⟨m', hm', List.mem_cons_of_mem _ hmem⟩

/-- Two documents whose modules are generated have distinct type names. -/
theorem pascal_ne_of_moduleFiles (hfiles : moduleFiles h claims documents = .ok files)
    {d₁ d₂ : Document} (hd₁ : d₁ ∈ documents) (hd₂ : d₂ ∈ documents) (hne : d₁ ≠ d₂) :
    Identifier.pascal d₁.name ≠ Identifier.pascal d₂.name := by
  obtain ⟨hnodup, -⟩ := nodup_claimedNames hfiles
  have hdisjoint := (List.nodup_flatMap.mp hnodup).2
  have hsymm : Std.Symm (Function.onFun List.Disjoint fun d : Document =>
      [moduleName d.name, Identifier.pascal d.name]) := ⟨fun _ _ => List.Disjoint.symm⟩
  intro heq
  have hmem (d : Document) :
      Identifier.pascal d.name ∈ [moduleName d.name, Identifier.pascal d.name] :=
    List.mem_cons_of_mem _ List.mem_cons_self
  exact hdisjoint.forall hd₁ hd₂ hne (hmem d₁) (heq ▸ hmem d₂)

/-- What holds of a document's module among the files of a schema. -/
structure IsGenerated (s : Schema) (files : List GeneratedFile) (d : Document)
    (m : UpcastModule) : Prop where
  upcastModule_eq : s.upcastModule d.name = .ok m
  mem_files : ⟨fileName d.name, m.text⟩ ∈ files
  /-- The text has a line for each identifier that the module exports. -/
  written : ∀ name ∈ m.exports, ∃ line, LineExports line name ∧ m.Prints [line]

end UpcastModule

/-! ## Schemas -/

namespace History

variable {h : History} {document : String} {version : Version} {p : Plan} {m : UpcastModule}

theorem exists_plan_of_upcastModule (hm : h.upcastModule document = .ok m) :
    ∃ declared p, h.plan document declared = .ok p ∧ m = .ofPlan p := by
  rw [upcastModule] at hm
  split at hm
  · cases hm
  · next declared _ =>
    rcases hp : h.plan document declared with fault | p
    · rw [hp] at hm
      cases hm
    · rw [hp] at hm
      exact ⟨declared, p, hp, (Except.ok.inj hm).symm⟩

/-- The module for a document is made of its name. -/
theorem typeName_of_upcastModule (hm : h.upcastModule document = .ok m) :
    m.typeName = Identifier.pascal document := by
  obtain ⟨declared, p, hp, rfl⟩ := exists_plan_of_upcastModule hm
  exact congrArg (fun p : Plan => Identifier.pascal p.document) (eq_of_plan hp)

end History

namespace Schema

open UpcastModule Evolution

/-- The index is put behind the modules. -/
theorem exists_moduleFiles {s : Schema} {files : List GeneratedFile}
    (hfiles : s.upcastFiles = .ok files) :
    ∃ modules, moduleFiles s.toHistory [] s.documents = .ok modules
      ∧ files = modules ++ [indexFile (s.documents.map Document.name)] := by
  rw [upcastFiles] at hfiles
  rcases hmodules : moduleFiles s.toHistory [] s.documents with fault | modules
  · rw [hmodules] at hfiles
    cases hfiles
  · rw [hmodules] at hfiles
    exact ⟨modules, rfl, (Except.ok.inj hfiles).symm⟩

/-- **The generated files have names of their own**, the index among them. -/
theorem nodup_names_of_upcastFiles {s : Schema} {files : List GeneratedFile}
    (hfiles : s.upcastFiles = .ok files) : (files.map GeneratedFile.name).Nodup := by
  obtain ⟨modules, hmodules, rfl⟩ := exists_moduleFiles hfiles
  rw [List.map_append, map_name_of_moduleFiles hmodules]
  refine List.nodup_append.mpr ⟨nodup_fileNames hmodules, List.nodup_singleton _, ?_⟩
  intro name hname other hother
  obtain ⟨d, -, rfl⟩ := List.mem_map.mp hname
  exact List.mem_singleton.mp hother ▸ fileName_ne_index d.name

/-- **The modules of two documents share at most the name of a constant**, and that exactly if their
type names are the same in upper case, which they are not if upper case can be undone in the names
of both documents. -/
theorem exports_apart {s : Schema} {files : List GeneratedFile} (hfiles : s.upcastFiles = .ok files)
    {d₁ d₂ : Document} (hd₁ : d₁ ∈ s.documents) (hd₂ : d₂ ∈ s.documents) (hne : d₁ ≠ d₂) :
    ∃ m₁ m₂, IsGenerated s files d₁ m₁ ∧ IsGenerated s files d₂ m₂
      ∧ (∀ name ∈ m₁.exports, name ∈ m₂.exports →
          name = m₁.versionConstant ∧ name = m₂.versionConstant)
      ∧ (m₁.versionConstant ∈ m₂.exports
          ↔ Identifier.screaming (Identifier.pascal d₁.name)
            = Identifier.screaming (Identifier.pascal d₂.name))
      ∧ ((∀ c ∈ d₁.name.toList, Text.reversible c) → (∀ c ∈ d₂.name.toList, Text.reversible c) →
          m₁.exports.Disjoint m₂.exports) := by
  obtain ⟨modules, hmodules, rfl⟩ := exists_moduleFiles hfiles
  have hgenerated : ∀ d ∈ s.documents, ∃ m,
      IsGenerated s (modules ++ [indexFile (s.documents.map Document.name)]) d m
        ∧ m.typeName = Identifier.pascal d.name := by
    intro d hd
    obtain ⟨m, hm, hfile⟩ := exists_module_of_moduleFiles hmodules d hd
    exact ⟨m, ⟨hm, List.mem_append_left _ hfile, fun _ => exists_line_of_mem_exports⟩,
      History.typeName_of_upcastModule hm⟩
  obtain ⟨m₁, h₁, htype₁⟩ := hgenerated d₁ hd₁
  obtain ⟨m₂, h₂, htype₂⟩ := hgenerated d₂ hd₂
  have htypes : m₁.typeName ≠ m₂.typeName := by
    rw [htype₁, htype₂]
    exact pascal_ne_of_moduleFiles hmodules hd₁ hd₂ hne
  have hconstants : m₁.versionConstant ∈ m₂.exports
      ↔ Identifier.screaming (Identifier.pascal d₁.name)
        = Identifier.screaming (Identifier.pascal d₂.name) := by
    rw [← htype₁, ← htype₂, ← versionConstant_eq_iff]
    refine ⟨fun h => (kind_of_mem_exports h (ending_versionConstant m₁)).2.1 rfl, fun h => ?_⟩
    exact mem_exports.mpr (.inr (.inr (.inl h)))
  refine ⟨m₁, m₂, h₁, h₂, fun name => eq_versionConstant_of_mem_exports htypes, hconstants,
    fun hreversible₁ hreversible₂ name hname₁ hname₂ => ?_⟩
  obtain ⟨rfl, -⟩ := eq_versionConstant_of_mem_exports htypes hname₁ hname₂
  refine pascal_ne_of_moduleFiles hmodules hd₁ hd₂ hne ?_
  exact Identifier.pascal_eq_of_screaming_eq hreversible₁ hreversible₂ (hconstants.mp hname₂)

/-- An order and its lines. -/
def orderLog : List Command :=
  [⟨"Order", 1, .declare [⟨"total", .number, none⟩]⟩,
    ⟨"order_line", 1, .declare [⟨"price", .number, none⟩]⟩,
    ⟨"order_line", 2, .change (.rename "price" "amount")⟩]

/-- The schema that `orderLog` leads to. -/
def orderSchema : Schema :=
  ⟨⟨2, orderLog.map Step.ofCommand⟩,
    [⟨"Order", [⟨"total", .number, none⟩], 1⟩, ⟨"order_line", [⟨"amount", .number, none⟩], 1⟩]⟩

theorem exports_apart_orderLog :
    ∃ files m₁ m₂, replay .nonDecreasing orderLog = .ok orderSchema
      ∧ orderSchema.upcastFiles = .ok files
      ∧ orderSchema.upcastModule "Order" = .ok m₁ ∧ orderSchema.upcastModule "order_line" = .ok m₂
      ∧ m₁.exports = ["OrderRecord", "ORDER_SCHEMA_VERSION", "migrateOrderRecord"]
      ∧ m₂.exports = ["OrderLineRecord", "migrateOrderLine_v1_to_v2", "ORDER_LINE_SCHEMA_VERSION",
          "migrateOrderLineRecord"]
      ∧ m₁.exports.Disjoint m₂.exports := by
  have hok : orderSchema.upcastFiles.isOk := by decide +kernel
  rcases hfiles : orderSchema.upcastFiles with fault | files
  · rw [hfiles] at hok
    cases hok
  · obtain ⟨m₁, m₂, h₁, h₂, -, -, hdisjoint⟩ :=
      @exports_apart orderSchema files hfiles ⟨"Order", [⟨"total", .number, none⟩], 1⟩
        ⟨"order_line", [⟨"amount", .number, none⟩], 1⟩ (by decide) (by decide) (by decide)
    have hm₁ : m₁ = ⟨"Order", 2, []⟩ := (Except.ok.inj h₁.upcastModule_eq).symm
    have hm₂ : m₂ = ⟨"order_line", 2, [⟨1, ⟨2, [.rename "price" "amount"]⟩⟩]⟩ :=
      (Except.ok.inj h₂.upcastModule_eq).symm
    refine ⟨files, m₁, m₂, rfl, rfl, h₁.upcastModule_eq, h₂.upcastModule_eq, ?_, ?_, ?_⟩
    · rw [hm₁]
      decide +kernel
    · rw [hm₂]
      decide +kernel
    · exact hdisjoint (List.all_eq_true.mp (by decide +kernel))
        (List.all_eq_true.mp (by decide +kernel))

/-- Two German words, for dimensions and for a mass, that are the same in upper case. -/
def masseLog : List Command :=
  [⟨"Maße", 1, .declare [⟨"width", .number, none⟩]⟩,
    ⟨"Masse", 1, .declare [⟨"weight", .number, none⟩]⟩]

/-- The schema that `masseLog` leads to. -/
def masseSchema : Schema :=
  ⟨⟨1, masseLog.map Step.ofCommand⟩,
    [⟨"Maße", [⟨"width", .number, none⟩], 1⟩, ⟨"Masse", [⟨"weight", .number, none⟩], 1⟩]⟩

/-- Modules are generated for both documents, and they export one constant. -/
theorem shared_constant :
    replay .nonDecreasing masseLog = .ok masseSchema ∧ masseSchema.upcastFiles.isOk
      ∧ ∃ m₁ m₂, masseSchema.upcastModule "Maße" = .ok m₁
        ∧ masseSchema.upcastModule "Masse" = .ok m₂
        ∧ m₁.exports = ["MaßeRecord", "MASSE_SCHEMA_VERSION", "migrateMaßeRecord"]
        ∧ m₂.exports = ["MasseRecord", "MASSE_SCHEMA_VERSION", "migrateMasseRecord"] := by
  refine ⟨rfl, by decide +kernel, ⟨"Maße", 1, []⟩, ⟨"Masse", 1, []⟩, rfl, rfl, ?_, ?_⟩
    <;> decide +kernel

end Schema

end SchemaLog
