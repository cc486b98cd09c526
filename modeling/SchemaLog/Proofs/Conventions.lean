import SchemaLog.Proofs.Collisions

/-!
# Proofs/Conventions — conventional names do not collide

    OrderLine  ──snake──▸  order_line  ──pascal──▸  OrderLine

A name in Pascal case is its own Pascal case, and it comes back from its snake case
(`pascalChars_snakeChars`), if every letter comes back from the other case, as all of ASCII does.
So neither mapping takes two such names to one, and no type is named like a module, since the name
of a module holds a dot.  What is then generated is read off the text of the index again
(`exportedFiles_indexFile`).
-/

namespace SchemaLog

namespace Identifier

open Text

/-! ## Back from snake case -/

/-- A letter comes back from its lower case, which is no underscore. -/
theorem exists_lower_of_reversible {c : Char} (h : reversible c) (hupper : isUpper c = true) :
    ∃ l, lower c = [l] ∧ l ≠ '_' ∧ upper l = [c] := by
  obtain ⟨u, -, -, hbig, -⟩ := reversible_iff.mp h
  obtain ⟨l, image, hlower⟩ := List.exists_cons_of_ne_nil (lower_ne_nil c)
  have hback : upper l ++ upperAll image = [c] := by
    have := (hbig hupper).2
    rwa [hlower] at this
  -- Every letter has an upper case, so the image is a single one.
  have himage : image = [] := by
    rcases image with _ | ⟨l', image⟩
    · rfl
    · have hl := List.length_pos_iff.mpr (upper_ne_nil l)
      have hl' := List.length_pos_iff.mpr (upper_ne_nil l')
      have hlength := congrArg List.length hback
      rw [upperAll, List.flatMap_cons] at hlength
      simp only [List.length_append, List.length_singleton] at hlength
      omega
  rw [himage] at hlower hback
  have hl : upper l = [c] := (List.append_nil _).symm.trans hback
  refine ⟨l, hlower, ?_, hl⟩
  rintro rfl
  have hc : c = '_' := (List.singleton_inj.mp hl).symm
  exact absurd (hc ▸ hupper) (by decide)

theorem pascalChars_tail :
    ∀ {name : List Char}, (∀ c ∈ name, reversible c) → '_' ∉ name →
      pascalChars false (name.flatMap snakeLetter) = name
  | [], _, _ => rfl
  | c :: rest, h, hnot => by
    obtain ⟨hc, hrest⟩ := List.forall_mem_cons.mp h
    obtain ⟨hne, hnotRest⟩ := not_or.mp (mt List.mem_cons.mpr hnot)
    have ih := pascalChars_tail hrest hnotRest
    rw [List.flatMap_cons, snakeLetter]
    split
    · next hupper =>
      obtain ⟨l, hlower, hl, hback⟩ := exists_lower_of_reversible hc hupper
      rw [hlower, List.cons_append, pascalChars, if_pos rfl, List.singleton_append, pascalChars,
        if_neg hl, if_pos rfl, hback, ih]
      rfl
    · rw [List.singleton_append, pascalChars, if_neg (Ne.symm hne), if_neg Bool.false_ne_true, ih]

/-- **A name without underscores comes back from its snake case**, if its letters come back from the
other case and the first of them is its own upper case. -/
theorem pascalChars_snakeChars {name : List Char} (h : ∀ c ∈ name, reversible c) (hnot : '_' ∉ name)
    (hhead : ∀ c, name.head? = some c → upper c = [c]) :
    pascalChars true (snakeChars name) = name := by
  rcases name with _ | ⟨c, rest⟩
  · rfl
  · obtain ⟨hc, hrest⟩ := List.forall_mem_cons.mp h
    obtain ⟨hne, hnotRest⟩ := not_or.mp (mt List.mem_cons.mpr hnot)
    have htail := pascalChars_tail hrest hnotRest
    rw [snakeChars]
    split
    · next hupper =>
      obtain ⟨l, hlower, hl, hback⟩ := exists_lower_of_reversible hc hupper
      rw [hlower, List.singleton_append, pascalChars, if_neg hl, if_pos rfl, hback, htail]
      rfl
    · rw [List.singleton_append, pascalChars, if_neg (Ne.symm hne), if_pos rfl, hhead c rfl, htail]
      rfl

/-! ## Conventional names -/

/-- Whether a name is a capital letter with letters and digits behind it, all of them in ASCII. -/
def isConventional (name : String) : Bool :=
  match name.toList with
  | [] => false
  | c :: rest => c.isUpper && rest.all Char.isAlphanum

variable {name a b : String}

theorem isAlphanum_of_isUpper {c : Char} (h : c.isUpper) : c.isAlphanum :=
  Bool.or_eq_true_iff.mpr (.inl (Bool.or_eq_true_iff.mpr (.inl h)))

theorem exists_of_isConventional (h : isConventional name) :
    ∃ c rest, name.toList = c :: rest ∧ c.isUpper ∧ ∀ x ∈ c :: rest, x.isAlphanum := by
  rw [isConventional] at h
  split at h
  · cases h
  · next c rest hname =>
    rw [Bool.and_eq_true, List.all_eq_true] at h
    exact ⟨c, rest, hname, h.1, List.forall_mem_cons.mpr ⟨isAlphanum_of_isUpper h.1, h.2⟩⟩

theorem toNat_lt_of_isAlphanum {c : Char} (h : c.isAlphanum) : c.toNat < 0x80 := by
  have hbound {last : Char} (hle : c.val ≤ last.val) (hlast : last.toNat < 0x80) :
      c.toNat < 0x80 :=
    Nat.lt_of_le_of_lt (UInt32.le_iff_toNat_le.mp hle) hlast
  rcases Bool.or_eq_true_iff.mp h with hletter | hdigit
  · rcases Bool.or_eq_true_iff.mp hletter with hupper | hlower
    · exact @hbound 'Z' (of_decide_eq_true hupper).2 (by decide)
    · exact @hbound 'z' (of_decide_eq_true (Bool.and_eq_true_iff.mp hlower).2) (by decide)
  · exact @hbound '9' (of_decide_eq_true (Bool.and_eq_true_iff.mp hdigit).2) (by decide)

/-- A conventional name has letters and digits only. -/
theorem notMem_of_isConventional (h : isConventional name) {x : Char} (hx : x.isAlphanum = false) :
    x ∉ name.toList := by
  obtain ⟨c, rest, hname, -, hall⟩ := exists_of_isConventional h
  intro hmem
  rw [hname] at hmem
  exact absurd (hall x hmem) (hx ▸ Bool.false_ne_true)

theorem upper_eq_self_of_isUpper {c : Char} (h : c.isUpper) : upper c = [c] := by
  have hascii := toNat_lt_of_isAlphanum (isAlphanum_of_isUpper h)
  have hall : ∀ n < 0x80, (Char.ofNat n).isUpper → upper (Char.ofNat n) = [Char.ofNat n] := by
    decide +kernel
  have hc := hall c.toNat hascii
  rw [Char.ofNat_toNat] at hc
  exact hc h

/-- **A conventional name is its own Pascal case.** -/
theorem pascal_of_isConventional (h : isConventional name) : pascal name = name := by
  have hnot : '_' ∉ name.toList := notMem_of_isConventional h (by decide)
  obtain ⟨c, rest, hname, hupper, -⟩ := exists_of_isConventional h
  refine String.toList_injective ?_
  rw [toList_pascal, hname, pascalChars_true_of_notMem (hname ▸ hnot),
    upper_eq_self_of_isUpper hupper]
  rfl

/-- **A conventional name comes back from its snake case.** -/
theorem pascal_snake_of_isConventional (h : isConventional name) : pascal (snake name) = name := by
  have hnot : '_' ∉ name.toList := notMem_of_isConventional h (by decide)
  obtain ⟨c, rest, hname, hupper, hall⟩ := exists_of_isConventional h
  refine String.toList_injective ?_
  rw [toList_pascal, toList_snake]
  refine pascalChars_snakeChars (fun x hx => ?_) hnot fun x hx => ?_
  · exact reversible_of_ascii (toNat_lt_of_isAlphanum (hall x (hname ▸ hx)))
  · rw [hname, List.head?_cons, Option.some.injEq] at hx
    exact hx ▸ upper_eq_self_of_isUpper hupper

end Identifier

namespace UpcastModule

variable {a b : String}

/-- **Conventional names meet only if they are the same.** -/
theorem eq_of_meets (ha : Identifier.isConventional a) (hb : Identifier.isConventional b)
    (h : Meets a b) : a = b := by
  have hending {name : String} (hname : Identifier.isConventional name) :
      ¬ ".migrations".toList <:+ (Identifier.pascal name).toList := by
    rw [Identifier.pascal_of_isConventional hname]
    intro hsuffix
    have hdot : '.' ∈ ".migrations".toList := by decide
    exact Identifier.notMem_of_isConventional hname (by decide) (hsuffix.subset hdot)
  rcases (meets_iff_of_ending (hending ha) (hending hb)).mp h with h | h
  · rw [← Identifier.pascal_snake_of_isConventional ha, h,
      Identifier.pascal_snake_of_isConventional hb]
  · rwa [Identifier.pascal_of_isConventional ha, Identifier.pascal_of_isConventional hb] at h

/-! ## The index -/

/-- The file that a line of an index exports, if the line is an export. -/
def exportedFile? (line : List Char) : Option String :=
  match line.dropPrefix? "export * from './".toList with
  | none => none
  | some rest =>
    (rest.dropSuffix? "';".toList).map fun module => String.ofList module ++ ".ts"

/-- The files that an index exports, read off its text line by line. -/
def exportedFiles (index : String) : List String :=
  (index.toList.splitOn '\n').filterMap exportedFile?

theorem toList_append_append (a b c : String) :
    (a ++ b ++ c).toList = a.toList ++ (b.toList ++ c.toList) := by
  rw [String.toList_append, String.toList_append, List.append_assoc]

theorem toList_exportLine (document : String) : (exportLine document).toList
    = "export * from './".toList ++ ((moduleName document).toList ++ "';".toList) :=
  toList_append_append _ _ _

theorem exportedFile?_exportLine (document : String) :
    exportedFile? (exportLine document).toList = some (fileName document) := by
  have hfront : (exportLine document).toList.dropPrefix? "export * from './".toList
      = some ((moduleName document).toList ++ "';".toList) :=
    List.dropPrefix?_eq_some_iff.mpr ⟨_, toList_exportLine document, beq_self_eq_true _⟩
  have hback : ((moduleName document).toList ++ "';".toList).dropSuffix? "';".toList
      = some (moduleName document).toList :=
    List.dropSuffix?_eq_some_iff.mpr ⟨_, rfl, beq_self_eq_true _⟩
  rw [exportedFile?, hfront]
  simp only [hback, Option.map_some, String.ofList_toList]
  rfl

theorem toList_textOf_cons (line : String) (rest : List String) :
    (textOf (line :: rest)).toList = line.toList ++ '\n' :: (textOf rest).toList := by
  rw [textOf_cons]
  exact toList_append_append _ _ _

/-- The lines of a text are read off it again, with nothing behind the last one. -/
theorem splitOn_textOf : ∀ {lines : List String}, (∀ line ∈ lines, '\n' ∉ line.toList) →
    (textOf lines).toList.splitOn '\n' = lines.map String.toList ++ [[]]
  | [], _ => rfl
  | line :: rest, h => by
    obtain ⟨hline, hrest⟩ := List.forall_mem_cons.mp h
    rw [toList_textOf_cons, List.splitOn_append_cons_self_of_not_mem hline, splitOn_textOf hrest]
    rfl

/-- An export takes one line if the name of its document does. -/
theorem notMem_exportLine {document : String} (h : '\n' ∉ document.toList) :
    '\n' ∉ (exportLine document).toList := by
  have hmodule : '\n' ∉ (moduleName document).toList := by
    rw [toList_moduleName, List.mem_append, not_or]
    exact ⟨fun hmem => h (Identifier.mem_of_mem_snakeChars hmem (by decide) (by decide)), by decide⟩
  rw [toList_exportLine, List.mem_append, List.mem_append]
  exact not_or.mpr ⟨by decide, not_or.mpr ⟨hmodule, by decide⟩⟩

theorem exportedFiles_textOf {lines : List String} (h : ∀ line ∈ lines, '\n' ∉ line.toList) :
    exportedFiles (textOf lines) = lines.filterMap fun line => exportedFile? line.toList := by
  rw [exportedFiles, splitOn_textOf h, List.filterMap_append, List.filterMap_map]
  exact List.append_nil _

theorem filterMap_orBlank (lines : List String) :
    (orBlank lines).filterMap (fun line => exportedFile? line.toList)
      = lines.filterMap fun line => exportedFile? line.toList := by
  rcases lines with _ | ⟨line, rest⟩ <;> rfl

theorem notMem_of_mem_orBlank {lines : List String} (h : ∀ line ∈ lines, '\n' ∉ line.toList) :
    ∀ line ∈ orBlank lines, '\n' ∉ line.toList := by
  rcases lines with _ | ⟨line, rest⟩
  · decide
  · exact h

/-- **The index exports the files of all documents**, in order, if no name holds a line feed. -/
theorem exportedFiles_indexFile {documents : List String}
    (h : ∀ document ∈ documents, '\n' ∉ document.toList) :
    exportedFiles (indexFile documents).text = documents.map fileName := by
  have hexports : ∀ line ∈ documents.map exportLine, '\n' ∉ line.toList :=
    List.forall_mem_map.mpr fun document hdocument => notMem_exportLine (h document hdocument)
  rw [indexFile, exportedFiles_textOf
    (List.forall_mem_append.mpr ⟨by decide, notMem_of_mem_orBlank hexports⟩),
    List.filterMap_append, filterMap_orBlank, List.filterMap_map]
  simp only [Function.comp_def, exportedFile?_exportLine, List.filterMap_eq_map']
  rfl

end UpcastModule

namespace Schema

open UpcastModule

/-- Documents with conventional names do not meet. -/
theorem pairwise_apart_of_isConventional {policy : VersionPolicy} {cs : List Command} {s : Schema}
    (hreplay : replay policy cs = .ok s)
    (hnames : ∀ d ∈ s.documents, Identifier.isConventional d.name) :
    s.documents.Pairwise Apart := by
  refine (pairwise_apart_iff hreplay).mpr fun a ha b hb hne hmeets => hne ?_
  have hname := eq_of_meets (hnames a ha) (hnames b hb) hmeets
  exact List.inj_on_of_nodup_map (Evolution.nodup_documents_of_replay hreplay) ha hb hname

/-- **Conventional names are their own Pascal case and come back from their snake case.**  So the
files of documents with such names are always generated: one for each document, in order and under
names of their own, and behind them an index that exports exactly these files. -/
theorem generated_of_conventional :
    (∀ name : String, Identifier.isConventional name →
        Identifier.pascal name = name ∧ Identifier.pascal (Identifier.snake name) = name)
      ∧ ∀ (policy : VersionPolicy) (cs : List Command) (s : Schema), replay policy cs = .ok s →
          (∀ d ∈ s.documents, Identifier.isConventional d.name) →
            ∃ modules index, s.upcastFiles = .ok (modules ++ [index])
              ∧ List.Forall₂ (IsModuleFile s.toHistory) s.documents modules
              ∧ ((modules ++ [index]).map GeneratedFile.name).Nodup
              ∧ index.name = "index.ts"
              ∧ exportedFiles index.text = modules.map GeneratedFile.name := by
  refine ⟨fun name h => ⟨Identifier.pascal_of_isConventional h,
    Identifier.pascal_snake_of_isConventional h⟩, fun policy cs s hreplay hnames => ?_⟩
  have hapart := pairwise_apart_of_isConventional hreplay hnames
  rcases upcastFiles_cases hreplay with ⟨-, files, hfiles⟩ | ⟨first, second, hmeeting, -⟩
  · obtain ⟨modules, hmodules, rfl⟩ := exists_moduleFiles hfiles
    have hall := forall₂_moduleFiles hmodules
    have hlines : ∀ name ∈ s.documents.map Document.name, '\n' ∉ name.toList :=
      List.forall_mem_map.mpr fun d hd =>
        Identifier.notMem_of_isConventional (hnames d hd) (by decide)
    refine ⟨modules, _, hfiles, hall, nodup_names_of_upcastFiles hfiles, rfl, ?_⟩
    rw [exportedFiles_indexFile hlines, List.map_map, map_name_of_moduleFiles hmodules]
    rfl
  · exact absurd hapart hmeeting.not_pairwise

/-- Names with runs of capitals, with digits, and of a single letter. -/
def capitalLog : List Command :=
  [⟨"HTTPServer2", 1, .declare []⟩, ⟨"X", 1, .declare []⟩, ⟨"OrderLine", 2, .declare []⟩]

/-- The schema that `capitalLog` leads to. -/
def capitalSchema : Schema :=
  ⟨⟨2, capitalLog.map Step.ofCommand⟩,
    [⟨"HTTPServer2", [], 1⟩, ⟨"X", [], 1⟩, ⟨"OrderLine", [], 2⟩]⟩

theorem generated_of_conventional_capitalLog :
    Identifier.isConventional "HTTPServer2"
      ∧ Identifier.snake "HTTPServer2" = "h_t_t_p_server2"
      ∧ Identifier.pascal (Identifier.snake "HTTPServer2") = "HTTPServer2"
      ∧ replay .nonDecreasing capitalLog = .ok capitalSchema
      ∧ (∀ d ∈ capitalSchema.documents, Identifier.isConventional d.name)
      ∧ ∃ modules index, capitalSchema.upcastFiles = .ok (modules ++ [index])
        ∧ List.Forall₂ (IsModuleFile capitalSchema.toHistory) capitalSchema.documents modules
        ∧ ((modules ++ [index]).map GeneratedFile.name).Nodup
        ∧ index.name = "index.ts"
        ∧ exportedFiles index.text = modules.map GeneratedFile.name := by
  have hname : Identifier.isConventional "HTTPServer2" := by decide
  have hnames : ∀ d ∈ capitalSchema.documents, Identifier.isConventional d.name := by decide
  obtain ⟨hback, hfiles⟩ := generated_of_conventional
  refine ⟨hname, by decide +kernel, (hback _ hname).2, rfl, hnames, ?_⟩
  exact hfiles .nonDecreasing capitalLog capitalSchema rfl hnames

end Schema

end SchemaLog
