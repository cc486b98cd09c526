import SchemaLog.Proofs.Exports

/-!
# Proofs/Collisions — which documents collide

    document         module                     type
    OrderLine        order_line.migrations      OrderLine
    1                1.migrations               1
    1.migrations     1.migrations.migrations    1.migrations

Names of modules and of types are claimed in one list.  So two documents meet in it if they have one
snake case or one Pascal case, and also if the module of the one is named like the type of the other
(`Meets`), as in the last two lines.  No document meets itself (`moduleName_ne_pascal`): Pascal case
makes a name longer by two characters at most, and an ending is eleven.  What has been claimed is
what the documents in front claim (`Claimed`), and hence the first document that meets one in front
of it is refused (`moduleFiles_cases`).
-/

namespace SchemaLog

namespace Identifier

open Text

/-! ## Snake case makes no name shorter -/

/-- An underscore stays where it is in snake case. -/
theorem underscore_mem_snakeChars {name : List Char} (h : '_' ∈ name) : '_' ∈ snakeChars name := by
  have hletter : '_' ∈ snakeLetter '_' := by decide
  rcases name with _ | ⟨c, rest⟩
  · cases h
  · rw [snakeChars, List.mem_append]
    rcases List.mem_cons.mp h with rfl | hrest
    · exact .inl (by decide)
    · exact .inr (List.mem_flatMap.mpr ⟨'_', hrest, hletter⟩)

theorem length_le_length_snakeChars (name : List Char) :
    name.length ≤ (snakeChars name).length := by
  have hlower (c : Char) : 1 ≤ (lower c).length := List.length_pos_iff.mpr (lower_ne_nil c)
  have hrest (rest : List Char) : rest.length ≤ (rest.flatMap snakeLetter).length := by
    induction rest with
    | nil => exact Nat.le_refl 0
    | cons c rest ih =>
      have hletter : 1 ≤ (snakeLetter c).length := by
        rw [snakeLetter]
        split
        · exact Nat.le_add_left 1 _
        · exact Nat.le_refl 1
      rw [List.flatMap_cons, List.length_append, List.length_cons]
      omega
  rcases name with _ | ⟨c, rest⟩
  · exact Nat.le_refl 0
  · have hfirst : 1 ≤ (if isUpper c then lower c else [c]).length := by
      split
      · exact hlower c
      · exact Nat.le_refl 1
    have := hrest rest
    rw [snakeChars, List.length_append, List.length_cons]
    omega

end Identifier

namespace UpcastModule

/-! ## Documents that meet -/

/-- Two documents claim a name in common: both for their modules, both for their types, or the one
for its module and the other for its type. -/
def Meets (a b : String) : Prop :=
  Identifier.snake a = Identifier.snake b ∨ Identifier.pascal a = Identifier.pascal b
    ∨ moduleName a = Identifier.pascal b ∨ Identifier.pascal a = moduleName b

instance (a b : String) : Decidable (Meets a b) :=
  inferInstanceAs (Decidable (_ ∨ _))

/-- A name is claimed by a document. -/
def Takes (document name : String) : Prop :=
  name = moduleName document ∨ name = Identifier.pascal document

variable {a b document name : String}

theorem moduleName_eq_iff : moduleName a = moduleName b ↔ Identifier.snake a = Identifier.snake b :=
  String.append_left_inj _

theorem meets_iff : Meets a b ↔ ∃ name, Takes a name ∧ Takes b name := by
  rw [Meets, ← moduleName_eq_iff]
  constructor
  · rintro (h | h | h | h)
    · exact ⟨_, .inl rfl, .inl h⟩
    · exact ⟨_, .inr rfl, .inr h⟩
    · exact ⟨_, .inl rfl, .inr h⟩
    · exact ⟨_, .inr rfl, .inl h⟩
  · rintro ⟨name, rfl | rfl, h | h⟩
    · exact .inl h
    · exact .inr (.inr (.inl h))
    · exact .inr (.inr (.inr h))
    · exact .inr (.inl h)

theorem Meets.symm (h : Meets a b) : Meets b a := by
  obtain ⟨name, ha, hb⟩ := meets_iff.mp h
  exact meets_iff.mpr ⟨name, hb, ha⟩

theorem toList_moduleName (document : String) :
    (moduleName document).toList
      = Identifier.snakeChars document.toList ++ ".migrations".toList := by
  rw [moduleName, String.toList_append, Identifier.toList_snake]

/-- **The module of a document is not named like its type.** -/
theorem moduleName_ne_pascal (document : String) :
    moduleName document ≠ Identifier.pascal document := by
  intro h
  have hchars := congrArg String.toList h
  rw [toList_moduleName, Identifier.toList_pascal] at hchars
  have hlength := congrArg List.length hchars
  have hending : ".migrations".toList.length = 11 := rfl
  have hsnake := Identifier.length_le_length_snakeChars document.toList
  rw [List.length_append, hending] at hlength
  -- A type name has no underscore, so the document has none and is a single word.
  have hword : '_' ∉ document.toList := fun hmem =>
    Identifier.underscore_not_mem_pascalChars true document.toList
      (hchars ▸ List.mem_append_left _ (Identifier.underscore_mem_snakeChars hmem))
  rcases hname : document.toList with _ | ⟨c, rest⟩
  · rw [hname] at hlength
    cases hlength
  · rw [hname] at hword hlength hsnake
    rw [Identifier.pascalChars_true_of_notMem hword, List.length_append] at hlength
    have hupper := Text.length_upper_le c
    rw [List.length_cons] at hsnake
    omega

/-- **Where no type is named like a module**, documents meet in one snake case or in one Pascal
case. -/
theorem meets_iff_of_ending (ha : ¬ ".migrations".toList <:+ (Identifier.pascal a).toList)
    (hb : ¬ ".migrations".toList <:+ (Identifier.pascal b).toList) :
    Meets a b ↔ Identifier.snake a = Identifier.snake b
      ∨ Identifier.pascal a = Identifier.pascal b := by
  have hmodule (name : String) : ".migrations".toList <:+ (moduleName name).toList := by
    rw [toList_moduleName]
    exact List.suffix_append _ _
  refine ⟨?_, fun h => h.imp id .inl⟩
  rintro (h | h | h | h)
  · exact .inl h
  · exact .inr h
  · exact absurd (h ▸ hmodule a) hb
  · exact absurd (h ▸ hmodule b) ha

/-! ## Claims -/

variable {claims : Claims} {before documents : List Document} {h : History}

/-- A name is claimed if it is new, and else it is refused for a document that has claimed it. -/
theorem claimName_cases (claims : Claims) (document name : String) :
    (name ∉ claims.map Prod.fst
        ∧ claimName claims document name = .ok ((name, document) :: claims))
      ∨ ∃ first, (name, first) ∈ claims
        ∧ claimName claims document name
          = .error (.collision (fileName document) first document) := by
  rw [claimName]
  split
  · next first hlookup =>
    obtain ⟨front, back, rfl, -⟩ := List.lookup_eq_some_iff.mp hlookup
    exact .inr ⟨first, List.mem_append_right front List.mem_cons_self, rfl⟩
  · next hnone =>
    refine .inl ⟨fun hmem => ?_, rfl⟩
    obtain ⟨e, he, rfl⟩ := List.mem_map.mp hmem
    exact bne_iff_ne.mp (List.lookup_eq_none_iff.mp hnone e he) rfl

/-- **A document claims both of its names or is refused for one of them**; that its own names are
distinct is what makes this hold of the second. -/
theorem claim_cases (claims : Claims) (document : String) :
    ((∀ name, Takes document name → name ∉ claims.map Prod.fst)
        ∧ claim claims document = .ok ((Identifier.pascal document, document)
          :: (moduleName document, document) :: claims))
      ∨ ∃ name first, Takes document name ∧ (name, first) ∈ claims
        ∧ claim claims document = .error (.collision (fileName document) first document) := by
  rw [claim]
  rcases claimName_cases claims document (moduleName document) with
    ⟨hmodule, hok⟩ | ⟨first, hfirst, hfault⟩
  · rw [hok]
    rcases claimName_cases ((moduleName document, document) :: claims) document
      (Identifier.pascal document) with ⟨htype, hok'⟩ | ⟨first, hfirst, hfault⟩
    · rw [List.map_cons, List.mem_cons, not_or] at htype
      refine .inl ⟨?_, hok'⟩
      rintro name (rfl | rfl)
      · exact hmodule
      · exact htype.2
    · rcases List.mem_cons.mp hfirst with heq | hfirst
      · exact absurd (Prod.mk.inj heq).1.symm (moduleName_ne_pascal document)
      · exact .inr ⟨_, first, .inr rfl, hfirst, hfault⟩
  · rw [hfault]
    exact .inr ⟨_, first, .inl rfl, hfirst, rfl⟩

/-- What has been claimed is what the documents claim. -/
def Claimed (claims : Claims) (documents : List Document) : Prop :=
  ∀ name first, (name, first) ∈ claims ↔ ∃ d ∈ documents, d.name = first ∧ Takes first name

/-- Two documents do not meet. -/
def Apart (d e : Document) : Prop :=
  ¬ Meets d.name e.name

theorem claimed_nil : Claimed [] [] := by
  simp [Claimed]

theorem Claimed.concat (hclaimed : Claimed claims before) (d : Document) :
    Claimed ((Identifier.pascal d.name, d.name) :: (moduleName d.name, d.name) :: claims)
      (before ++ [d]) := by
  intro name first
  rw [List.mem_cons, List.mem_cons, hclaimed name first, Prod.mk.injEq, Prod.mk.injEq]
  constructor
  · rintro (⟨rfl, rfl⟩ | ⟨rfl, rfl⟩ | ⟨e, he, hfirst⟩)
    · exact ⟨d, List.mem_concat_self, rfl, .inr rfl⟩
    · exact ⟨d, List.mem_concat_self, rfl, .inl rfl⟩
    · exact ⟨e, List.mem_append_left _ he, hfirst⟩
  · rintro ⟨e, he, rfl, htakes⟩
    rcases List.mem_append.mp he with he | he
    · exact .inr (.inr ⟨e, he, rfl, htakes⟩)
    · obtain rfl := List.mem_singleton.mp he
      rcases htakes with rfl | rfl
      · exact .inr (.inl ⟨rfl, rfl⟩)
      · exact .inl ⟨rfl, rfl⟩

/-- **A document is refused exactly if it meets one in front of it.** -/
theorem Claimed.claim_cases (hclaimed : Claimed claims before) (d : Document) :
    ((∀ e ∈ before, Apart e d) ∧ ∃ claims', claim claims d.name = .ok claims'
        ∧ Claimed claims' (before ++ [d]))
      ∨ ∃ e ∈ before, Meets e.name d.name
        ∧ claim claims d.name = .error (.collision (fileName d.name) e.name d.name) := by
  rcases UpcastModule.claim_cases claims d.name with
    ⟨hnew, hok⟩ | ⟨name, first, htakes, hmem, hfault⟩
  · refine .inl ⟨fun e he hmeets => ?_, _, hok, hclaimed.concat d⟩
    obtain ⟨name, hname, hname'⟩ := meets_iff.mp hmeets
    have hmem := (hclaimed name e.name).mpr ⟨e, he, rfl, hname⟩
    exact hnew name hname' (List.mem_map.mpr ⟨_, hmem, rfl⟩)
  · obtain ⟨e, he, rfl, htakes'⟩ := (hclaimed name first).mp hmem
    exact .inr ⟨e, he, meets_iff.mpr ⟨name, htakes', htakes⟩, hfault⟩

/-! ## Collisions -/

/-- The second document is the first one that meets a document in front of it, and such a document
is the first. -/
def FirstMeeting (documents : List Document) (first second : String) : Prop :=
  ∃ front d back, documents = front ++ d :: back ∧ d.name = second ∧ front.Pairwise Apart
    ∧ ∃ e ∈ front, e.name = first ∧ Meets first second

/-- **Modules are generated if all documents are apart, and else the first two that meet collide.**
The induction is on the documents that are left; those in front are apart, and the claims are
theirs. -/
theorem moduleFiles_cases : ∀ {documents before : List Document} {claims : Claims},
    Claimed claims before → before.Pairwise Apart →
      (∀ d ∈ documents, ∃ m, h.upcastModule d.name = .ok m) →
        ((before ++ documents).Pairwise Apart
            ∧ ∃ files, moduleFiles h claims documents = .ok files)
          ∨ ∃ first second, FirstMeeting (before ++ documents) first second
            ∧ moduleFiles h claims documents = .error (.collision (fileName second) first second)
  | [], before, _, _, hapart, _ => .inl ⟨before.append_nil.symm ▸ hapart, [], rfl⟩
  | d :: rest, before, claims, hclaimed, hapart, hmodules => by
    obtain ⟨⟨m, hm⟩, hrest⟩ := List.forall_mem_cons.mp hmodules
    rcases hclaimed.claim_cases d with ⟨hnew, claims', hok, hclaimed'⟩ | ⟨e, he, hmeets, hfault⟩
    · have hapart' : (before ++ [d]).Pairwise Apart := by
        refine List.pairwise_append.mpr ⟨hapart, List.pairwise_singleton _ _, fun e he x hx => ?_⟩
        exact List.mem_singleton.mp hx ▸ hnew e he
      have ih := moduleFiles_cases hclaimed' hapart' hrest
      rw [List.append_assoc, List.singleton_append] at ih
      rw [moduleFiles_of_claimed hok hm]
      rcases ih with ⟨hall, files, hfiles⟩ | ⟨first, second, hmeeting, hfault⟩
      · exact .inl ⟨hall, _, by rw [hfiles]; rfl⟩
      · exact .inr ⟨first, second, hmeeting, by rw [hfault]; rfl⟩
    · exact .inr ⟨e.name, d.name, ⟨before, d, rest, rfl, rfl, hapart, e, he, rfl, hmeets⟩,
        moduleFiles_of_refused hfault rest⟩

theorem FirstMeeting.not_pairwise {first second : String}
    (hmeeting : FirstMeeting documents first second) : ¬ documents.Pairwise Apart := by
  obtain ⟨front, d, back, rfl, rfl, -, e, he, rfl, hmeets⟩ := hmeeting
  exact fun hapart => (List.pairwise_append.mp hapart).2.2 e he d List.mem_cons_self hmeets

end UpcastModule

namespace Schema

open UpcastModule

variable {policy : VersionPolicy} {cs : List Command} {s : Schema}

/-- The files of a replayed schema are generated if its documents are apart. -/
theorem upcastFiles_cases (hreplay : replay policy cs = .ok s) :
    (s.documents.Pairwise Apart ∧ ∃ files, s.upcastFiles = .ok files)
      ∨ ∃ first second, FirstMeeting s.documents first second
        ∧ s.upcastFiles = .error (.collision (fileName second) first second) := by
  have hmodules : ∀ d ∈ s.documents, ∃ m, s.upcastModule d.name = .ok m := fun d hd =>
    Evolution.exists_upcastModule_of_replay hreplay
      ((Evolution.document?_eq_some_iff_of_replay hreplay).mpr ⟨hd, rfl⟩)
  rcases moduleFiles_cases claimed_nil List.Pairwise.nil hmodules with
    ⟨hapart, files, hfiles⟩ | ⟨first, second, hmeeting, hfault⟩
  · exact .inl ⟨hapart, _, by rw [upcastFiles, hfiles]; rfl⟩
  · exact .inr ⟨first, second, hmeeting, by rw [upcastFiles, hfault]; rfl⟩

/-- Nothing but a collision keeps the modules of a replayed schema from being generated. -/
theorem exists_collision_of_fault {fault : UpcastFault} (hreplay : replay policy cs = .ok s)
    (hfault : s.upcastFiles = .error fault) :
    ∃ file first second, fault = .collision file first second := by
  rcases upcastFiles_cases hreplay with ⟨-, files, hfiles⟩ | ⟨first, second, -, hcollision⟩
  · cases hfault.symm.trans hfiles
  · cases hfault.symm.trans hcollision
    exact ⟨_, first, second, rfl⟩

/-- In a replayed schema the documents are apart exactly if no two of them meet. -/
theorem pairwise_apart_iff (hreplay : replay policy cs = .ok s) :
    s.documents.Pairwise Apart
      ↔ ∀ a ∈ s.documents, ∀ b ∈ s.documents, a ≠ b → ¬ Meets a.name b.name := by
  have hsymm : Std.Symm Apart := ⟨fun _ _ hapart hmeets => hapart hmeets.symm⟩
  have hnodup : s.documents.Nodup :=
    List.Nodup.of_map Document.name (Evolution.nodup_documents_of_replay hreplay)
  exact ⟨fun hapart a ha b hb hne => hapart.forall ha hb hne, hnodup.pairwise_of_forall_ne⟩

/-- **A collision is reported exactly if two documents meet**, and it is reported of the first one
that meets a document in front of it.  Where no type is named like a module, documents meet exactly
if they have one snake case or one Pascal case. -/
theorem collides_iff_meets (hreplay : replay policy cs = .ok s) :
    ((∃ file first second, s.upcastFiles = .error (.collision file first second))
        ↔ ∃ a ∈ s.documents, ∃ b ∈ s.documents, a ≠ b ∧ Meets a.name b.name)
      ∧ (∀ file first second, s.upcastFiles = .error (.collision file first second) →
          FirstMeeting s.documents first second ∧ file = fileName second)
      ∧ ((∀ d ∈ s.documents, ¬ ".migrations".toList <:+ (Identifier.pascal d.name).toList) →
          ∀ a ∈ s.documents, ∀ b ∈ s.documents,
            (Meets a.name b.name ↔ Identifier.snake a.name = Identifier.snake b.name
              ∨ Identifier.pascal a.name = Identifier.pascal b.name)) := by
  have hending := fun (h : ∀ d ∈ s.documents,
      ¬ ".migrations".toList <:+ (Identifier.pascal d.name).toList) a ha b hb =>
    meets_iff_of_ending (h a ha) (h b hb)
  have hapart := pairwise_apart_iff hreplay
  rcases upcastFiles_cases hreplay with
    ⟨hall, files, hfiles⟩ | ⟨first, second, hmeeting, hfault⟩
  · refine ⟨iff_of_false ?_ ?_, ?_, hending⟩
    · rintro ⟨file, first, second, hfault⟩
      cases hfiles.symm.trans hfault
    · rintro ⟨a, ha, b, hb, hne, hmeets⟩
      exact hapart.mp hall a ha b hb hne hmeets
    · intro file first second hfault
      cases hfiles.symm.trans hfault
  · refine ⟨iff_of_true ⟨_, first, second, hfault⟩ ?_, ?_, hending⟩
    · by_contra hnone
      refine hmeeting.not_pairwise (hapart.mpr fun a ha b hb hne hmeets => ?_)
      exact hnone ⟨a, ha, b, hb, hne, hmeets⟩
    · intro file first' second' hfault'
      cases hfault.symm.trans hfault'
      exact ⟨hmeeting, rfl⟩

/-- Four documents of which the last two meet the first in different names. -/
def meetingLog : List Command :=
  [⟨"AB", 1, .declare []⟩, ⟨"Order", 1, .declare []⟩, ⟨"a_b_", 2, .declare []⟩,
    ⟨"aB", 2, .declare []⟩]

/-- The schema that `meetingLog` leads to. -/
def meetingSchema : Schema :=
  ⟨⟨2, meetingLog.map Step.ofCommand⟩,
    [⟨"AB", [], 1⟩, ⟨"Order", [], 1⟩, ⟨"a_b_", [], 2⟩, ⟨"aB", [], 2⟩]⟩

theorem collides_iff_meets_meetingLog :
    replay .nonDecreasing meetingLog = .ok meetingSchema
      ∧ meetingSchema.upcastFiles = .error (.collision "a_b_.migrations.ts" "AB" "a_b_")
      ∧ FirstMeeting meetingSchema.documents "AB" "a_b_"
      ∧ fileName "a_b_" = "a_b_.migrations.ts"
      ∧ (∃ a ∈ meetingSchema.documents, ∃ b ∈ meetingSchema.documents, a ≠ b
          ∧ Meets a.name b.name)
      ∧ (Identifier.snake "AB" = Identifier.snake "a_b_"
          ∨ Identifier.pascal "AB" = Identifier.pascal "a_b_") := by
  have hfault : meetingSchema.upcastFiles
      = .error (.collision "a_b_.migrations.ts" "AB" "a_b_") := by decide +kernel
  have hending : ∀ d ∈ meetingSchema.documents,
      ¬ ".migrations".toList <:+ (Identifier.pascal d.name).toList := by decide +kernel
  have hreplay : replay .nonDecreasing meetingLog = .ok meetingSchema := rfl
  obtain ⟨hiff, hfirst, hmeets⟩ := collides_iff_meets hreplay
  obtain ⟨hmeeting, hfile⟩ := hfirst _ _ _ hfault
  refine ⟨hreplay, hfault, hmeeting, hfile.symm, hiff.mp ⟨_, _, _, hfault⟩, ?_⟩
  have hboth := hmeets hending ⟨"AB", [], 1⟩ (by decide) ⟨"a_b_", [], 2⟩ (by decide)
  exact hboth.mp (by decide +kernel)

/-- A document whose type is named like the module of the other one. -/
def endingLog : List Command :=
  [⟨"1", 1, .declare [⟨"id", .string, none⟩]⟩,
    ⟨"1.migrations", 1, .declare [⟨"id", .string, none⟩]⟩]

/-- The schema that `endingLog` leads to. -/
def endingSchema : Schema :=
  ⟨⟨1, endingLog.map Step.ofCommand⟩,
    [⟨"1", [⟨"id", .string, none⟩], 1⟩, ⟨"1.migrations", [⟨"id", .string, none⟩], 1⟩]⟩

/-- The two documents have neither one file nor one type, and are refused all the same. -/
theorem refused_though_apart :
    replay .nonDecreasing endingLog = .ok endingSchema
      ∧ endingSchema.upcastFiles
        = .error (.collision "1.migrations.migrations.ts" "1" "1.migrations")
      ∧ ¬ ∃ a ∈ endingSchema.documents, ∃ b ∈ endingSchema.documents, a ≠ b
          ∧ (Identifier.snake a.name = Identifier.snake b.name
            ∨ Identifier.pascal a.name = Identifier.pascal b.name) := by
  refine ⟨rfl, ?_⟩
  decide +kernel

end Schema

end SchemaLog
