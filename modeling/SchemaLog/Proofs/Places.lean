import SchemaLog.Proofs.Casing
import SchemaLog.Proofs.Files
import SchemaLog.Upcast.Collection
import Mathlib.Algebra.Order.BigOperators.Group.List
import Mathlib.Algebra.Order.Group.Nat
import Mathlib.Data.List.Forall2

/-!
# Proofs/Places — where a file is put that is named in a directory

    out  +  sales/../cart.ts   ▸  out/cart.ts     the name goes up no further than it has gone down
    out  +  ../cart.ts         ▸  cart.ts         it leads out of the directory
    out  +  /cart.ts           ▸  /cart.ts        it has nothing to do with the directory

A name is followed from the place of its directory (`place_join`), unless it starts at the root.  If
it never leads out of a directory, the names it passes are put in front of whatever place it starts
from (`follow_of_staysWithin`), and otherwise there is a directory that it leads out of, to a place
that is not below (`isBelow_iff_isContained`).  Snake case keeps slashes and dots, so all of this
can be told from the name of a document (`isContained_fileName`).
-/

namespace SchemaLog

/-! ## Segments -/

namespace Path

theorem cut_eq_splitOn (cs : List Char) : cut cs = cs.splitOn '/' := by
  induction cs with
  | nil => rfl
  | cons c rest ih =>
    rw [cut, List.splitOn_cons_eq_if_modifyHead, ih]
    by_cases hc : c = '/'
    · rw [if_pos hc, if_pos (beq_iff_eq.mpr hc)]
    · rw [if_neg hc, if_neg (fun h => hc (beq_iff_eq.mp h))]
      rcases hrest : rest.splitOn '/' with _ | ⟨first, others⟩
      · exact absurd hrest (List.splitOn_ne_nil '/' rest)
      · rfl

/-- The segments of a text, of which the first is empty if it starts at the root. -/
def pieces (text : String) : List String :=
  (text.toList.splitOn '/').map String.ofList

theorem pieces_of_notMem {text : String} (h : '/' ∉ text.toList) : pieces text = [text] := by
  rw [pieces, List.splitOn_eq_singleton h, List.map_singleton, String.ofList_toList]

theorem pieces_append_slash {a b text : String} (h : text.toList = a.toList ++ '/' :: b.toList) :
    pieces text = pieces a ++ pieces b := by
  rw [pieces, pieces, pieces, h, List.splitOn_append_cons_self, List.map_append]

end Path

namespace Disk

open SchemaLog.Path

variable {d : Disk} {directory : Path} {name : String}

/-- A path is followed along all of its segments, from the root or from the working directory. -/
theorem place_eq (d : Disk) (p : Path) :
    d.place p = Location.follow (if p.text.toList.head? = some '/' then [] else d.workingDirectory)
      (pieces p.text) := by
  rw [place, segments, pieces]
  split
  · next rest heq =>
    rw [heq, List.head?_cons, if_pos rfl, if_pos rfl, cut_eq_splitOn,
      List.splitOn_cons_eq_if_modifyHead, if_pos (beq_self_eq_true _)]
    rfl
  · next hroot =>
    have hhead : p.text.toList.head? ≠ some '/' := fun h => by
      obtain ⟨rest, heq⟩ := List.head?_eq_some_iff.mp h
      exact hroot rest heq
    rw [if_neg hhead, cut_eq_splitOn]
    rfl

theorem join_of_rooted (h : name.toList.head? = some '/') : directory.join name = ⟨name⟩ := by
  obtain ⟨rest, heq⟩ := List.head?_eq_some_iff.mp h
  simp only [join, heq]

theorem place_of_empty (h : directory.text = "") : d.place directory = d.workingDirectory := by
  rw [place_eq, h]
  rfl

/-- **A name is followed from the place of its directory**, unless it starts at the root. -/
theorem place_join (h : name.toList.head? ≠ some '/') :
    d.place (directory.join name) = (d.place directory).follow (pieces name) := by
  rw [join]
  split
  · next rest heq => exact absurd (heq ▸ rfl) h
  · split
    · next hlast =>
      have hempty := List.getLast?_eq_none_iff.mp hlast
      rw [place_of_empty (String.toList_eq_nil_iff.mp hempty), place_eq, if_neg h]
    · next hlast =>
      -- The directory ends in a slash, and the empty segment behind it names nothing.
      obtain ⟨front, hfront⟩ := List.getLast?_eq_some_iff.mp hlast
      have hsplit (rest : List Char) : directory.text.toList ++ rest
          = (String.ofList front).toList ++ '/' :: rest := by
        rw [hfront, String.toList_ofList, List.append_assoc, List.singleton_append]
      have hjoined : pieces (directory.text ++ name)
          = pieces (String.ofList front) ++ pieces name :=
        pieces_append_slash (by rw [String.toList_append, hsplit])
      have hdirectory : pieces directory.text = pieces (String.ofList front) ++ pieces "" :=
        pieces_append_slash (by rw [← List.append_nil directory.text.toList, hsplit]; rfl)
      have hne : directory.text.toList ≠ [] := by simp [hfront]
      rw [place_eq, place_eq, hjoined, hdirectory, follow_append, follow_append,
        String.toList_append, List.head?_append_of_ne_nil _ hne]
      rfl
    · next last hslash hlast =>
      have hjoined : pieces (directory.text ++ "/" ++ name)
          = pieces directory.text ++ pieces name :=
        pieces_append_slash (by
          rw [String.toList_append, String.toList_append, List.append_assoc]
          rfl)
      have hne : directory.text.toList ≠ [] := fun hnil => by simp [hnil] at hlast
      rw [place_eq, place_eq, hjoined, follow_append, String.toList_append, String.toList_append,
        List.append_assoc, List.head?_append_of_ne_nil _ hne]

end Disk

/-! ## Names that stay in a directory -/

namespace Path

/-- Whether segments never lead out of the directory in which they start.  The number says how far
below it they have come. -/
def staysWithin : Nat → List String → Bool
  | _, [] => true
  | depth, segment :: rest =>
    if segment = "" ∨ segment = "." then staysWithin depth rest
    else if segment = ".." then 0 < depth && staysWithin (depth - 1) rest
    else staysWithin (depth + 1) rest

/-- Whether a file of this name is below whatever directory it is put into. -/
def isContained (name : String) : Bool :=
  name.toList.head? != some '/' && staysWithin 0 (pieces name).dropLast

end Path

namespace Location

/-- A place below another one. -/
def IsBelow (loc base : Location) : Prop :=
  ∃ names, names ≠ [] ∧ loc = names ++ base

variable {segments : List String} {loc front base : Location} {name : String}

theorem IsBelow.length_lt (h : loc.IsBelow base) : base.length < loc.length := by
  obtain ⟨names, hne, rfl⟩ := h
  have := List.length_pos_iff.mpr hne
  rw [List.length_append]
  omega

/-- Following segments brings no names but theirs. -/
theorem mem_of_mem_follow : ∀ {segments : List String} {loc : Location},
    name ∈ loc.follow segments → name ∈ loc ∨ name ∈ segments
  | [], _, h => .inl h
  | segment :: rest, loc, h => by
    rw [follow] at h
    split at h
    · exact (mem_of_mem_follow h).imp_right (List.mem_cons_of_mem _)
    · split at h
      · exact (mem_of_mem_follow h).imp List.mem_of_mem_tail (List.mem_cons_of_mem _)
      · rcases mem_of_mem_follow h with hmem | hmem
        · exact (List.mem_cons.mp hmem).elim (fun heq => .inr (heq ▸ List.mem_cons_self)) .inl
        · exact .inr (List.mem_cons_of_mem _ hmem)

/-- **Segments that stay in a directory lead to the same place in each.** -/
theorem follow_of_staysWithin : ∀ {segments : List String} {front : Location},
    Path.staysWithin front.length segments →
      Location.follow (front ++ base) segments = front.follow segments ++ base
  | [], _, _ => rfl
  | segment :: rest, front, h => by
    rw [Path.staysWithin] at h
    rw [follow, follow]
    split at h
    · next hvoid => rw [if_pos hvoid, if_pos hvoid, follow_of_staysWithin h]
    · next hvoid =>
      rw [if_neg hvoid, if_neg hvoid]
      split at h
      · next hup =>
        rw [if_pos hup, if_pos hup]
        rcases front with _ | ⟨first, others⟩
        · cases h
        · exact follow_of_staysWithin h
      · next hup =>
        rw [if_neg hup, if_neg hup]
        exact @follow_of_staysWithin rest (segment :: front) h

/-- **Segments that lead out of a directory do not come back to it**, if they do not name it. -/
theorem notMem_follow_of_staysWithin_eq_false :
    ∀ {segments : List String} {front : Location},
      Path.staysWithin front.length segments = false → name ∉ front → name ∉ segments →
        name ∉ Location.follow (front ++ [name]) segments
  | [], _, h, _, _ => by cases h
  | segment :: rest, front, h, hfront, hsegments => by
    obtain ⟨hne, hrest⟩ := not_or.mp (mt List.mem_cons.mpr hsegments)
    rw [Path.staysWithin] at h
    rw [follow]
    split at h
    · next hvoid =>
      rw [if_pos hvoid]
      exact notMem_follow_of_staysWithin_eq_false h hfront hrest
    · next hvoid =>
      rw [if_neg hvoid]
      split at h
      · next hup =>
        rw [if_pos hup]
        rcases front with _ | ⟨first, others⟩
        · exact fun hmem => (mem_of_mem_follow hmem).elim List.not_mem_nil hrest
        · have hothers : name ∉ others := fun hmem => hfront (List.mem_cons_of_mem _ hmem)
          exact notMem_follow_of_staysWithin_eq_false h hothers hrest
      · next hup =>
        rw [if_neg hup]
        have hfront' : name ∉ segment :: front := not_or.mpr ⟨hne, hfront⟩ ∘ List.mem_cons.mp
        exact @notMem_follow_of_staysWithin_eq_false rest (segment :: front) h hfront' hrest

end Location

namespace Disk

open SchemaLog.Path

variable {d : Disk} {directory : Path} {name : String}

/-- The last segment of a name says what the file is called. -/
def NamesFile (name : String) : Prop :=
  isName ((pieces name).getLastD "") = true

theorem pieces_ne_nil (name : String) : pieces name ≠ [] :=
  fun h => List.splitOn_ne_nil '/' name.toList (List.map_eq_nil_iff.mp h)

theorem follow_pieces (hname : NamesFile name) (base : Location) :
    base.follow (pieces name)
      = (pieces name).getLastD "" :: base.follow (pieces name).dropLast := by
  rcases (pieces name).eq_nil_or_concat with hnil | ⟨front, last, heq⟩
  · exact absurd hnil (pieces_ne_nil name)
  · rw [NamesFile, heq, List.concat_eq_append, List.getLastD_concat] at hname
    rw [heq, List.concat_eq_append, List.dropLast_concat, List.getLastD_concat, follow_append,
      follow_name hname]

/-- Wherever a file is put, it is called what the last segment of its name says. -/
theorem exists_place_join (hname : NamesFile name) (d : Disk) (directory : Path) :
    ∃ base, d.place (directory.join name) = (pieces name).getLastD "" :: base := by
  by_cases hroot : name.toList.head? = some '/'
  · exact ⟨_, by rw [join_of_rooted hroot, place_eq, if_pos hroot, follow_pieces hname]⟩
  · exact ⟨_, by rw [place_join hroot, follow_pieces hname]⟩

/-- The names that lead to a file from the directory that it is put into, the innermost first. -/
def route (name : String) : Location :=
  Location.follow [] (pieces name)

/-- **A contained name leads to the same place in each directory.** -/
theorem place_of_isContained (hname : NamesFile name) (h : isContained name) :
    d.place (directory.join name) = route name ++ d.place directory := by
  rw [isContained, Bool.and_eq_true, bne_iff_ne] at h
  have hfront := @Location.follow_of_staysWithin (d.place directory) _ [] h.2
  rw [place_join h.1, route, follow_pieces hname, follow_pieces hname, List.cons_append]
  exact congrArg _ hfront

/-- A name without a slash is that of a file in the directory itself. -/
theorem place_of_notMem (hname : NamesFile name) (h : '/' ∉ name.toList) :
    d.place (directory.join name) = name :: d.place directory := by
  have hhead : name.toList.head? ≠ some '/' := fun hroot => h (List.mem_of_mem_head? hroot)
  rw [place_join hhead, follow_pieces hname, pieces_of_notMem h]
  rfl

theorem isName_of_length_lt (h : 2 < name.length) : isName name = true := by
  have hne (other : String) (hother : other.length < 3) : name ≠ other := by
    rintro rfl
    omega
  simp only [isName, Bool.and_eq_true, bne_iff_ne]
  exact ⟨⟨hne "" (by decide), hne "." (by decide)⟩, hne ".." (by decide)⟩

/-- There is a name that is none of those given. -/
theorem exists_fresh (names : List String) :
    ∃ fresh : String, fresh ∉ names ∧ '/' ∉ fresh.toList ∧ isName fresh = true := by
  let n := (names.map String.length).sum
  let fresh := String.ofList (List.replicate (n + 3) 'x')
  have hlength : fresh.length = n + 3 := by simp [fresh]
  refine ⟨fresh, fun hmem => ?_, by simp [fresh], isName_of_length_lt (by omega)⟩
  have hle : fresh.length ≤ n := List.le_sum_of_mem (List.mem_map_of_mem hmem)
  omega

theorem place_of_fresh {fresh : String} (hslash : '/' ∉ fresh.toList) (hname : isName fresh = true)
    (d : Disk) : d.place ⟨"/" ++ fresh⟩ = [fresh] := by
  have hchars : ("/" ++ fresh).toList = "".toList ++ '/' :: fresh.toList := String.toList_append
  have hroot : ("/" ++ fresh).toList.head? = some '/' := by
    rw [hchars]
    rfl
  rw [place_eq, if_pos hroot, pieces_append_slash hchars, pieces_of_notMem hslash, follow_append,
    follow_name hname]
  rfl

/-- A name that is not contained leads out of a directory that none of its segments names. -/
theorem notMem_place_join {fresh : String} (hname : NamesFile name) (hfresh : fresh ∉ pieces name)
    (hdirectory : d.place directory = [fresh]) (h : ¬ isContained name = true) :
    fresh ∉ d.place (directory.join name) := by
  have hlast : (pieces name).getLastD "" ∈ pieces name := by
    rw [List.getLastD_eq_getLast?, List.getLast?_eq_some_getLast (pieces_ne_nil name)]
    exact List.getLast_mem _
  have hfront : fresh ∉ (pieces name).dropLast := fun h => hfresh (List.dropLast_subset _ h)
  rw [isContained, Bool.and_eq_true, bne_iff_ne, not_and, Bool.not_eq_true] at h
  by_cases hroot : name.toList.head? = some '/'
  · rw [join_of_rooted hroot, place_eq, if_pos hroot]
    exact fun hmem => (Location.mem_of_mem_follow hmem).elim List.not_mem_nil hfresh
  · rw [place_join hroot, hdirectory, follow_pieces hname, List.mem_cons, not_or]
    exact ⟨fun heq => hfresh (heq ▸ hlast), @Location.notMem_follow_of_staysWithin_eq_false _ _ []
      (h hroot) List.not_mem_nil hfront⟩

/-- **A file is below every directory that it may be put into exactly if its name is contained.** -/
theorem isBelow_iff_isContained (hname : NamesFile name) (d : Disk) :
    (∀ directory, (d.place (directory.join name)).IsBelow (d.place directory))
      ↔ isContained name = true := by
  refine ⟨fun hbelow => ?_, fun h directory => ?_⟩
  · obtain ⟨fresh, hfresh, hslash, hisName⟩ := exists_fresh (pieces name)
    have hdirectory := place_of_fresh hslash hisName d
    obtain ⟨names, -, heq⟩ := hbelow ⟨"/" ++ fresh⟩
    rw [hdirectory] at heq
    by_contra hnot
    refine notMem_place_join hname hfresh hdirectory hnot ?_
    exact heq ▸ List.mem_append_right names List.mem_cons_self
  · refine ⟨route name, ?_, place_of_isContained hname h⟩
    rw [route, follow_pieces hname]
    exact List.cons_ne_nil _ _

end Disk

/-! ## Names in snake case -/

namespace Path

/-- Two segments that lead the same way: if one is a row of dots, the other is the same row. -/
def SameDots (a b : List Char) : Prop :=
  ∀ k, a = List.replicate k '.' ↔ b = List.replicate k '.'

theorem staysWithin_congr : ∀ {a b : List (List Char)} {depth : Nat}, List.Forall₂ SameDots a b →
    staysWithin depth (a.map String.ofList) = staysWithin depth (b.map String.ofList)
  | _, _, _, .nil => rfl
  | _, _, depth, .cons hfirst hrest => by
    have hdots (k : Nat) {cs : List Char} :
        String.ofList cs = String.ofList (List.replicate k '.') ↔ cs = List.replicate k '.' :=
      String.ofList_inj
    have hsame (k : Nat) := (hdots k).trans ((hfirst k).trans (hdots k).symm)
    rw [List.map_cons, List.map_cons, staysWithin, staysWithin]
    refine if_congr (or_congr (hsame 0) (hsame 1)) (staysWithin_congr hrest)
      (if_congr (hsame 2) ?_ (staysWithin_congr hrest))
    rw [staysWithin_congr hrest]

/-- What has no slash goes to the last segment of the text that it stands behind. -/
theorem exists_splitOn_append {b : List Char} (hb : '/' ∉ b) : ∀ a : List Char,
    ∃ front last, a.splitOn '/' = front ++ [last] ∧ (a ++ b).splitOn '/' = front ++ [last ++ b]
  | [] => ⟨[], [], rfl, List.splitOn_eq_singleton hb⟩
  | c :: rest => by
    obtain ⟨front, last, heq, heq'⟩ := exists_splitOn_append hb rest
    rw [List.cons_append, List.splitOn_cons_eq_if_modifyHead, List.splitOn_cons_eq_if_modifyHead,
      heq, heq']
    split
    · exact ⟨[] :: front, last, rfl, rfl⟩
    · rcases front with _ | ⟨first, others⟩
      · exact ⟨[], c :: last, rfl, rfl⟩
      · exact ⟨(c :: first) :: others, last, rfl, rfl⟩

/-- What has no slash goes to the first segment of the text that it stands in front of. -/
theorem splitOn_append {a : List Char} (ha : '/' ∉ a) (b : List Char) :
    (a ++ b).splitOn '/' = (b.splitOn '/').modifyHead (a ++ ·) := by
  induction a with
  | nil => exact (congrFun List.modifyHead_id _).symm
  | cons c rest ih =>
    obtain ⟨hc, hrest⟩ := not_or.mp (mt List.mem_cons.mpr ha)
    rw [List.cons_append, List.splitOn_cons_eq_if_modifyHead,
      if_neg (fun h => hc (beq_iff_eq.mp h).symm), ih hrest, List.modifyHead_modifyHead]
    rfl

end Path

namespace Identifier

open Text SchemaLog.Path

variable {image a b : List Char} {c : Char}

/-- What comes of a character, if neither a slash nor a dot is lost or brought in. -/
structure KeepsMarks (c : Char) (image : List Char) : Prop where
  ne_nil : image ≠ []
  eq_of_mem : ∀ x ∈ image, x = '/' ∨ x = '.' → x = c
  image_eq : c = '/' ∨ c = '.' → image = [c]

theorem keepsMarks_first (c : Char) : KeepsMarks c (if isUpper c then lower c else [c]) where
  ne_nil := by
    split
    · exact lower_ne_nil c
    · exact List.cons_ne_nil _ _
  eq_of_mem x hx hmark := by
    split at hx
    · exact eq_of_mem_lower hx (by rcases hmark with rfl | rfl <;> decide)
    · exact List.mem_singleton.mp hx
  image_eq hmark := by rcases hmark with rfl | rfl <;> decide

theorem keepsMarks_snakeLetter (c : Char) : KeepsMarks c (snakeLetter c) where
  ne_nil := by
    rw [snakeLetter]
    split <;> exact List.cons_ne_nil _ _
  eq_of_mem x hx hmark := by
    rcases hmark with rfl | rfl <;> exact eq_of_mem_snakeLetter hx (by decide) (by decide)
  image_eq hmark := by rcases hmark with rfl | rfl <;> decide

namespace KeepsMarks

theorem sameDots (h : KeepsMarks c image) (hrest : SameDots a b) :
    SameDots (image ++ a) (c :: b)
  | 0 => by simp [h.ne_nil]
  | k + 1 => by
    rw [List.replicate_succ]
    by_cases hc : c = '.'
    · rw [h.image_eq (.inr hc), List.singleton_append, List.cons_eq_cons, List.cons_eq_cons]
      exact and_congr_right fun _ => hrest k
    · obtain ⟨x, others, himage⟩ := List.exists_cons_of_ne_nil h.ne_nil
      have hx : x ≠ '.' := fun hx =>
        hc (hx ▸ h.eq_of_mem x (himage ▸ List.mem_cons_self) (.inr hx)).symm
      simp [himage, hc, hx]

theorem splitOn (h : KeepsMarks c image)
    (hrest : List.Forall₂ SameDots (a.splitOn '/') (b.splitOn '/')) :
    List.Forall₂ SameDots ((image ++ a).splitOn '/') ((c :: b).splitOn '/') := by
  by_cases hc : c = '/'
  · rw [h.image_eq (.inl hc), List.singleton_append, hc, List.splitOn_cons_eq_if_modifyHead,
      List.splitOn_cons_eq_if_modifyHead]
    exact .cons (fun _ => Iff.rfl) hrest
  · have himage : '/' ∉ image := fun hmem => hc (h.eq_of_mem '/' hmem (.inl rfl)).symm
    rw [splitOn_append himage, List.splitOn_cons_eq_if_modifyHead,
      if_neg (fun heq => hc (beq_iff_eq.mp heq))]
    generalize a.splitOn '/' = segments, b.splitOn '/' = segments' at hrest
    cases hrest with
    | nil => exact .nil
    | cons hfirst hothers => exact .cons (h.sameDots hfirst) hothers

theorem head_iff (h : KeepsMarks c image) (rest : List Char) :
    (image ++ rest).head? = some '/' ↔ c = '/' := by
  obtain ⟨x, others, himage⟩ := List.exists_cons_of_ne_nil h.ne_nil
  rw [himage, List.cons_append, List.head?_cons, Option.some.injEq]
  constructor
  · rintro rfl
    exact (h.eq_of_mem '/' (himage ▸ List.mem_cons_self) (.inl rfl)).symm
  · rintro rfl
    exact (List.cons.inj (himage.symm.trans (h.image_eq (.inl rfl)))).1

end KeepsMarks

theorem forall₂_sameDots_flatMap : ∀ name : List Char,
    List.Forall₂ SameDots ((name.flatMap snakeLetter).splitOn '/') (name.splitOn '/')
  | [] => .cons (fun _ => Iff.rfl) .nil
  | c :: rest => (keepsMarks_snakeLetter c).splitOn (forall₂_sameDots_flatMap rest)

/-- **Snake case leads the same way**, whatever it makes of the segments. -/
theorem forall₂_sameDots_snakeChars : ∀ name : List Char,
    List.Forall₂ SameDots ((snakeChars name).splitOn '/') (name.splitOn '/')
  | [] => .cons (fun _ => Iff.rfl) .nil
  | c :: rest => (keepsMarks_first c).splitOn (forall₂_sameDots_flatMap rest)

theorem head_snakeChars_iff (name : List Char) {suffix : List Char} (h : '/' ∉ suffix) :
    (snakeChars name ++ suffix).head? = some '/' ↔ name.head? = some '/' := by
  rcases name with _ | ⟨c, rest⟩
  · exact iff_of_false (fun hhead => h (List.mem_of_mem_head? hhead)) nofun
  · rw [snakeChars, List.append_assoc, (keepsMarks_first c).head_iff, List.head?_cons,
      Option.some.injEq]

end Identifier

namespace UpcastModule

open SchemaLog.Path Disk

theorem fileName_eq (document : String) :
    fileName document = Identifier.snake document ++ ".migrations.ts" := by
  rw [fileName, moduleName, String.append_assoc]
  rfl

/-- The ending goes to the last segment. -/
theorem exists_pieces_fileName (document : String) :
    ∃ last, pieces (fileName document)
      = (pieces (Identifier.snake document)).dropLast ++ [last ++ ".migrations.ts"] := by
  have hending : '/' ∉ ".migrations.ts".toList := by decide
  obtain ⟨front, last, heq, heq'⟩ :=
    exists_splitOn_append hending (Identifier.snake document).toList
  refine ⟨String.ofList last, ?_⟩
  rw [pieces, pieces, heq, fileName_eq, String.toList_append, heq', List.map_append,
    List.map_append, List.map_singleton, List.map_singleton, List.dropLast_concat,
    String.ofList_append, String.ofList_toList]

theorem namesFile_fileName (document : String) : NamesFile (fileName document) := by
  obtain ⟨last, heq⟩ := exists_pieces_fileName document
  have hlength : (last ++ ".migrations.ts").length = last.length + 14 := String.length_append ..
  rw [NamesFile, heq, List.getLastD_concat]
  exact isName_of_length_lt (by omega)

theorem pieces_index : pieces "index.ts" = ["index.ts"] :=
  pieces_of_notMem (by decide)

theorem namesFile_index : NamesFile "index.ts" := by
  rw [NamesFile, pieces_index]
  decide

theorem isContained_index : isContained "index.ts" = true := by
  rw [isContained, pieces_index]
  decide

theorem head_fileName_iff (document : String) :
    (fileName document).toList.head? = some '/' ↔ document.toList.head? = some '/' := by
  rw [fileName_eq, String.toList_append, Identifier.toList_snake,
    Identifier.head_snakeChars_iff _ (by decide)]

/-- Snake case may give other names to the directories on the way, but it leads up and down as the
document's name does. -/
theorem staysWithin_fileName (document : String) :
    staysWithin 0 (pieces (fileName document)).dropLast
      = staysWithin 0 (pieces document).dropLast := by
  obtain ⟨last, heq⟩ := exists_pieces_fileName document
  have hall := Identifier.forall₂_sameDots_snakeChars document.toList
  have hfront : List.Forall₂ SameDots
      ((Identifier.snakeChars document.toList).splitOn '/').dropLast
      (document.toList.splitOn '/').dropLast := by
    rw [List.dropLast_eq_take, List.dropLast_eq_take, hall.length_eq]
    exact List.forall₂_take _ hall
  rw [heq, List.dropLast_concat, pieces, pieces, Identifier.toList_snake, ← List.map_dropLast,
    ← List.map_dropLast, staysWithin_congr hfront]

/-- **The file of a document is contained exactly if the name of the document is.** -/
theorem isContained_fileName (document : String) :
    isContained (fileName document) = isContained document := by
  rw [Bool.eq_iff_iff, isContained, isContained, Bool.and_eq_true, Bool.and_eq_true, bne_iff_ne,
    bne_iff_ne, ne_eq, ne_eq, head_fileName_iff, staysWithin_fileName]

/-- The module of a document without a slash in its name is in the directory itself. -/
theorem place_fileName_of_notMem {document : String} (h : '/' ∉ document.toList) (d : Disk)
    (directory : Path) :
    d.place (directory.join (fileName document)) = fileName document :: d.place directory := by
  refine place_of_notMem (namesFile_fileName document) fun hmem => ?_
  rw [fileName_eq, String.toList_append, Identifier.toList_snake, List.mem_append] at hmem
  rcases hmem with hsnake | hending
  · exact h (Identifier.mem_of_mem_snakeChars hsnake (by decide) (by decide))
  · exact absurd hending (by decide)

end UpcastModule

end SchemaLog
