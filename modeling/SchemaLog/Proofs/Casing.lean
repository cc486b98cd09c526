import SchemaLog.Identifier

/-!
# Proofs/Casing — type names that stay apart in upper case

    CartItem  ──snake──▸  cart_item  ──upper case──▸  CART_ITEM
    Maße      ──snake──▸  maße       ──upper case──▸  MASSE      (and so does Masse)

A type name holds no underscore, so that in its constant each of them stands in front of a letter
that was upper case.  Read back, such a letter stays as it is and the others become lower case
(`relax`).  This gives the type name again if upper case can be undone for each of its letters
(`relax_upperAll_snakeChars`), as it cannot for `ß`.
-/

namespace SchemaLog

namespace Text

/-! ## What upper case brings -/

/-- The code point of a character that is an upper-case letter if it is in ASCII. -/
def PlainImage (n : Nat) : Prop :=
  n.isValidChar ∧ (n < 0x80 → 0x41 ≤ n ∧ n ≤ 0x5A)

theorem toNat_ofNat {n : Nat} (h : n.isValidChar) : (Char.ofNat n).toNat = n := by
  rw [Char.ofNat, dif_pos h]
  rfl

/-- What is checked of the tables, entry by entry. -/
theorem tables_checked :
    (∀ e ∈ CaseTable.longUpper, (e.2 ≠ [] ∧ e.2.length ≤ 3) ∧ ∀ n ∈ e.2,
        (n < 0xD800 ∨ 0xDFFF < n ∧ n < 0x110000) ∧ (n < 0x80 → 0x41 ≤ n ∧ n ≤ 0x5A))
      ∧ (∀ r ∈ CaseTable.toUpper,
        (r.target + (r.last - r.first) < 0xD800
            ∨ 0xDFFF < r.target ∧ r.target + (r.last - r.first) < 0x110000)
          ∧ (r.target < 0x80 → 0x41 ≤ r.target ∧ r.target + (r.last - r.first) ≤ 0x5A))
      ∧ ∀ r ∈ CaseTable.toLower,
        (r.target + (r.last - r.first) < 0xD800
            ∨ 0xDFFF < r.target ∧ r.target + (r.last - r.first) < 0x110000)
          ∧ 0x61 ≤ r.target := by
  decide +kernel

theorem plainImage_longUpper {e : Nat × List Nat} (he : e ∈ CaseTable.longUpper) :
    e.2 ≠ [] ∧ ∀ n ∈ e.2, PlainImage n :=
  ⟨(tables_checked.1 e he).1.1, (tables_checked.1 e he).2⟩

/-- A run is mapped to a run of the same length. -/
theorem bounds_of_image? {r : CaseRun} {c n : Nat} (h : r.image? c = some n) :
    r.target ≤ n ∧ n ≤ r.target + (r.last - r.first) := by
  rw [CaseRun.image?] at h
  split at h
  · next hcontains =>
    obtain rfl := Option.some.inj h
    simp only [CharRun.contains, Bool.and_eq_true, decide_eq_true_eq] at hcontains
    omega
  · cases h

theorem plainImage_toUpper {r : CaseRun} (hr : r ∈ CaseTable.toUpper) {c n : Nat}
    (hn : r.image? c = some n) : PlainImage n := by
  obtain ⟨hvalid, hascii⟩ := tables_checked.2.1 r hr
  obtain ⟨hlow, hhigh⟩ := bounds_of_image? hn
  refine ⟨?_, by omega⟩
  rw [Nat.isValidChar]
  omega

/-- **What holds of all images in two tables holds of what a character is mapped to**, unless that
is the character itself. -/
theorem mapCase_cases {long : List (Nat × List Nat)} {runs : List CaseRun} {P : Nat → Prop}
    (hlong : ∀ e ∈ long, e.2 ≠ [] ∧ ∀ n ∈ e.2, P n)
    (hruns : ∀ r ∈ runs, ∀ {c n : Nat}, r.image? c = some n → P n) (c : Char) :
    mapCase long runs c = [c]
      ∨ ∃ image, image ≠ [] ∧ (∀ n ∈ image, P n) ∧ mapCase long runs c = image.map Char.ofNat := by
  rw [mapCase]
  split
  · next image hlookup =>
    obtain ⟨front, back, hsplit, -⟩ := List.lookup_eq_some_iff.mp hlookup
    have he : (c.toNat, image) ∈ long := hsplit ▸ List.mem_append_right front List.mem_cons_self
    obtain ⟨hne, himage⟩ := hlong _ he
    exact .inr ⟨image, hne, himage, rfl⟩
  · split
    · next n hrun =>
      obtain ⟨r, hr, hn⟩ := List.exists_of_findSome?_eq_some hrun
      exact .inr ⟨[n], List.cons_ne_nil _ _, List.forall_mem_singleton.mpr (hruns r hr hn), rfl⟩
    · exact .inl rfl

/-- **A character is its own upper case or is mapped to others**, of which those in ASCII are
upper-case letters. -/
theorem upper_cases (c : Char) :
    (upper c = [c] ∧ ¬ ('a' ≤ c ∧ c ≤ 'z'))
      ∨ ∃ image, image ≠ [] ∧ (∀ n ∈ image, PlainImage n) ∧ upper c = image.map Char.ofNat := by
  rw [upper]
  split
  · split
    · next hletter =>
      have ha : 0x61 ≤ c.toNat := UInt32.le_iff_toNat_le.mp hletter.1
      have hz : c.toNat ≤ 0x7A := UInt32.le_iff_toNat_le.mp hletter.2
      have hplain : PlainImage (c.toNat - 32) := ⟨Or.inl (by omega), by omega⟩
      exact .inr ⟨[c.toNat - 32], List.cons_ne_nil _ _, List.forall_mem_singleton.mpr hplain, rfl⟩
    · next hletter => exact .inl ⟨rfl, hletter⟩
  · next hascii =>
    have hletter : ¬ ('a' ≤ c ∧ c ≤ 'z') := by
      rintro ⟨-, hz⟩
      have hz : c.toNat ≤ 0x7A := UInt32.le_iff_toNat_le.mp hz
      omega
    rcases mapCase_cases (fun _ => plainImage_longUpper) (fun _ => plainImage_toUpper) c with
      hself | himage
    · exact .inl ⟨hself, hletter⟩
    · exact .inr himage

theorem upper_ne_nil (c : Char) : upper c ≠ [] := by
  rcases upper_cases c with ⟨hself, -⟩ | ⟨image, hne, -, himage⟩
  · rw [hself]
    exact List.cons_ne_nil _ _
  · rw [himage]
    exact fun hnil => hne (List.map_eq_nil_iff.mp hnil)

theorem length_upper_le (c : Char) : (upper c).length ≤ 3 := by
  have hone (x : Char) : [x].length ≤ 3 := Nat.le_add_left 1 2
  rw [upper]
  split
  · split <;> exact hone _
  · rw [mapCase]
    split
    · next image hlookup =>
      obtain ⟨front, back, hsplit, -⟩ := List.lookup_eq_some_iff.mp hlookup
      have he := hsplit ▸ List.mem_append_right front List.mem_cons_self
      rw [List.length_map]
      exact (tables_checked.1 _ he).1.2
    · split <;> exact hone _

/-- **Upper case brings no character of ASCII but upper-case letters.** -/
theorem upperLetter_of_mem_upper {c x : Char} (h : x ∈ upper c) (hx : x.toNat < 0x80) :
    0x41 ≤ x.toNat ∧ x.toNat ≤ 0x5A ∨ x = c ∧ ¬ ('a' ≤ c ∧ c ≤ 'z') := by
  rcases upper_cases c with ⟨hself, hletter⟩ | ⟨image, -, hplain, himage⟩
  · rw [hself] at h
    exact .inr ⟨List.mem_singleton.mp h, hletter⟩
  · rw [himage] at h
    obtain ⟨n, hn, rfl⟩ := List.mem_map.mp h
    obtain ⟨hvalid, hascii⟩ := hplain n hn
    rw [toNat_ofNat hvalid] at hx ⊢
    exact .inl (hascii hx)

theorem eq_underscore_of_mem_upper {c : Char} (h : '_' ∈ upper c) : c = '_' := by
  rcases upperLetter_of_mem_upper h (by decide) with hletter | ⟨hc, -⟩
  · exact absurd hletter (by decide)
  · exact hc.symm

theorem m_not_mem_upper (c : Char) : 'm' ∉ upper c := by
  intro h
  rcases upperLetter_of_mem_upper h (by decide) with hletter | ⟨rfl, hletter⟩
  · exact absurd hletter (by decide)
  · exact hletter (by decide)

/-! ## What lower case brings -/

/-- The code point of a character from `a` on. -/
def SmallImage (n : Nat) : Prop :=
  n.isValidChar ∧ 0x61 ≤ n

theorem smallImage_longLower :
    ∀ e ∈ CaseTable.longLower, e.2 ≠ [] ∧ ∀ n ∈ e.2, SmallImage n := by
  have h : ∀ e ∈ CaseTable.longLower, e.2 ≠ [] ∧ ∀ n ∈ e.2,
      (n < 0xD800 ∨ 0xDFFF < n ∧ n < 0x110000) ∧ 0x61 ≤ n := by
    decide
  exact h

theorem smallImage_toLower {r : CaseRun} (hr : r ∈ CaseTable.toLower) {c n : Nat}
    (hn : r.image? c = some n) : SmallImage n := by
  obtain ⟨hvalid, hsmall⟩ := tables_checked.2.2 r hr
  obtain ⟨hlow, hhigh⟩ := bounds_of_image? hn
  refine ⟨?_, by omega⟩
  rw [Nat.isValidChar]
  omega

theorem lower_cases (c : Char) :
    lower c = [c] ∨ ∃ image, image ≠ [] ∧ (∀ n ∈ image, SmallImage n)
      ∧ lower c = image.map Char.ofNat := by
  rw [lower]
  split
  · split
    · next hletter =>
      have ha : 0x41 ≤ c.toNat := UInt32.le_iff_toNat_le.mp hletter.1
      have hz : c.toNat ≤ 0x5A := UInt32.le_iff_toNat_le.mp hletter.2
      have hsmall : SmallImage (c.toNat + 32) := ⟨Or.inl (by omega), by omega⟩
      exact .inr ⟨[c.toNat + 32], List.cons_ne_nil _ _, List.forall_mem_singleton.mpr hsmall, rfl⟩
    · exact .inl rfl
  · exact mapCase_cases smallImage_longLower (fun _ hr => smallImage_toLower hr) c

theorem lower_ne_nil (c : Char) : lower c ≠ [] := by
  rcases lower_cases c with hself | ⟨image, hne, -, himage⟩
  · rw [hself]
    exact List.cons_ne_nil _ _
  · rw [himage]
    exact fun hnil => hne (List.map_eq_nil_iff.mp hnil)

/-- **Lower case brings no character in front of `a`.** -/
theorem eq_or_le_of_mem_lower {c x : Char} (h : x ∈ lower c) : x = c ∨ 0x61 ≤ x.toNat := by
  rcases lower_cases c with hself | ⟨image, -, hsmall, himage⟩
  · exact .inl (List.mem_singleton.mp (hself ▸ h))
  · rw [himage] at h
    obtain ⟨n, hn, rfl⟩ := List.mem_map.mp h
    obtain ⟨hvalid, hle⟩ := hsmall n hn
    exact .inr ((toNat_ofNat hvalid).symm ▸ hle)

/-! ## Upper case that can be undone -/

/-- Whether upper case can be undone: the character has a single one as its upper case, and is that
one or the lower case of it. -/
def reversible (c : Char) : Bool :=
  match upper c with
  | [u] =>
    upper u == [u]
      && if isUpper c then u == c && upperAll (lower c) == [c]
        else lower u == [c] && (u == c || isUpper u)
  | _ => false

theorem reversible_iff {c : Char} :
    reversible c ↔ ∃ u, upper c = [u] ∧ upper u = [u]
      ∧ (isUpper c → u = c ∧ upperAll (lower c) = [c])
      ∧ (isUpper c = false → lower u = [c] ∧ (u = c ∨ isUpper u)) := by
  rw [reversible]
  split
  · next u hu => cases isUpper c <;> simp [hu]
  · next hlong => simpa using fun u hu => absurd hu (hlong u)

/-- **In all of ASCII upper case can be undone.** -/
theorem reversible_of_ascii {c : Char} (h : c.toNat < 0x80) : reversible c := by
  have hall : ∀ n < 0x80, reversible (Char.ofNat n) := by decide +kernel
  have hc := hall c.toNat h
  rwa [Char.ofNat_toNat] at hc

/-- With a character, its upper case is reversible. -/
theorem reversible_upper {c u : Char} (h : reversible c) (hu : upper c = [u]) :
    reversible u ∧ upper u = [u] := by
  obtain ⟨u', hu', hupper, hbig, hsmall⟩ := reversible_iff.mp h
  obtain rfl : u' = u := List.singleton_inj.mp (hu'.symm.trans hu)
  refine ⟨?_, hupper⟩
  cases hc : isUpper c with
  | true => exact (hbig hc).1 ▸ h
  | false =>
    obtain ⟨hlower, rfl | hisUpper⟩ := hsmall hc
    · exact h
    · refine reversible_iff.mpr ⟨u', hupper, hupper, fun _ => ⟨rfl, ?_⟩, fun hnot => ?_⟩
      · rw [hlower, upperAll, List.flatMap_singleton, hu]
      · cases hnot.symm.trans hisUpper

end Text

namespace Identifier

open Text

/-! ## File names -/

theorem eq_of_mem_lower {c x : Char} (h : x ∈ lower c) (hx : x.toNat < 0x61) : x = c :=
  (eq_or_le_of_mem_lower h).resolve_right (Nat.not_le.mpr hx)

theorem eq_of_mem_snakeLetter {c x : Char} (h : x ∈ snakeLetter c) (hx : x.toNat < 0x61)
    (hne : x ≠ '_') : x = c := by
  rw [snakeLetter] at h
  split at h
  · exact eq_of_mem_lower ((List.mem_cons.mp h).resolve_left hne) hx
  · exact List.mem_singleton.mp h

/-- **Snake case brings no character in front of `a` but underscores.** -/
theorem mem_of_mem_snakeChars {name : List Char} {x : Char} (h : x ∈ snakeChars name)
    (hx : x.toNat < 0x61) (hne : x ≠ '_') : x ∈ name := by
  rcases name with _ | ⟨c, rest⟩
  · cases h
  · rcases List.mem_append.mp h with hfirst | hrest
    · have hc : x = c := by
        split at hfirst
        · exact eq_of_mem_lower hfirst hx
        · exact List.mem_singleton.mp hfirst
      exact hc ▸ List.mem_cons_self
    · obtain ⟨c', hc', hx'⟩ := List.mem_flatMap.mp hrest
      exact List.mem_cons_of_mem c (eq_of_mem_snakeLetter hx' hx hne ▸ hc')

/-! ## Type names -/

variable {name : List Char} {c : Char}

theorem underscore_not_mem_pascalChars :
    ∀ (atStart : Bool) (name : List Char), '_' ∉ pascalChars atStart name
  | _, [] => List.not_mem_nil
  | atStart, c :: rest => by
    rw [pascalChars]
    split
    · exact underscore_not_mem_pascalChars true rest
    · next hc =>
      have hrest := underscore_not_mem_pascalChars false rest
      split
      · exact fun h => (List.mem_append.mp h).elim
          (fun h => hc (eq_underscore_of_mem_upper h)) hrest
      · exact fun h => (List.mem_cons.mp h).elim (fun h => hc h.symm) hrest

/-- A type name begins with an upper case of one of the characters. -/
theorem exists_upper_of_head_pascalChars :
    ∀ {name : List Char} {x : Char}, (pascalChars true name).head? = some x →
      ∃ c ∈ name, (upper c).head? = some x
  | [], _, h => by cases h
  | c :: rest, x, h => by
    rw [pascalChars] at h
    split at h
    · obtain ⟨c', hc', hx⟩ := exists_upper_of_head_pascalChars h
      exact ⟨c', List.mem_cons_of_mem _ hc', hx⟩
    · obtain ⟨u, image, hu⟩ := List.exists_cons_of_ne_nil (upper_ne_nil c)
      rw [if_pos rfl, hu] at h
      exact ⟨c, List.mem_cons_self, hu ▸ h⟩

theorem head_pascalChars_ne_m (name : List Char) : (pascalChars true name).head? ≠ some 'm' := by
  intro h
  obtain ⟨c, -, hc⟩ := exists_upper_of_head_pascalChars h
  exact m_not_mem_upper c (List.mem_of_mem_head? hc)

theorem reversible_pascalChars :
    ∀ {name : List Char} {atStart : Bool}, (∀ c ∈ name, reversible c) →
      ∀ x ∈ pascalChars atStart name, reversible x
  | [], _, _ => by simp [pascalChars]
  | c :: rest, atStart, h => by
    obtain ⟨hc, hrest⟩ := List.forall_mem_cons.mp h
    rw [pascalChars]
    split
    · exact reversible_pascalChars hrest
    · have ih := @reversible_pascalChars rest false hrest
      split
      · obtain ⟨u, hu, -⟩ := reversible_iff.mp hc
        rw [hu]
        exact List.forall_mem_cons.mpr ⟨(reversible_upper hc hu).1, ih⟩
      · exact List.forall_mem_cons.mpr ⟨hc, ih⟩

theorem upper_head_pascalChars (h : ∀ c ∈ name, reversible c)
    (hc : (pascalChars true name).head? = some c) : upper c = [c] := by
  obtain ⟨b, hb, hhead⟩ := exists_upper_of_head_pascalChars hc
  obtain ⟨u, hu, hupper, -⟩ := reversible_iff.mp (h b hb)
  rw [hu, List.head?_cons] at hhead
  exact Option.some.inj hhead ▸ hupper

/-! ## Constants -/

/-- The name of which a constant was made, as far as it can be told: behind an underscore a letter
stays, and every other one becomes lower case.  The flag says that a letter to be kept comes
next. -/
def relax : Bool → List Char → List Char
  | _, [] => []
  | kept, c :: rest =>
    if kept then c :: relax false rest
    else if c = '_' then relax true rest
    else lower c ++ relax false rest

theorem relax_tail :
    ∀ {name : List Char}, (∀ c ∈ name, reversible c) → '_' ∉ name →
      relax false (upperAll (name.flatMap snakeLetter)) = name
  | [], _, _ => rfl
  | c :: rest, h, hnot => by
    obtain ⟨hc, hrest⟩ := List.forall_mem_cons.mp h
    obtain ⟨hne, hnotRest⟩ := not_or.mp (mt List.mem_cons.mpr hnot)
    have ih := relax_tail hrest hnotRest
    obtain ⟨u, hu, -, hbig, hsmall⟩ := reversible_iff.mp hc
    rw [List.flatMap_cons, upperAll, List.flatMap_append, ← upperAll, ← upperAll, snakeLetter]
    split
    · next hupper =>
      have hletter : upperAll ('_' :: lower c) = ['_', c] := by
        rw [upperAll, List.flatMap_cons, ← upperAll, (hbig hupper).2]
        rfl
      rw [hletter]
      exact congrArg (c :: ·) ih
    · next hupper =>
      have hlower := (hsmall (Bool.not_eq_true _ ▸ hupper)).1
      have hne' : u ≠ '_' := by
        rintro rfl
        exact hne (eq_underscore_of_mem_upper (hu ▸ List.mem_singleton_self _)).symm
      rw [upperAll, List.flatMap_singleton, hu, List.singleton_append, relax,
        if_neg Bool.false_ne_true, if_neg hne', hlower, ih]
      rfl

/-- **A constant gives back the type name** of which it is made. -/
theorem relax_upperAll_snakeChars (h : ∀ c ∈ name, reversible c) (hnot : '_' ∉ name)
    (hhead : ∀ c, name.head? = some c → upper c = [c]) :
    relax true (upperAll (snakeChars name)) = name := by
  cases name with
  | nil => rfl
  | cons c rest =>
    obtain ⟨hc, hrest⟩ := List.forall_mem_cons.mp h
    have htail := relax_tail hrest fun hmem => hnot (List.mem_cons_of_mem _ hmem)
    have hfirst : upperAll (if isUpper c then lower c else [c]) = [c] := by
      obtain ⟨u, -, -, hbig, -⟩ := reversible_iff.mp hc
      split
      · next hupper => exact (hbig hupper).2
      · rw [upperAll, List.flatMap_singleton, hhead c rfl]
    rw [snakeChars, upperAll, List.flatMap_append, ← upperAll, ← upperAll, hfirst]
    exact congrArg (c :: ·) htail

/-- **The constants of two documents are apart**, if their type names are and upper case can be
undone in the names of both. -/
theorem pascal_eq_of_screaming_eq {a b : String} (ha : ∀ c ∈ a.toList, reversible c)
    (hb : ∀ c ∈ b.toList, reversible c) (h : screaming (pascal a) = screaming (pascal b)) :
    pascal a = pascal b := by
  have hback {name : String} (hname : ∀ c ∈ name.toList, reversible c) :
      relax true (screaming (pascal name)).toList = (pascal name).toList := by
    rw [screaming, String.toList_ofList, pascal, String.toList_ofList]
    exact relax_upperAll_snakeChars (reversible_pascalChars hname)
      (underscore_not_mem_pascalChars _ _) fun c => upper_head_pascalChars hname
  have hsame := congrArg (fun constant : String => relax true constant.toList) h
  exact String.toList_injective ((hback ha).symm.trans (hsame.trans (hback hb)))

end Identifier

end SchemaLog
