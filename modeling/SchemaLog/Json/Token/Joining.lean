import SchemaLog.Json.Token.Lexing

/-!
# Json/Token/Joining — the tokens of two texts, one behind the other

    ofChars (cs ++ suffix) = ofChars cs ++ ofChars suffix

What is read at the front of a text is read there as well if more follows behind the text, as long
as a number at its end does not go on (`Numeral.endsBefore`); what is left is then followed by the
same.  So a text that has been cut into tokens to its end keeps them (`ofChars_append`).
-/

namespace SchemaLog

variable {cs ds rest suffix : List Char}

namespace Numeral

/-! ## Numbers -/

theorem whole?_eq_some_iff : whole? cs = some (ds, rest) ↔
    digits cs = (ds, rest) ∧ ds ≠ [] ∧ ∀ c more, ds ≠ '0' :: c :: more := by
  rw [whole?]
  rcases digits cs with ⟨ds', rest'⟩
  constructor
  · intro h
    split at h
    · cases h
    · cases h
    · next hnil hzero =>
      cases h
      exact ⟨rfl, fun heq => hnil _ (by rw [heq]), fun c more heq => hzero _ _ _ (by rw [heq])⟩
  · rintro ⟨heq, hnil, hzero⟩
    cases heq
    split
    · next heq => cases heq; exact absurd rfl hnil
    · next heq => cases heq; exact absurd rfl (hzero _ _)
    · rfl

theorem fraction?_point (more : List Char) : fraction? ('.' :: more) = some (ds, rest) ↔
    digits more = (ds, rest) ∧ ds ≠ [] := by
  rw [fraction?]
  rcases digits more with ⟨_ | ⟨d, ds'⟩, rest'⟩
  · refine iff_of_false (fun h => Option.some_ne_none _ h.symm) ?_
    rintro ⟨heq, hnil⟩
    cases heq
    exact hnil rfl
  · refine ⟨fun h => ?_, fun h => congrArg some h.1⟩
    cases h
    exact ⟨rfl, List.cons_ne_nil _ _⟩

theorem fraction?_of_ne {c : Char} (hc : c ≠ '.') (more : List Char) :
    fraction? (c :: more) = some ([], c :: more) := by
  rw [fraction?]
  rintro rest ⟨rfl, -⟩
  exact hc rfl

theorem exponent?_cons {c : Char} {e : Option (Bool × List Char)} (hc : c = 'e' ∨ c = 'E')
    (more : List Char) : exponent? (c :: more) = some (e, rest) ↔
      ∃ ds, digits (exponentSign more).2 = (ds, rest) ∧ ds ≠ []
        ∧ e = some ((exponentSign more).1, ds) := by
  rw [exponent?, if_pos hc]
  rcases digits (exponentSign more).2 with ⟨_ | ⟨d, ds'⟩, rest'⟩
  · refine iff_of_false (fun h => Option.some_ne_none _ h.symm) ?_
    rintro ⟨ds, heq, hnil, -⟩
    cases heq
    exact hnil rfl
  · constructor
    · intro h
      cases h
      exact ⟨_, rfl, List.cons_ne_nil _ _, rfl⟩
    · rintro ⟨ds, heq, -, rfl⟩
      cases heq
      rfl

theorem exponent?_of_ne {c : Char} (hc : ¬ (c = 'e' ∨ c = 'E')) (more : List Char) :
    exponent? (c :: more) = some (none, c :: more) := by
  rw [exponent?, if_neg hc]

/-- Digits end where they have ended. -/
theorem digits_append_suffix (hsuffix : endsBefore suffix = true) (h : digits cs = (ds, rest)) :
    digits (cs ++ suffix) = (ds, rest ++ suffix) := by
  obtain ⟨rfl, rfl⟩ := Prod.mk.inj h
  induction cs with
  | nil => exact digits_append (fun _ h => nomatch h) hsuffix
  | cons c more ih =>
    obtain ⟨hfront, hback⟩ := Prod.mk.inj (ih rfl)
    by_cases hc : c.isDigit = true
    · simp only [digits, List.cons_append, List.takeWhile_cons, List.dropWhile_cons, hc, if_true,
        hfront, hback]
    · simp only [digits, List.cons_append, List.takeWhile_cons, List.dropWhile_cons, hc,
        Bool.false_eq_true, if_false]

theorem whole?_append (hsuffix : endsBefore suffix = true) (h : whole? cs = some (ds, rest)) :
    whole? (cs ++ suffix) = some (ds, rest ++ suffix) := by
  obtain ⟨hdigits, hds⟩ := whole?_eq_some_iff.mp h
  exact whole?_eq_some_iff.mpr ⟨digits_append_suffix hsuffix hdigits, hds⟩

theorem fraction?_append (hsuffix : endsBefore suffix = true)
    (h : fraction? cs = some (ds, rest)) :
    fraction? (cs ++ suffix) = some (ds, rest ++ suffix) := by
  rcases cs with _ | ⟨c, more⟩
  · cases h
    exact fraction?_of_endsBefore hsuffix
  · by_cases hc : c = '.'
    · subst hc
      obtain ⟨hdigits, hnil⟩ := (fraction?_point more).mp h
      exact (fraction?_point _).mpr ⟨digits_append_suffix hsuffix hdigits, hnil⟩
    · rw [fraction?_of_ne hc] at h
      cases h
      exact fraction?_of_ne hc _

theorem exponentSign_cons (c : Char) (more : List Char) :
    exponentSign (c :: more) = if c = '+' then (false, more)
      else if c = '-' then (true, more) else (false, c :: more) := by
  rw [exponentSign.eq_def]
  split <;> simp_all

/-- The sign of an exponent that has digits is the same if more follows. -/
theorem exponentSign_append (suffix : List Char) (h : digits (exponentSign cs).2 = (ds, rest))
    (hds : ds ≠ []) :
    exponentSign (cs ++ suffix) = ((exponentSign cs).1, (exponentSign cs).2 ++ suffix) := by
  rcases cs with _ | ⟨c, more⟩
  · cases h
    exact absurd rfl hds
  · rw [List.cons_append, exponentSign_cons, exponentSign_cons]
    split
    · rfl
    · split <;> rfl

theorem exponent?_append {e : Option (Bool × List Char)} (hsuffix : endsBefore suffix = true)
    (h : exponent? cs = some (e, rest)) :
    exponent? (cs ++ suffix) = some (e, rest ++ suffix) := by
  rcases cs with _ | ⟨c, more⟩
  · cases h
    exact exponent?_of_endsBefore hsuffix
  · by_cases hc : c = 'e' ∨ c = 'E'
    · obtain ⟨ds, hdigits, hnil, rfl⟩ := (exponent?_cons hc more).mp h
      have hsign := exponentSign_append suffix hdigits hnil
      refine (exponent?_cons hc (more ++ suffix)).mpr ⟨ds, ?_, hnil, by rw [hsign]⟩
      rw [hsign]
      exact digits_append_suffix hsuffix hdigits
    · rw [exponent?_of_ne hc] at h
      cases h
      exact exponent?_of_ne hc _

theorem unsigned?_append {negative : Bool} {n : Numeral} (hsuffix : endsBefore suffix = true)
    (h : unsigned? negative cs = some (n, rest)) :
    unsigned? negative (cs ++ suffix) = some (n, rest ++ suffix) := by
  simp only [unsigned?, Option.bind_eq_bind, Option.bind_eq_some_iff, Option.pure_def,
    Option.some.injEq, Prod.mk.injEq, Prod.exists] at h
  obtain ⟨ds, r₁, hwhole, fs, r₂, hfraction, e, r₃, hexponent, rfl, rfl⟩ := h
  simp only [unsigned?, whole?_append hsuffix hwhole, fraction?_append hsuffix hfraction,
    exponent?_append hsuffix hexponent, Option.bind_eq_bind, Option.bind_some, Option.pure_def]

theorem read?_of_ne {c : Char} (hc : c ≠ '-') (more : List Char) :
    read? (c :: more) = unsigned? false (c :: more) := by
  rw [read?]
  rintro rest ⟨rfl, -⟩
  exact hc rfl

/-- **A number ends where it has ended**, whatever follows that does not go on with it. -/
theorem read?_append {n : Numeral} (hsuffix : endsBefore suffix = true)
    (h : read? cs = some (n, rest)) : read? (cs ++ suffix) = some (n, rest ++ suffix) := by
  rcases cs with _ | ⟨c, more⟩
  · cases h
  · by_cases hc : c = '-'
    · subst hc
      exact unsigned?_append hsuffix h
    · rw [read?_of_ne hc] at h
      rw [List.cons_append, read?_of_ne hc]
      exact unsigned?_append hsuffix h

end Numeral

namespace Quoted

/-! ## Quoted texts -/

theorem pieces?_unit {a b c d : Char} {unit : Nat} (h : unit? a b c d = some unit)
    (rest : List Char) : pieces? ('\\' :: 'u' :: a :: b :: c :: d :: rest)
      = prepend (.ofUnit unit) (pieces? rest) := by
  rw [pieces?, if_neg (by decide), if_pos rfl]
  simp only [h]

theorem pieces?_letter {e c : Char} (h : escaped? e = some c) (rest : List Char) :
    pieces? ('\\' :: e :: rest) = prepend (.char c) (pieces? rest) := by
  rw [pieces?, if_neg (by decide), if_pos rfl]
  · simp only [h]
  · rintro a b c d more rfl -
    cases h

/-- **A quoted text ends with its quotation mark**, whatever follows. -/
theorem pieces?_append {ps : List Piece} (suffix : List Char)
    (h : pieces? cs = some (ps, rest)) : pieces? (cs ++ suffix) = some (ps, rest ++ suffix) := by
  have hprepend {p : Piece} {front rest : List Char} {ps : List Piece}
      (ih : ∀ {rest ps}, pieces? front = some (ps, rest) →
        pieces? (front ++ suffix) = some (ps, rest ++ suffix))
      (h : prepend p (pieces? front) = some (ps, rest)) :
      prepend p (pieces? (front ++ suffix)) = some (ps, rest ++ suffix) := by
    obtain ⟨more, hread, rfl⟩ := prepend_eq_some_iff.mp h
    exact prepend_eq_some_iff.mpr ⟨more, ih hread, rfl⟩
  fun_induction pieces? cs generalizing ps rest with
  | case1 | case4 | case6 | case7 | case8 => cases h
  | case2 =>
    cases h
    exact pieces?_closing _
  | case3 a b c d more unit hunit _ ih => exact (pieces?_unit hunit _).trans (hprepend ih h)
  | case5 e more _ c hletter _ ih => exact (pieces?_letter hletter _).trans (hprepend ih h)
  | case9 c more hquote hescape hcontrol ih =>
    exact (pieces?_cons hquote hescape hcontrol _).trans (hprepend ih h)

end Quoted

namespace Token

/-! ## Tokens -/

/-- A number begins like no word. -/
theorem scalar?_of_numeral {n : Numeral} (h : Numeral.read? cs = some (n, rest)) :
    scalar? cs = some (ofNumeral n, rest) := by
  rw [scalar?.eq_def]
  split
  iterate 3
    · cases h
  · rw [h]
    rfl

theorem scalar?_append {v : Json} (hsuffix : Numeral.endsBefore suffix = true)
    (h : scalar? cs = some (v, rest)) : scalar? (cs ++ suffix) = some (v, rest ++ suffix) := by
  rw [scalar?.eq_def] at h
  split at h
  iterate 3
    · cases h
      rfl
  · obtain ⟨⟨n, r⟩, hread, heq⟩ := Option.map_eq_some_iff.mp h
    cases heq
    exact scalar?_of_numeral (Numeral.read?_append hsuffix hread)

/-- **A token ends where it has ended**, whatever follows that does not go on with a number. -/
theorem read?_append {c : Char} {t : Token} (hsuffix : Numeral.endsBefore suffix = true)
    (h : read? c cs = some (t, rest)) : read? c (cs ++ suffix) = some (t, rest ++ suffix) := by
  rw [read?] at h ⊢
  split at h
  · cases h
    rfl
  · split at h
    · next hquote =>
      obtain ⟨⟨ps, r⟩, hpieces, heq⟩ := Option.map_eq_some_iff.mp h
      cases heq
      rw [if_pos hquote, Quoted.pieces?_append suffix hpieces]
      rfl
    · next hquote =>
      obtain ⟨⟨v, r⟩, hscalar, heq⟩ := Option.map_eq_some_iff.mp h
      cases heq
      rw [if_neg hquote, ← List.cons_append, scalar?_append hsuffix hscalar]
      rfl

/-- Where no token can be read, nothing after it is. -/
theorem ofChars_of_read?_none {c : Char} (hc : isBlank c = false) (h : read? c cs = none) :
    ofChars (c :: cs) = [junk] := by
  simp only [ofChars, List.length_cons, upTo, List.dropWhile_cons, hc, Bool.false_eq_true,
    if_false, h]

/-- **A text that is cut into tokens to its end keeps them in front of another**; every token takes
a character at least. -/
theorem ofChars_append (hsuffix : Numeral.endsBefore suffix = true) :
    ∀ {cs : List Char}, junk ∉ ofChars cs → ofChars (cs ++ suffix) = ofChars cs ++ ofChars suffix
  | [], _ => rfl
  | c :: more, hjunk => by
    rw [List.cons_append]
    by_cases hc : isBlank c = true
    · rw [ofChars_blank hc] at hjunk
      rw [ofChars_blank hc, ofChars_blank hc, ofChars_append hsuffix hjunk]
    · rw [Bool.not_eq_true] at hc
      rcases hread : read? c more with _ | ⟨t, rest⟩
      · rw [ofChars_of_read?_none hc hread] at hjunk
        exact absurd (List.mem_singleton_self junk) hjunk
      · have hshort : rest.length < more.length + 1 := Nat.lt_succ_of_le (length_of_read? hread)
        rw [ofChars_of_read? hc hread, List.mem_cons, not_or] at hjunk
        rw [ofChars_of_read? hc hread, ofChars_of_read? hc (read?_append hsuffix hread),
          List.cons_append, ofChars_append hsuffix hjunk.2]
termination_by cs => cs.length

end Token

end SchemaLog
