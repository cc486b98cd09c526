import SchemaLog.Json.Numeral.Digits
import SchemaLog.Json.Token

/-!
# Json/Token/Lexing — the tokens of a text, one after the other

Every token takes at least the character it starts with, so the bound in `Token.ofChars` is never
met (`upTo_of_length_le`).  What is left are two equations without any bound: blanks are dropped
(`ofChars_blank`), and a token is followed by the tokens of the rest (`ofChars_of_read?`).
-/

namespace SchemaLog

namespace Quoted

theorem prepend_eq_some_iff {p : Piece} {read : Option (List Piece × List Char)}
    {ps : List Piece} {rest : List Char} :
    prepend p read = some (ps, rest) ↔ ∃ more, read = some (more, rest) ∧ ps = p :: more := by
  cases read with
  | none => simp [prepend]
  | some r =>
    obtain ⟨more, rest'⟩ := r
    simp only [prepend, Option.map_some, Option.some.injEq, Prod.mk.injEq]
    grind

/-- A quoted text takes at least its closing quotation mark. -/
theorem length_of_pieces? {cs rest : List Char} {ps : List Piece}
    (h : pieces? cs = some (ps, rest)) : rest.length < cs.length := by
  fun_induction pieces? cs generalizing ps rest <;> simp_all [prepend_eq_some_iff] <;> grind

end Quoted

namespace Token

/-! ## A token takes a character -/

theorem length_of_scalar? {cs rest : List Char} {v : Json} (h : scalar? cs = some (v, rest)) :
    rest.length < cs.length := by
  unfold scalar? at h
  split at h
  iterate 3
    · cases h
      simp only [List.length_cons]
      omega
  · simp only [Option.map_eq_some_iff, Prod.mk.injEq, Prod.exists] at h
    obtain ⟨n, r, hr, -, rfl⟩ := h
    exact Numeral.length_of_read? hr

/-- A token takes at least the character it starts with. -/
theorem length_of_read? {c : Char} {cs rest : List Char} {t : Token}
    (h : read? c cs = some (t, rest)) : rest.length ≤ cs.length := by
  unfold read? at h
  split at h
  · cases h
    exact Nat.le_refl _
  · split at h
    · simp only [Option.map_eq_some_iff, Prod.mk.injEq, Prod.exists] at h
      obtain ⟨ps, r, hr, -, rfl⟩ := h
      exact Nat.le_of_lt (Quoted.length_of_pieces? hr)
    · simp only [Option.map_eq_some_iff, Prod.mk.injEq, Prod.exists] at h
      obtain ⟨v, r, hr, -, rfl⟩ := h
      exact Nat.le_of_lt_succ (length_of_scalar? hr)

/-! ## The bound is never met -/

theorem upTo_eq_upTo : ∀ {n m : Nat} {cs : List Char}, cs.length ≤ n → cs.length ≤ m →
    upTo n cs = upTo m cs
  | 0, 0, [], _, _ => rfl
  | 0, _ + 1, [], _, _ => rfl
  | _ + 1, 0, [], _, _ => rfl
  | n + 1, m + 1, cs, hn, hm => by
    simp only [upTo]
    have hlen := (List.dropWhile_suffix (p := isBlank) (l := cs)).length_le
    cases hd : cs.dropWhile isBlank with
    | nil => rfl
    | cons c rest =>
      rw [hd] at hlen
      simp only [List.length_cons] at hlen
      cases hr : read? c rest with
      | none => simp only [hr]
      | some r =>
        obtain ⟨t, rest'⟩ := r
        have := length_of_read? hr
        simp only [hr]
        rw [upTo_eq_upTo (n := n) (m := m) (by omega) (by omega)]

/-- **A text has no more tokens than characters**, so allowing for more changes nothing. -/
theorem upTo_of_length_le {n : Nat} {cs : List Char} (h : cs.length ≤ n) :
    upTo n cs = ofChars cs :=
  upTo_eq_upTo h (Nat.le_refl _)

@[simp] theorem ofChars_nil : ofChars [] = [] := rfl

/-- Blanks between tokens are dropped. -/
theorem ofChars_blank {c : Char} (hc : isBlank c = true) (rest : List Char) :
    ofChars (c :: rest) = ofChars rest := by
  have hbound : upTo (rest.length + 1) rest = ofChars rest := upTo_of_length_le (Nat.le_succ _)
  rw [← hbound]
  simp only [ofChars, List.length_cons, upTo, List.dropWhile_cons, hc, if_true]

theorem ofChars_blanks {blanks : List Char} (h : ∀ c ∈ blanks, isBlank c = true)
    (rest : List Char) : ofChars (blanks ++ rest) = ofChars rest := by
  induction blanks with
  | nil => rfl
  | cons c more ih =>
    rw [List.cons_append, ofChars_blank (h c (by simp)), ih fun c hc => h c (by simp [hc])]

/-- The token at the front, and then the tokens of what follows it. -/
theorem ofChars_of_read? {c : Char} {cs rest : List Char} {t : Token} (hc : isBlank c = false)
    (h : read? c cs = some (t, rest)) : ofChars (c :: cs) = t :: ofChars rest := by
  have hbound : upTo cs.length rest = ofChars rest := upTo_of_length_le (length_of_read? h)
  rw [← hbound]
  simp only [ofChars, List.length_cons, upTo, List.dropWhile_cons, hc, Bool.false_eq_true, if_false,
    h]

end Token

end SchemaLog
