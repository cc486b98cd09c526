import SchemaLog.Json.Numeral

/-!
# Json/Numeral/Digits — numbers written in digits alone

A natural number is read back from its digits (`read?_toDigits`), as long as what follows cannot go
on with it, and one below 2⁶⁴ is in range (`isOutOfRange_ofNatural`).  Any number, however written,
takes at least one character (`length_of_read?`).
-/

namespace SchemaLog

namespace Numeral

/-! ## Digits are read back -/

/-- Whether a number can end in front of a text: what follows does not go on with it. -/
def endsBefore : List Char → Bool
  | [] => true
  | c :: _ => !c.isDigit && c != '.' && c != 'e' && c != 'E'

/-- The number that is written in digits alone. -/
def ofNatural (n : Nat) : Numeral :=
  ⟨false, Nat.toDigits 10 n, [], none⟩

@[simp] theorem value_toDigits (n : Nat) : value (Nat.toDigits 10 n) = n :=
  Nat.ofDigitChars_toDigits (by decide) (by decide)

theorem isDigit_of_mem_toDigits {n : Nat} {c : Char} (h : c ∈ Nat.toDigits 10 n) :
    c.isDigit = true :=
  Nat.isDigit_of_mem_toDigits (by decide) (by decide) h

/-- Digits in front of what is no digit are read as far as they go. -/
theorem digits_append {ds rest : List Char} (hd : ∀ c ∈ ds, c.isDigit = true)
    (hr : endsBefore rest = true) : digits (ds ++ rest) = (ds, rest) := by
  have hstop : rest.takeWhile Char.isDigit = [] ∧ rest.dropWhile Char.isDigit = rest := by
    cases rest with
    | nil => exact ⟨rfl, rfl⟩
    | cons c more =>
      have hc : c.isDigit = false := by
        simp only [endsBefore, Bool.and_eq_true, Bool.not_eq_true'] at hr
        exact hr.1.1.1
      simp [hc]
  unfold digits
  rw [List.takeWhile_append_of_pos hd, List.dropWhile_append_of_pos hd, hstop.1, hstop.2,
    List.append_nil]

/-- A number of several digits does not begin with a zero. -/
theorem toDigits_ne_zero_cons (n : Nat) (c : Char) (more : List Char) :
    Nat.toDigits 10 n ≠ '0' :: c :: more := by
  induction n using Nat.strongRecOn generalizing c more with
  | ind n ih =>
    rw [Nat.toDigits_eq_if (by decide)]
    split
    · simp
    · next h =>
      intro he
      cases hd : Nat.toDigits 10 (n / 10) with
      | nil => exact Nat.toDigits_ne_nil hd
      | cons d ds =>
        rw [hd] at he
        obtain ⟨rfl, he⟩ := List.cons.inj (by simpa using he)
        cases ds with
        | nil =>
          have := value_toDigits (n / 10)
          rw [hd] at this
          have h0 : value ['0'] = 0 := by decide
          omega
        | cons e es => exact ih (n / 10) (by omega) e es hd

theorem whole?_toDigits (n : Nat) {rest : List Char} (hr : endsBefore rest = true) :
    whole? (Nat.toDigits 10 n ++ rest) = some (Nat.toDigits 10 n, rest) := by
  unfold whole?
  rw [digits_append (fun c => isDigit_of_mem_toDigits) hr]
  split
  · next h => exact absurd (congrArg Prod.fst h) Nat.toDigits_ne_nil
  · next h => exact absurd (congrArg Prod.fst h) (toDigits_ne_zero_cons n _ _)
  · rfl

theorem fraction?_of_endsBefore {rest : List Char} (hr : endsBefore rest = true) :
    fraction? rest = some ([], rest) := by
  cases rest with
  | nil => rfl
  | cons c more =>
    have hc : c ≠ '.' := by
      simp only [endsBefore, Bool.and_eq_true, bne_iff_ne, ne_eq] at hr
      exact hr.1.1.2
    unfold fraction?
    split
    · next h => exact absurd (List.cons.inj h).1 hc
    · rfl

theorem exponent?_of_endsBefore {rest : List Char} (hr : endsBefore rest = true) :
    exponent? rest = some (none, rest) := by
  cases rest with
  | nil => rfl
  | cons c more =>
    have hc : ¬(c = 'e' ∨ c = 'E') := by
      simp only [endsBefore, Bool.and_eq_true, bne_iff_ne, ne_eq] at hr
      exact not_or.mpr ⟨hr.1.2, hr.2⟩
    simp only [exponent?, if_neg hc]

/-- **A natural number is read back from its digits**, up to what cannot go on with it. -/
theorem read?_toDigits (n : Nat) {rest : List Char} (hr : endsBefore rest = true) :
    read? (Nat.toDigits 10 n ++ rest) = some (ofNatural n, rest) := by
  have hu : unsigned? false (Nat.toDigits 10 n ++ rest) = some (ofNatural n, rest) := by
    simp [unsigned?, whole?_toDigits n hr, fraction?_of_endsBefore hr, exponent?_of_endsBefore hr,
      ofNatural]
  unfold read?
  split
  · next h =>
    cases hd : Nat.toDigits 10 n with
    | nil => exact absurd hd Nat.toDigits_ne_nil
    | cons d ds =>
      rw [hd] at h
      obtain ⟨rfl, -⟩ := List.cons.inj h
      have := isDigit_of_mem_toDigits (n := n) (c := '-') (by simp [hd])
      simp at this
  · exact hu

@[simp] theorem natural?_ofNatural (n : Nat) : (ofNatural n).natural? = some n := by
  simp [natural?, ofNatural]

theorem le_foldl_addDigit (ds : List Char) : ∀ n : Nat, n ≤ ds.foldl addDigit n := by
  induction ds with
  | nil => exact fun n => Nat.le_refl n
  | cons c more ih =>
    intro n
    have hc : n ≤ addDigit n c := by
      simp only [addDigit]
      omega
    exact Nat.le_trans hc (ih (addDigit n c))

/-- Digits of a word of 64 bits are all taken in. -/
theorem absorb_of_lt : ∀ (ds : List Char) (n : Nat), ds.foldl addDigit n < UInt64.size →
    absorb n ds = (ds.foldl addDigit n, 0)
  | [], _, _ => rfl
  | c :: more, n, h => by
    have hc : addDigit n c < UInt64.size := Nat.lt_of_le_of_lt (le_foldl_addDigit more _) h
    simp only [absorb, if_pos hc, List.foldl_cons]
    exact absorb_of_lt more _ h

theorem round53_le {n : Nat} (h : n < UInt64.size) : round53 n ≤ 1 <<< 65 := by
  have hlog : n.log2 ≤ 63 := by
    by_cases h0 : n = 0
    · simp [h0]
    · exact Nat.le_of_lt_succ ((Nat.log2_lt h0).mpr h)
  have hdrop : n.log2 - 52 ≤ 11 := by omega
  have hd : 2 ^ (n.log2 - 52) ≤ 2 ^ 11 := Nat.pow_le_pow_right (by decide) hdrop
  have hq := Nat.div_mul_le_self n (2 ^ (n.log2 - 52))
  simp only [round53, Nat.shiftLeft_eq, Nat.shiftRight_eq_div_pow]
  have h64 : UInt64.size = 2 ^ 64 := rfl
  split
  · rw [Nat.add_mul]
    omega
  · omega

/-- A natural number that fits into a word of 64 bits is in range. -/
theorem isOutOfRange_ofNatural {n : Nat} (h : n < UInt64.size) :
    (ofNatural n).isOutOfRange = false := by
  have hv : (Nat.toDigits 10 n).foldl addDigit 0 = n := value_toDigits n
  have ha := absorb_of_lt (Nat.toDigits 10 n) 0 (by rw [hv]; exact h)
  rw [hv] at ha
  have hr := round53_le h
  have hbig : (1 : Nat) <<< 65 < 1 <<< 1024 - 1 <<< 970 := by decide
  have h1 : round53 (Nat.pow 10 0) = 1 := by decide
  have hsmall : ¬1 <<< 1024 - 1 <<< 970 ≤ round53 n * round53 (Nat.pow 10 0) := by
    rw [h1, Nat.mul_one]
    omega
  simp only [isOutOfRange, ofNatural, ha, absorb]
  change isInfinite n (.ofNat 0) = false
  simp only [isInfinite, hsmall, decide_false, Bool.or_false]
  simp

/-! ## A number takes a character -/

theorem digits_append_digits (cs : List Char) : (digits cs).1 ++ (digits cs).2 = cs :=
  List.takeWhile_append_dropWhile

theorem length_of_whole? {cs ds rest : List Char} (h : whole? cs = some (ds, rest)) :
    rest.length < cs.length := by
  have happ := digits_append_digits cs
  unfold whole? at h
  split at h
  · cases h
  · cases h
  · next hne _ =>
    have hd := Option.some.inj h
    rw [hd] at happ
    have hlen := congrArg List.length happ
    have hds : ds ≠ [] := fun h0 => hne rest (by rw [hd, h0])
    have := List.length_pos_iff.mpr hds
    simp only [List.length_append] at hlen
    omega

theorem length_of_fraction? {cs ds rest : List Char} (h : fraction? cs = some (ds, rest)) :
    rest.length ≤ cs.length := by
  unfold fraction? at h
  split at h
  · next more =>
    have happ := congrArg List.length (digits_append_digits more)
    split at h
    · cases h
    · rw [Option.some.inj h] at happ
      simp only [List.length_append, List.length_cons] at happ ⊢
      omega
  · cases h
    exact Nat.le_refl _

theorem length_exponentSign (cs : List Char) : (exponentSign cs).2.length ≤ cs.length := by
  unfold exponentSign
  split <;> simp

theorem length_of_exponent? {cs rest : List Char} {e : Option (Bool × List Char)}
    (h : exponent? cs = some (e, rest)) : rest.length ≤ cs.length := by
  unfold exponent? at h
  split at h
  · next c more =>
    have hsign := length_exponentSign more
    have happ := congrArg List.length (digits_append_digits (exponentSign more).2)
    split at h
    · split at h
      · cases h
      · next hd =>
        rw [hd] at happ
        cases h
        simp only [List.length_append, List.length_cons] at happ ⊢
        omega
    · cases h
      exact Nat.le_refl _
  · cases h
    exact Nat.le_refl _

theorem length_of_unsigned? {negative : Bool} {cs rest : List Char} {n : Numeral}
    (h : unsigned? negative cs = some (n, rest)) : rest.length < cs.length := by
  unfold unsigned? at h
  simp only [Option.bind_eq_bind, Option.bind_eq_some_iff, Option.pure_def, Option.some.injEq,
    Prod.mk.injEq, Prod.exists] at h
  obtain ⟨ds, r1, h1, fs, r2, h2, e, r3, h3, -, rfl⟩ := h
  exact Nat.lt_of_le_of_lt
    (Nat.le_trans (length_of_exponent? h3) (length_of_fraction? h2)) (length_of_whole? h1)

/-- A number takes at least one character. -/
theorem length_of_read? {cs rest : List Char} {n : Numeral} (h : read? cs = some (n, rest)) :
    rest.length < cs.length := by
  unfold read? at h
  split at h
  · exact Nat.lt_succ_of_lt (length_of_unsigned? h)
  · exact length_of_unsigned? h

end Numeral

end SchemaLog
