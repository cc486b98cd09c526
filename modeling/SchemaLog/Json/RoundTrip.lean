import SchemaLog.Json.Reader
import SchemaLog.Json.Token.Lexing
import SchemaLog.Json.Writer

/-!
# Json/RoundTrip — what is written of a value is read as the value

    value  --write-->  text  --Token.ofChars-->  tokens  --read?-->  value

Both ways meet in the tokens of a value (`Json.tokens`), which no layout changes: the written text
has them (`ofChars_write`), and the reader makes the value of them (`readFrom?_tokens`).  Values
that are written but not read back are left out by `Json.fits`.
-/

namespace SchemaLog

namespace Json

/-! ## The tokens of a value -/

mutual

/-- The tokens of a value as it is written. -/
def tokens : Json → List Token
  | .null => [.scalar .null]
  | .bool b => [.scalar (.bool b)]
  | .natural n => [.scalar (.natural n)]
  | .number text => [.scalar (.number text)]
  | .string s => [.text (some s)]
  | .array [] => [.openBracket, .closeBracket]
  | .array (item :: rest) => .openBracket :: (item.tokens ++ itemTokens rest ++ [.closeBracket])
  | .object [] => [.openBrace, .closeBrace]
  | .object ((key, value) :: rest) =>
    .openBrace :: .text (some key) :: .colon
      :: (value.tokens ++ memberTokens rest ++ [.closeBrace])
  | .unreadable => [.scalar .null]

/-- The tokens of the items behind the first, each with its comma. -/
def itemTokens : List Json → List Token
  | [] => []
  | item :: rest => .comma :: (item.tokens ++ itemTokens rest)

/-- The tokens of the members behind the first, each with its comma. -/
def memberTokens : List (String × Json) → List Token
  | [] => []
  | (key, value) :: rest =>
    .comma :: .text (some key) :: .colon :: (value.tokens ++ memberTokens rest)

end

mutual

/-- Whether a value is read back from its text where lists and objects may stand inside each other
up to the given number: its numbers are words of 64 bits, and all of it can be read. -/
def fits (room : Nat) : Json → Bool
  | .natural n => n < UInt64.size
  | .number _ => false
  | .array items => room != 0 && itemsFit (room - 1) items
  | .object members => room != 0 && membersFit (room - 1) members
  | .unreadable => false
  | _ => true

/-- Whether all items of a list fit. -/
def itemsFit (room : Nat) : List Json → Bool
  | [] => true
  | item :: rest => item.fits room && itemsFit room rest

/-- Whether the values of all members fit. -/
def membersFit (room : Nat) : List (String × Json) → Bool
  | [] => true
  | (_, value) :: rest => value.fits room && membersFit room rest

end

/-! ## Tokens are read as the value -/

theorem tokens_ne_closeBracket (v : Json) (ts more : List Token) :
    v.tokens ++ ts ≠ .closeBracket :: more := by
  rcases v with _ | _ | _ | _ | _ | (_ | _) | (_ | ⟨⟨_, _⟩, _⟩) | _ <;> simp [tokens]

theorem keyed?_map_some (members : List (String × Json)) :
    keyed? (members.map fun m => (some m.1, m.2)) = some members := by
  induction members with
  | nil => rfl
  | cons m rest ih => simp [keyed?, ih]

mutual

/-- **The tokens of a value are read as the value**, inside as many others as it leaves room for. -/
theorem readFrom?_tokens : ∀ (v : Json) (fs : List Frame) (ts : List Token),
    v.fits (nestingLimit - fs.length) = true →
      readFrom? none fs (v.tokens ++ ts) = readFrom? (some v) fs ts
  | .null, fs, ts, _ => by simp [tokens, readFrom?]
  | .bool b, fs, ts, _ => by simp [tokens, readFrom?]
  | .natural n, fs, ts, _ => by simp [tokens, readFrom?]
  | .number text, fs, ts, _ => by simp [tokens, readFrom?]
  | .string s, fs, ts, _ => by simp [tokens, readFrom?, ofText]
  | .array [], fs, ts, h => by
    have hroom : fs.length < nestingLimit := by simp [fits] at h; omega
    simp [tokens, readFrom?, ofItems, hroom]
  | .array (item :: rest), fs, ts, h => by
    simp only [fits, itemsFit, Bool.and_eq_true, bne_iff_ne, ne_eq, Nat.sub_sub] at h
    have hroom : fs.length < nestingLimit := by omega
    have hitem := readFrom?_tokens item (.items [] :: fs)
      (itemTokens rest ++ .closeBracket :: ts) h.2.1
    have hrest := readFrom?_itemTokens rest item [] fs ts h.2.2
    simp only [tokens, List.cons_append, List.append_assoc, List.nil_append]
    rw [readFrom?, hitem, hrest]
    · simp [ofItems, hroom]
    · exact fun more => tokens_ne_closeBracket item _ more
  | .object [], fs, ts, h => by
    have hroom : fs.length < nestingLimit := by simp [fits] at h; omega
    simp [tokens, readFrom?, ofMembers, hroom, keyed?]
  | .object ((key, value) :: rest), fs, ts, h => by
    simp only [fits, membersFit, Bool.and_eq_true, bne_iff_ne, ne_eq, Nat.sub_sub] at h
    have hroom : fs.length < nestingLimit := by omega
    have hvalue := readFrom?_tokens value (.members [] (some key) :: fs)
      (memberTokens rest ++ .closeBrace :: ts) h.2.1
    have hrest := readFrom?_memberTokens rest value [] key fs ts h.2.2
    simp only [tokens, List.cons_append, List.append_assoc, List.nil_append]
    rw [readFrom?, hvalue, hrest]
    have hkeys := keyed?_map_some ((key, value) :: rest)
    simp only [List.map_cons] at hkeys
    simp [ofMembers, hroom, hkeys]
  | .unreadable, fs, ts, h => by simp [fits] at h

theorem readFrom?_itemTokens : ∀ (items : List Json) (v : Json) (before : List Json)
    (fs : List Frame) (ts : List Token), itemsFit (nestingLimit - (fs.length + 1)) items = true →
      readFrom? (some v) (.items before :: fs) (itemTokens items ++ .closeBracket :: ts)
        = readFrom? (some (ofItems fs.length (items.reverse ++ v :: before))) fs ts
  | [], v, before, fs, ts, _ => by simp [itemTokens, readFrom?]
  | item :: rest, v, before, fs, ts, h => by
    simp only [itemsFit, Bool.and_eq_true] at h
    have hitem := readFrom?_tokens item (.items (v :: before) :: fs)
      (itemTokens rest ++ .closeBracket :: ts) h.1
    have hrest := readFrom?_itemTokens rest item (v :: before) fs ts h.2
    simp only [itemTokens, List.cons_append, List.append_assoc]
    rw [readFrom?, hitem, hrest]
    simp

theorem readFrom?_memberTokens : ∀ (members : List (String × Json)) (v : Json)
    (before : List (Option String × Json)) (key : String) (fs : List Frame) (ts : List Token),
      membersFit (nestingLimit - (fs.length + 1)) members = true →
        readFrom? (some v) (.members before (some key) :: fs)
            (memberTokens members ++ .closeBrace :: ts)
          = readFrom? (some (ofMembers fs.length
              ((members.map fun m => (some m.1, m.2)).reverse ++ (some key, v) :: before))) fs ts
  | [], v, before, key, fs, ts, _ => by simp [memberTokens, readFrom?]
  | (key', value) :: rest, v, before, key, fs, ts, h => by
    simp only [membersFit, Bool.and_eq_true] at h
    have hvalue := readFrom?_tokens value (.members ((some key, v) :: before) (some key') :: fs)
      (memberTokens rest ++ .closeBrace :: ts) h.1
    have hrest := readFrom?_memberTokens rest value ((some key, v) :: before) key' fs ts h.2
    simp only [memberTokens, List.cons_append, List.append_assoc]
    rw [readFrom?, hvalue, hrest]
    simp

end

/-! ## The written text has these tokens -/

/-- A layout that puts nothing but blanks between tokens. -/
def Layout.IsBlank (l : Layout) : Prop :=
  (∀ depth, ∀ c ∈ l.lineBreak depth, Token.isBlank c = true) ∧
    ∀ c ∈ l.afterColon, Token.isBlank c = true

theorem Layout.isBlank_compact : Layout.compact.IsBlank :=
  ⟨fun _ _ h => (List.not_mem_nil h).elim, fun _ h => (List.not_mem_nil h).elim⟩

theorem Layout.isBlank_indented : Layout.indented.IsBlank := by
  refine ⟨fun depth c h => ?_, fun c h => ?_⟩
  · rcases List.mem_cons.mp h with rfl | h
    · decide
    · obtain rfl := (List.mem_replicate.mp h).2
      decide
  · obtain rfl := List.mem_singleton.mp h
    decide

theorem endsBefore_blanks {blanks rest : List Char} (h : ∀ c ∈ blanks, Token.isBlank c = true)
    (hr : Numeral.endsBefore rest = true) : Numeral.endsBefore (blanks ++ rest) = true := by
  cases blanks with
  | nil => exact hr
  | cons c more =>
    have hc := h c (by simp)
    simp only [Token.isBlank, Bool.or_eq_true, beq_iff_eq] at hc
    rcases hc with ((rfl | rfl) | rfl) | rfl <;> rfl

theorem ofChars_text (s : String) (rest : List Char) :
    Token.ofChars (Quoted.write s.toList ++ rest) = .text (some s) :: Token.ofChars rest := by
  have hp := Quoted.pieces?_write s.toList rest
  have hr : Token.read? '"' (s.toList.flatMap Quoted.escape ++ '"' :: rest)
      = some (.text (some s), rest) := by
    simp [Token.read?, Token.punctuation?, hp, Quoted.text?_map_char]
  have := Token.ofChars_of_read? (c := '"') (by decide) hr
  simpa [Quoted.write] using this

theorem ofChars_scalar {c : Char} {cs rest : List Char} {v : Json}
    (hc : Token.isBlank c = false ∧ Token.punctuation? c = none ∧ c ≠ '"')
    (h : Token.scalar? (c :: cs) = some (v, rest)) :
    Token.ofChars (c :: cs) = .scalar v :: Token.ofChars rest :=
  Token.ofChars_of_read? hc.1 (by simp [Token.read?, hc.2.1, hc.2.2, h])

/-- A digit starts no token but a number. -/
theorem startsNumber_of_isDigit {d : Char} (h : d.isDigit = true) :
    Token.isBlank d = false ∧ Token.punctuation? d = none ∧ d ≠ '"' := by
  refine ⟨?_, ?_, ?_⟩
  · cases hb : Token.isBlank d with
    | false => rfl
    | true =>
      simp only [Token.isBlank, Bool.or_eq_true, beq_iff_eq] at hb
      rcases hb with ((rfl | rfl) | rfl) | rfl <;> simp at h
  · unfold Token.punctuation?
    split
    all_goals first | rfl | simp at h
  · rintro rfl
    simp at h

theorem ofChars_natural {n : Nat} (hn : n < UInt64.size) {rest : List Char}
    (hr : Numeral.endsBefore rest = true) :
    Token.ofChars (writeNatural n ++ rest) = .scalar (.natural n) :: Token.ofChars rest := by
  have hread := Numeral.read?_toDigits n hr
  unfold writeNatural
  cases hd : Nat.toDigits 10 n with
  | nil => exact absurd hd Nat.toDigits_ne_nil
  | cons d ds =>
    have hdigit : d.isDigit = true := Numeral.isDigit_of_mem_toDigits (n := n) (by simp [hd])
    have hv : Token.ofNumeral (Numeral.ofNatural n) = .natural n := by
      simp [Token.ofNumeral, Numeral.isOutOfRange_ofNatural hn]
    rw [hd] at hread
    rw [List.cons_append] at hread ⊢
    refine ofChars_scalar (startsNumber_of_isDigit hdigit) ?_
    unfold Token.scalar?
    split
    · next h => obtain ⟨rfl, -⟩ := List.cons.inj h; simp at hdigit
    · next h => obtain ⟨rfl, -⟩ := List.cons.inj h; simp at hdigit
    · next h => obtain ⟨rfl, -⟩ := List.cons.inj h; simp at hdigit
    · simp [hread, hv]

theorem ofChars_punctuation {c : Char} {t : Token} (h : Token.punctuation? c = some t)
    (rest : List Char) : Token.ofChars (c :: rest) = t :: Token.ofChars rest := by
  refine Token.ofChars_of_read? ?_ (by simp [Token.read?, h])
  unfold Token.punctuation? at h
  split at h
  all_goals first | rfl | cases h

theorem ofChars_lineBreak {l : Layout} (hl : l.IsBlank) (depth : Nat) (rest : List Char) :
    Token.ofChars (l.lineBreak depth ++ rest) = Token.ofChars rest :=
  Token.ofChars_blanks (hl.1 depth) rest

theorem ofChars_afterColon {l : Layout} (hl : l.IsBlank) (rest : List Char) :
    Token.ofChars (l.afterColon ++ rest) = Token.ofChars rest :=
  Token.ofChars_blanks hl.2 rest

theorem endsBefore_writeItems (l : Layout) (depth : Nat) (items : List Json) {rest : List Char}
    (hr : Numeral.endsBefore rest = true) :
    Numeral.endsBefore (writeItems l depth items ++ rest) = true := by
  cases items with
  | nil => exact hr
  | cons item more => simp [writeItems, Numeral.endsBefore]

theorem endsBefore_writeMembers (l : Layout) (depth : Nat) (members : List (String × Json))
    {rest : List Char} (hr : Numeral.endsBefore rest = true) :
    Numeral.endsBefore (writeMembers l depth members ++ rest) = true := by
  cases members with
  | nil => exact hr
  | cons m more => simp [writeMembers, Numeral.endsBefore]

mutual

/-- **The text of a value has the value's tokens**, in every layout. -/
theorem ofChars_write {l : Layout} (hl : l.IsBlank) :
    ∀ (v : Json) (room depth : Nat) (rest : List Char), v.fits room = true →
      Numeral.endsBefore rest = true →
        Token.ofChars (v.write l depth ++ rest) = v.tokens ++ Token.ofChars rest
  | .null, _, depth, rest, _, _ => ofChars_scalar (by decide) rfl
  | .bool true, _, depth, rest, _, _ => ofChars_scalar (by decide) rfl
  | .bool false, _, depth, rest, _, _ => ofChars_scalar (by decide) rfl
  | .natural n, _, depth, rest, h, hr => by
    simp only [fits, decide_eq_true_eq] at h
    simpa [write, tokens] using ofChars_natural h hr
  | .number text, _, depth, rest, h, _ => by simp [fits] at h
  | .string s, _, depth, rest, _, _ => by simpa [write, tokens] using ofChars_text s rest
  | .array [], _, depth, rest, _, _ => by
    simp only [write, tokens, List.cons_append, List.nil_append]
    rw [ofChars_punctuation rfl, ofChars_punctuation rfl]
  | .array (item :: more), room, depth, rest, h, hr => by
    simp only [fits, itemsFit, Bool.and_eq_true] at h
    have hclose : Numeral.endsBefore (l.lineBreak depth ++ ']' :: rest) = true :=
      endsBefore_blanks (hl.1 depth) rfl
    simp only [write, tokens, List.cons_append, List.append_assoc, List.nil_append]
    rw [ofChars_punctuation rfl, ofChars_lineBreak hl,
      ofChars_write hl item (room - 1) (depth + 1) _ h.2.1 (endsBefore_writeItems l _ more hclose),
      ofChars_writeItems hl more (room - 1) (depth + 1) _ h.2.2 hclose,
      ofChars_lineBreak hl, ofChars_punctuation rfl]
  | .object [], _, depth, rest, _, _ => by
    simp only [write, tokens, List.cons_append, List.nil_append]
    rw [ofChars_punctuation rfl, ofChars_punctuation rfl]
  | .object ((key, value) :: more), room, depth, rest, h, hr => by
    simp only [fits, membersFit, Bool.and_eq_true] at h
    have hclose : Numeral.endsBefore (l.lineBreak depth ++ '}' :: rest) = true :=
      endsBefore_blanks (hl.1 depth) rfl
    simp only [write, tokens, List.cons_append, List.append_assoc, List.nil_append]
    rw [ofChars_punctuation rfl, ofChars_lineBreak hl, ofChars_text, ofChars_punctuation rfl,
      ofChars_afterColon hl,
      ofChars_write hl value (room - 1) (depth + 1) _ h.2.1
        (endsBefore_writeMembers l _ more hclose),
      ofChars_writeMembers hl more (room - 1) (depth + 1) _ h.2.2 hclose,
      ofChars_lineBreak hl, ofChars_punctuation rfl]
  | .unreadable, _, depth, rest, h, _ => by simp [fits] at h

theorem ofChars_writeItems {l : Layout} (hl : l.IsBlank) :
    ∀ (items : List Json) (room depth : Nat) (rest : List Char), itemsFit room items = true →
      Numeral.endsBefore rest = true →
        Token.ofChars (writeItems l depth items ++ rest) = itemTokens items ++ Token.ofChars rest
  | [], _, _, _, _, _ => rfl
  | item :: more, room, depth, rest, h, hr => by
    simp only [itemsFit, Bool.and_eq_true] at h
    simp only [writeItems, itemTokens, List.cons_append, List.append_assoc]
    rw [ofChars_punctuation rfl, ofChars_lineBreak hl,
      ofChars_write hl item room depth _ h.1 (endsBefore_writeItems l depth more hr),
      ofChars_writeItems hl more room depth _ h.2 hr]

theorem ofChars_writeMembers {l : Layout} (hl : l.IsBlank) :
    ∀ (members : List (String × Json)) (room depth : Nat) (rest : List Char),
      membersFit room members = true → Numeral.endsBefore rest = true →
        Token.ofChars (writeMembers l depth members ++ rest)
          = memberTokens members ++ Token.ofChars rest
  | [], _, _, _, _, _ => rfl
  | (key, value) :: more, room, depth, rest, h, hr => by
    simp only [membersFit, Bool.and_eq_true] at h
    simp only [writeMembers, memberTokens, List.cons_append, List.append_assoc]
    rw [ofChars_punctuation rfl, ofChars_lineBreak hl, ofChars_text, ofChars_punctuation rfl,
      ofChars_afterColon hl,
      ofChars_write hl value room depth _ h.1 (endsBefore_writeMembers l depth more hr),
      ofChars_writeMembers hl more room depth _ h.2 hr]

end

/-! ## The text is read as the value -/

/-- **The text of a value is read as the value**, and nothing is left of it. -/
theorem read?_write {l : Layout} (hl : l.IsBlank) {v : Json} (hv : v.fits nestingLimit = true) :
    read? (Token.ofChars (v.write l 0)) = some (v, []) := by
  have h := ofChars_write hl v nestingLimit 0 [] hv rfl
  simp only [List.append_nil, Token.ofChars_nil] at h
  have hr := readFrom?_tokens v [] [] hv
  simp only [List.append_nil] at hr
  rw [h, read?, hr]
  simp [readFrom?]

theorem ofString?_indented {v : Json} (hv : v.fits nestingLimit = true) :
    ofString? v.indented = some v := by
  simp [ofString?, indented, read?_write Layout.isBlank_indented hv]

theorem ofString?_compact {v : Json} (hv : v.fits nestingLimit = true) :
    ofString? v.compact = some v := by
  simp [ofString?, compact, read?_write Layout.isBlank_compact hv]

end Json

end SchemaLog
