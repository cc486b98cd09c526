import SchemaLog.Json.RoundTrip
import SchemaLog.Json.Token.Joining
import SchemaLog.Script

/-!
# Proofs/Wrapping — a script is read alike, bare and wrapped

    [ … ]                 ──▸  array of items              ─┐
    { "commands": [ … ] } ──▸  object with the same array  ─┴▸ one script, or one fault

A text keeps its tokens in front of another (`Token.ofChars_append`), and a value is read without a
look at the lists and objects around it, but that they are counted (`Json.readFrom?_append`).  So
the wrapped text is read as the object with what is read of the bare one (`Script.read?_wrap`), as
long as the count stays in its bounds, and the reader of scripts asks the same of both.
-/

namespace SchemaLog

/-! ## Nesting -/

namespace Token

/-- How many lists and objects are open at once, at most, where the tokens stand inside some. -/
def nesting (enclosing : Nat) : List Token → Nat
  | [] => enclosing
  | .openBracket :: ts => nesting (enclosing + 1) ts
  | .openBrace :: ts => nesting (enclosing + 1) ts
  | .closeBracket :: ts => max enclosing (nesting (enclosing - 1) ts)
  | .closeBrace :: ts => max enclosing (nesting (enclosing - 1) ts)
  | _ :: ts => nesting enclosing ts

end Token

/-! ## Reading inside other lists and objects -/

namespace Json

variable {o : Option Json} {fs outer : List Frame} {ts rest : List Token} {v : Json}

/-- Where there is room, it makes no difference inside how many others a list stands. -/
theorem ofItems_append (h : fs.length + 1 + outer.length ≤ nestingLimit) (before : List Json) :
    ofItems (fs ++ outer).length before = ofItems fs.length before := by
  rw [List.length_append, ofItems, ofItems, if_pos (by omega), if_pos (by omega)]

theorem ofMembers_append (h : fs.length + 1 + outer.length ≤ nestingLimit)
    (before : List (Option String × Json)) :
    ofMembers (fs ++ outer).length before = ofMembers fs.length before := by
  rw [List.length_append, ofMembers, ofMembers, if_pos (by omega), if_pos (by omega)]

/-- A list with an item is read item by item. -/
theorem readFrom?_openBracket {t : Token} (h : t ≠ .closeBracket) (fs : List Frame)
    (ts : List Token) :
    readFrom? none fs (.openBracket :: t :: ts) = readFrom? none (.items [] :: fs) (t :: ts) := by
  rw [readFrom?]
  rintro behind heq
  exact h (List.cons.inj heq).1

/-- **A value is read inside other lists and objects as it is read alone**, if there is room for all
of it; what follows it is left to them.  The induction is on the steps of the reader, which look at
no frame but the innermost. -/
theorem readFrom?_append (outer : List Frame) (more : List Token)
    (h : readFrom? o fs ts = some (v, rest))
    (hroom : Token.nesting fs.length ts + outer.length ≤ nestingLimit) :
    readFrom? o (fs ++ outer) (ts ++ more) = readFrom? (some v) outer (rest ++ more) := by
  have hclosing {ts : List Token} {n : Nat}
      (h : max (n + 1) (Token.nesting n ts) + outer.length ≤ nestingLimit) :
      n + 1 + outer.length ≤ nestingLimit
        ∧ Token.nesting n ts + outer.length ≤ nestingLimit := by omega
  fun_induction readFrom? o fs ts with
  | case1 =>
    cases h
    rfl
  | case2 _ _ _ ih | case3 _ _ _ ih | case7 _ _ _ ih | case8 _ _ _ _ ih | case10 _ _ _ _ _ _ ih =>
    exact ih h hroom
  | case4 _ _ ih | case9 _ _ _ _ ih =>
    obtain ⟨hlist, hafter⟩ := hclosing hroom
    rw [← ih h hafter, ← ofItems_append hlist]
    rfl
  | case6 _ _ ih | case11 _ _ _ _ _ ih =>
    obtain ⟨hobject, hafter⟩ := hclosing hroom
    rw [← ih h hafter, ← ofMembers_append hobject]
    rfl
  | case5 fs ts hopen ih =>
    -- There is a token behind the bracket, so the end of the list cannot come from what follows.
    rcases ts with _ | ⟨t, ts⟩
    · cases h
    · have hitem : t ≠ .closeBracket := fun heq => hopen ts (by rw [heq])
      exact (readFrom?_openBracket hitem _ _).trans (ih h hroom)
  | case12 => cases h

/-- Nothing is read past a token that JSON does not know. -/
theorem junk_mem_of_readFrom? (h : readFrom? o fs ts = some (v, rest)) (hjunk : .junk ∈ ts) :
    .junk ∈ rest := by
  fun_induction readFrom? o fs ts with
  | case1 =>
    cases h
    exact hjunk
  | case2 _ _ _ ih | case3 _ _ _ ih | case4 _ _ ih | case5 _ _ _ ih | case6 _ _ ih
  | case7 _ _ _ ih | case8 _ _ _ _ ih | case9 _ _ _ _ ih | case10 _ _ _ _ _ _ ih
  | case11 _ _ _ _ _ ih => exact ih h (by simpa using hjunk)
  | case12 => cases h

theorem ofString?_eq_some_iff {text : String} :
    ofString? text = some v ↔ read? (Token.ofChars text.toList) = some (v, []) := by
  rw [ofString?]
  split <;> simp_all

end Json

/-! ## Scripts -/

namespace Script

open Json

/-- The text of an array as the member `commands` of an object. -/
def wrap (array : String) : String :=
  "\x7b\"commands\": " ++ array ++ "\x7d"

variable {array : String} {items : List Json}

theorem ofChars_wrap (h : .junk ∉ Token.ofChars array.toList) :
    Token.ofChars (wrap array).toList = .openBrace :: .text (some "commands") :: .colon
      :: (Token.ofChars array.toList ++ [.closeBrace]) := by
  have hchars : (wrap array).toList = '\x7b' :: (Quoted.write "commands".toList
      ++ ':' :: ' ' :: (array.toList ++ ['\x7d'])) := by
    rw [wrap, String.toList_append, String.toList_append]
    rfl
  rw [hchars, ofChars_punctuation rfl, ofChars_text, ofChars_punctuation rfl,
    Token.ofChars_blank rfl, Token.ofChars_append rfl h]
  rfl

/-- **A wrapped array is read as the object with the array**, if there is room for one more object
around it. -/
theorem read?_wrap (harray : ofString? array = some (.array items))
    (hnesting : Token.nesting 0 (Token.ofChars array.toList) < nestingLimit) :
    read? (Token.ofChars (wrap array).toList)
      = some (.object [("commands", .array items)], []) := by
  have hread := ofString?_eq_some_iff.mp harray
  have hinside := readFrom?_append [.members [] (some "commands")] [.closeBrace] hread hnesting
  rw [ofChars_wrap fun hjunk => List.not_mem_nil (junk_mem_of_readFrom? hread hjunk)]
  exact hinside.trans rfl

theorem parse_of_read? {text : String} {j : Json}
    (h : read? (Token.ofChars text.toList) = some (j, [])) :
    parse text = if j.isReadable then (ofJson? j).elim (.error .unrecognized) .ok
      else .error .malformed := by
  simp only [parse, h]
  rcases ofJson? j <;> rfl

/-- A command is read of nothing that cannot be read, and so is a list of them. -/
theorem allReadable_of_commands? : ∀ {items : List Json} {commands : List Command},
    commands? (.array items) = some commands → allReadable items = true
  | [], _, _ => rfl
  | item :: rest, commands, h => by
    simp only [commands?, list?, List.mapM_cons, Option.bind_eq_bind, Option.bind_eq_some_iff] at h
    obtain ⟨c, hitem, more, hrest, -⟩ := h
    rw [Command.ofJson?] at hitem
    split at hitem
    · next hreadable => rw [allReadable, hreadable, allReadable_of_commands? hrest, Bool.and_true]
    · cases hitem

/-- An array is a script exactly if all of its items are commands. -/
theorem parse_eq_ok_iff (harray : ofString? array = some (.array items)) (s : Script) :
    parse array = .ok s ↔ commands? (.array items) = some s.commands := by
  rw [parse_of_read? (ofString?_eq_some_iff.mp harray), ofJson?]
  rcases hcommands : commands? (.array items) with _ | commands
  · refine iff_of_false (fun h => ?_) (fun h => Option.some_ne_none _ h.symm)
    split at h <;> cases h
  · have hreadable : (Json.array items).isReadable = true := allReadable_of_commands? hcommands
    rw [if_pos hreadable, Option.some.injEq]
    refine ⟨fun h => ?_, fun h => congrArg (Except.ok ∘ mk) h⟩
    cases h
    rfl

/-- **A script is read alike, bare and wrapped**: whatever the items of the array are, both texts
give the same script or fail for the same reason.  It is a script exactly if all items are commands.
-/
theorem parse_wrap (array : String) (items : List Json)
    (harray : ofString? array = some (.array items))
    (hnesting : Token.nesting 0 (Token.ofChars array.toList) ≤ 126) :
    parse (wrap array) = parse array
      ∧ ∀ s, parse array = .ok s ↔ commands? (.array items) = some s.commands := by
  have hbare := parse_of_read? (ofString?_eq_some_iff.mp harray)
  have hwrapped := parse_of_read? (read?_wrap harray (Nat.lt_succ_of_le hnesting))
  have hreadable : (Json.object [("commands", .array items)]).isReadable
      = (Json.array items).isReadable := Bool.and_true _
  have hscript : ofJson? (.object [("commands", .array items)]) = ofJson? (.array items) := by
    rcases h : commands? (.array items) <;> simp [ofJson?, Json.member?, List.filter, h]
  exact ⟨by rw [hbare, hwrapped, hreadable, hscript], parse_eq_ok_iff harray⟩

/-- Commands and fields as objects and as lists, with members in any order, one that nothing reads,
and a default that is left out by `null`. -/
def mixedItems : List Json :=
  [.object [("version", .natural 1), ("note", .array [.array []]), ("documentName", .string "U"),
      ("fields", .array [.array [.string "a", .string "string"],
        .object [("defaultValue", .null), ("type", .string "number"), ("name", .string "b")]]),
      ("kind", .string "newDocument")],
    .array [.string "addField", .string "U", .string "c", .string "string", .null, .natural 2]]

/-- The text of the items, without blanks. -/
def mixedText : String := (Json.array mixedItems).compact

theorem parse_wrap_mixedText :
    ofString? mixedText = some (.array mixedItems)
      ∧ Token.nesting 0 (Token.ofChars mixedText.toList) ≤ 126
      ∧ parse (wrap mixedText)
        = .ok ⟨[⟨"U", 1, .declare [⟨"a", .string, none⟩, ⟨"b", .number, none⟩]⟩,
            ⟨"U", 2, .change (.add ⟨"c", .string, none⟩)⟩]⟩ := by
  have hfits : (Json.array mixedItems).fits nestingLimit = true := rfl
  have harray : ofString? mixedText = some (.array mixedItems) := ofString?_compact hfits
  have htokens : Token.ofChars mixedText.toList = (Json.array mixedItems).tokens := by
    have hwrite := ofChars_write Layout.isBlank_compact _ nestingLimit 0 [] hfits rfl
    rw [List.append_nil, Token.ofChars_nil, List.append_nil] at hwrite
    rw [mixedText, compact, String.toList_ofList, hwrite]
  have hdepth : Token.nesting 0 (Json.array mixedItems).tokens = 4 := rfl
  have hnesting : Token.nesting 0 (Token.ofChars mixedText.toList) ≤ 126 := by
    rw [htokens, hdepth]
    decide
  obtain ⟨hwrap, hscript⟩ := parse_wrap mixedText mixedItems harray hnesting
  exact ⟨harray, hnesting, hwrap.trans ((hscript _).mpr rfl)⟩

end Script

end SchemaLog
