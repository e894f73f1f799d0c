import FormulaMatch.Json.Writing
import FormulaMatch.Proofs.Values

/-! Written texts are read back character by character, whether a character stands for itself, is escaped
by a letter or by its code. A quote ends a text, so it and the punctuation around it are tokens whatever
comes next. -/

namespace FormulaMatch

theorem hexValue?_hexDigit : ∀ n < 16, hexValue? (hexDigit n) = some n := by
  decide

/-- The element of a string that is read where the character is written. -/
def CodeUnit.ofChar (c : Char) : CodeUnit :=
  if c.toNat < 0x20 ∧ c ∉ ['\x08', '\x0c', '\n', '\r', '\t'] then .unit c.toNat else .char c

theorem joinSurrogates_unit {code : Nat} (h : code < 0x20) (us : List CodeUnit) :
    joinSurrogates (.unit code :: us) = .char (Char.ofNat code) :: joinSurrogates us := by
  have hhigh : isHighSurrogate code = false := by
    simp only [isHighSurrogate, Bool.and_eq_false_iff, decide_eq_false_iff_not]
    omega
  have hlow : isLowSurrogate code = false := by
    simp only [isLowSurrogate, Bool.and_eq_false_iff, decide_eq_false_iff_not]
    omega
  have hunit : JsonUnit.ofCode code = .char (Char.ofNat code) := by
    simp [JsonUnit.ofCode, hhigh, hlow]
  match us with
  | [] => simp [joinSurrogates, hunit]
  | .char d :: us => simp [joinSurrogates, hunit]
  | .unit low :: us => simp [joinSurrogates, hunit, hhigh]

theorem joinSurrogates_ofChar (cs : List Char) :
    joinSurrogates (cs.map CodeUnit.ofChar) = cs.map .char := by
  induction cs with
  | nil => rfl
  | cons c cs ih =>
    rw [List.map_cons, List.map_cons, CodeUnit.ofChar]
    split
    · rename_i hcode
      rw [joinSurrogates_unit hcode.1, ih, Char.ofNat_toNat]
    · rw [joinSurrogates, ih]

namespace JsonScan

variable {state next : JsonScan} {c : Char}

theorem run_cons {token : List JsonToken} (h : state.step c = some (token, next)) (cs : List Char) :
    state.run (c :: cs) = (next.run cs).map (token ++ ·) := by
  simp only [run, h, Option.bind_eq_bind, Option.bind_some]
  cases next.run cs <;> rfl

theorem run_cons_inside (h : state.step c = some ([], next)) (cs : List Char) :
    state.run (c :: cs) = next.run cs := by
  rw [run_cons h]
  simp

theorem run_punctuation {token : JsonToken} (h : start c = some ([token], between)) (cs : List Char) :
    between.run (c :: cs) = (between.run cs).map (token :: ·) :=
  run_cons (show between.step c = some ([token], between) from h) cs

theorem run_backslash (seen : List CodeUnit) (cs : List Char) :
    (string seen).run ('\\' :: cs) = (escape seen).run cs :=
  run_cons_inside rfl cs

theorem run_unicodeEscape {code : Nat} (h : code < 0x10000) (seen : List CodeUnit) (cs : List Char) :
    (string seen).run (unicodeEscape code ++ cs) = (string (.unit code :: seen)).run cs := by
  have hu : (escape seen).step 'u' = some ([], hex seen 4 0) := rfl
  have hdigit (n : Nat) : hexValue? (hexDigit (n % 16)) = some (n % 16) :=
    hexValue?_hexDigit _ (Nat.mod_lt _ (by decide))
  have hmore (missing value n : Nat) : (hex seen (missing + 2) value).step (hexDigit (n % 16)) =
      some ([], hex seen (missing + 1) (16 * value + n % 16)) := by
    simp [step, hdigit]
  have hlast (value n : Nat) : (hex seen 1 value).step (hexDigit (n % 16)) =
      some ([], string (.unit (16 * value + n % 16) :: seen)) := by
    simp [step, hdigit]
  have hvalue : 16 * (16 * (16 * (16 * 0 + code / 0x1000 % 16) + code / 0x100 % 16) +
      code / 0x10 % 16) + code % 16 = code := by
    omega
  simp only [unicodeEscape, List.cons_append, List.nil_append]
  rw [run_backslash, run_cons_inside hu, run_cons_inside (hmore 2 ..), run_cons_inside (hmore 1 ..),
    run_cons_inside (hmore 0 ..), run_cons_inside (hlast ..), hvalue]

theorem run_letterEscape {c d : Char} (h : escaped? c = some d) (hu : c ≠ 'u') (seen : List CodeUnit)
    (cs : List Char) : (string seen).run ('\\' :: c :: cs) = (string (.char d :: seen)).run cs := by
  have hletter : (escape seen).step c = some ([], string (.char d :: seen)) := by
    simp [step, hu, h]
  rw [run_backslash, run_cons_inside hletter]

theorem run_char (c : Char) (seen : List CodeUnit) (cs : List Char) :
    (string seen).run ((JsonUnit.char c).written ++ cs) = (string (CodeUnit.ofChar c :: seen)).run cs := by
  unfold JsonUnit.written
  simp only
  split
  iterate 7 exact run_letterEscape (by decide) (by decide) seen cs
  rename_i hquote hslash hb hf hn hr ht
  have hletters : c ∉ ['\x08', '\x0c', '\n', '\r', '\t'] := by
    simp only [List.mem_cons, List.not_mem_nil, or_false, not_or]
    exact ⟨hb, hf, hn, hr, ht⟩
  by_cases hcode : c.toNat < 0x20
  · rw [if_pos hcode, run_unicodeEscape (by omega), CodeUnit.ofChar, if_pos ⟨hcode, hletters⟩]
  · have hstep : (string seen).step c = some ([], string (.char c :: seen)) := by
      rw [step, if_neg (by simpa using hquote), if_neg (by simpa using hslash), if_neg hcode]
    rw [if_neg hcode, List.singleton_append, run_cons_inside hstep, CodeUnit.ofChar,
      if_neg fun h => hcode h.1]

theorem run_chars (cs : List Char) (seen : List CodeUnit) (rest : List Char) :
    (string seen).run ((cs.map JsonUnit.char).flatMap JsonUnit.written ++ rest) =
      (string ((cs.map CodeUnit.ofChar).reverse ++ seen)).run rest := by
  induction cs generalizing seen with
  | nil => rfl
  | cons c cs ih =>
    simp only [List.map_cons, List.flatMap_cons, List.append_assoc, List.reverse_cons]
    rw [run_char, ih]
    rfl

theorem run_text (text : String) (cs : List Char) :
    between.run ((JsonString.ofText text).written ++ cs) =
      (between.run cs).map (.string (JsonString.ofText text) :: ·) := by
  have hquote : between.step '"' = some ([], string []) := rfl
  have hend (seen : List CodeUnit) : (string seen).step '"' =
      some ([.string (joinSurrogates seen.reverse)], between) := rfl
  rw [JsonString.written, List.cons_append, List.append_assoc, List.singleton_append,
    run_cons_inside hquote, JsonString.ofText, run_chars, run_cons (hend _),
    List.append_nil, List.reverse_reverse, joinSurrogates_ofChar]
  rfl

end JsonScan

namespace JsonToken

/-- Whether the token is a text or punctuation. -/
def Closed : JsonToken → Prop
  | .string units => units.IsText
  | .null | .bool _ | .number _ => False
  | .openArray | .closeArray | .openObject | .closeObject | .colon | .comma => True

theorem Closed.run {token : JsonToken} (h : token.Closed) (cs : List Char) :
    JsonScan.between.run (token.written ++ cs) = (JsonScan.between.run cs).map (token :: ·) := by
  cases token with
  | string units =>
    obtain ⟨text, rfl⟩ := h
    exact JsonScan.run_text text cs
  | null | bool | number => exact h.elim
  | openArray | closeArray | openObject | closeObject | colon | comma =>
    rw [JsonToken.written, List.singleton_append]
    apply JsonScan.run_punctuation
    rfl

end JsonToken

theorem jsonTokens_written {tokens : List JsonToken} (h : ∀ token ∈ tokens, token.Closed) :
    jsonTokens (tokens.flatMap JsonToken.written) = some tokens := by
  rw [jsonTokens]
  induction tokens with
  | nil => rfl
  | cons token tokens ih =>
    obtain ⟨htoken, htokens⟩ := List.forall_mem_cons.mp h
    rw [List.flatMap_cons, htoken.run, ih htokens, Option.map_some]

end FormulaMatch
