import FormulaMatch.Json.Reading
import FormulaMatch.Proofs.Escapes

/-! Printed values. The tokens of a value bring a reader from where a value is due to behind that value,
whatever arrays and objects are open. If a value is made of texts, its print is cut into these tokens
again, so it is read back. -/

namespace FormulaMatch

namespace JsonNext

variable {frames inner : List JsonFrame} {next onward : JsonNext} {token : JsonToken}

theorem run_cons (h : next.step frames token = some (inner, onward)) (tokens : List JsonToken) :
    run frames next (token :: tokens) = run inner onward tokens := by
  simp [run, h]

theorem step_firstItem (frames : List JsonFrame) (h : token ≠ .closeArray) :
    firstItem.step frames token = value.step frames token := by
  cases token
  case closeArray => exact absurd rfl h
  all_goals rfl

end JsonNext

theorem Json.exists_tokens (v : Json) : ∃ token rest, v.tokens = token :: rest ∧ token ≠ .closeArray := by
  cases v with
  | null | bool | number | string => exact ⟨_, [], by rw [Json.tokens], by simp⟩
  | array items => cases items <;> exact ⟨.openArray, _, by rw [Json.tokens], by simp⟩
  | object members => cases members <;> exact ⟨.openObject, _, by rw [Json.tokens], by simp⟩

namespace JsonNext

theorem run_firstItem (frames : List JsonFrame) (v : Json) (rest : List JsonToken) :
    run frames firstItem (v.tokens ++ rest) = run frames value (v.tokens ++ rest) := by
  obtain ⟨token, tokens, htokens, hne⟩ := v.exists_tokens
  simp only [htokens, List.cons_append, run, step_firstItem frames hne]

mutual

theorem run_tokens : ∀ (v : Json) (frames : List JsonFrame) (rest : List JsonToken),
    run frames value (v.tokens ++ rest) = run frames (after v) rest
  | .null, _, _ | .bool _, _, _ | .number _, _, _ | .string _, _, _ => run_cons rfl _
  | .array [], _, _ => rfl
  | .array (v :: vs), frames, rest => by
    rw [Json.tokens, List.cons_append, List.append_assoc]
    calc run frames value (.openArray :: (v.tokens ++ (Json.itemTokens vs ++ rest)))
      _ = run (.array [] :: frames) firstItem (v.tokens ++ (Json.itemTokens vs ++ rest)) := run_cons rfl _
      _ = run (.array [] :: frames) (after v) (Json.itemTokens vs ++ rest) := by
        rw [run_firstItem, run_tokens v]
      _ = run frames (after (.array (v :: vs))) rest := run_itemTokens vs v [] frames rest
  | .object [], _, _ => rfl
  | .object ((key, v) :: members), frames, rest => by
    rw [Json.tokens, List.cons_append, List.cons_append, List.cons_append, List.append_assoc]
    calc run frames value
          (.openObject :: .string key :: .colon :: (v.tokens ++ (Json.memberTokens members ++ rest)))
      _ = run (.object [] key :: frames) value (v.tokens ++ (Json.memberTokens members ++ rest)) := rfl
      _ = run (.object [] key :: frames) (after v) (Json.memberTokens members ++ rest) := run_tokens v ..
      _ = run frames (after (.object ((key, v) :: members))) rest :=
        run_memberTokens members key v [] frames rest

theorem run_itemTokens : ∀ (vs : List Json) (v : Json) (items : List Json) (frames : List JsonFrame)
    (rest : List JsonToken), run (.array items :: frames) (after v) (Json.itemTokens vs ++ rest) =
      run frames (after (.array (items.reverse ++ v :: vs))) rest
  | [], v, items, frames, rest => by
    rw [Json.itemTokens, List.singleton_append, ← List.reverse_cons]
    exact run_cons rfl rest
  | w :: vs, v, items, frames, rest => by
    rw [Json.itemTokens, List.cons_append, List.append_assoc]
    calc run (.array items :: frames) (after v) (.comma :: (w.tokens ++ (Json.itemTokens vs ++ rest)))
      _ = run (.array (v :: items) :: frames) value (w.tokens ++ (Json.itemTokens vs ++ rest)) := rfl
      _ = run (.array (v :: items) :: frames) (after w) (Json.itemTokens vs ++ rest) := run_tokens w ..
      _ = run frames (after (.array ((v :: items).reverse ++ w :: vs))) rest :=
        run_itemTokens vs w (v :: items) frames rest
      _ = run frames (after (.array (items.reverse ++ v :: w :: vs))) rest := by
        rw [List.reverse_cons, List.append_assoc, List.singleton_append]

theorem run_memberTokens : ∀ (ms : List (JsonString × Json)) (key : JsonString) (v : Json)
    (members : List (JsonString × Json)) (frames : List JsonFrame) (rest : List JsonToken),
    run (.object members key :: frames) (after v) (Json.memberTokens ms ++ rest) =
      run frames (after (.object (members.reverse ++ (key, v) :: ms))) rest
  | [], key, v, members, frames, rest => by
    rw [Json.memberTokens, List.singleton_append, ← List.reverse_cons]
    exact run_cons rfl rest
  | (other, w) :: ms, key, v, members, frames, rest => by
    let seen := (key, v) :: members
    rw [Json.memberTokens, List.cons_append, List.cons_append, List.cons_append, List.append_assoc]
    calc run (.object members key :: frames) (after v)
          (.comma :: .string other :: .colon :: (w.tokens ++ (Json.memberTokens ms ++ rest)))
      _ = run (.object seen other :: frames) value (w.tokens ++ (Json.memberTokens ms ++ rest)) := rfl
      _ = run (.object seen other :: frames) (after w) (Json.memberTokens ms ++ rest) := run_tokens w ..
      _ = run frames (after (.object (seen.reverse ++ (other, w) :: ms))) rest :=
        run_memberTokens ms other w seen frames rest
      _ = run frames (after (.object (members.reverse ++ (key, v) :: (other, w) :: ms))) rest := by
        rw [List.reverse_cons, List.append_assoc, List.singleton_append]

end

end JsonNext

namespace Json

theorem closed_itemTokens {vs : List Json} (h : ∀ v ∈ vs, ∀ token ∈ v.tokens, token.Closed) :
    ∀ token ∈ itemTokens vs, token.Closed := by
  induction vs with
  | nil => simp [itemTokens, JsonToken.Closed]
  | cons v vs ih =>
    obtain ⟨hv, hvs⟩ := List.forall_mem_cons.mp h
    rw [itemTokens, List.forall_mem_cons, List.forall_mem_append]
    exact ⟨trivial, hv, ih hvs⟩

theorem closed_memberTokens {members : List (JsonString × Json)}
    (hnames : ∀ m ∈ members, m.1.IsText)
    (hvalues : ∀ m ∈ members, ∀ token ∈ m.2.tokens, token.Closed) :
    ∀ token ∈ memberTokens members, token.Closed := by
  induction members with
  | nil => simp [memberTokens, JsonToken.Closed]
  | cons member members ih =>
    obtain ⟨hname, hnames⟩ := List.forall_mem_cons.mp hnames
    obtain ⟨hvalue, hvalues⟩ := List.forall_mem_cons.mp hvalues
    rw [memberTokens, List.forall_mem_cons, List.forall_mem_cons, List.forall_mem_cons,
      List.forall_mem_append]
    exact ⟨trivial, hname, trivial, hvalue, ih hnames hvalues⟩

theorem Textual.closed {v : Json} (h : v.Textual) : ∀ token ∈ v.tokens, token.Closed := by
  induction h with
  | text text =>
    rw [ofText, tokens, List.forall_mem_singleton]
    exact JsonString.isText_ofText text
  | array vs items ih =>
    cases vs with
    | nil => simp [tokens, JsonToken.Closed]
    | cons v vs =>
      obtain ⟨hv, hvs⟩ := List.forall_mem_cons.mp ih
      rw [tokens, List.forall_mem_cons, List.forall_mem_append]
      exact ⟨trivial, hv, closed_itemTokens hvs⟩
  | object members names values ih =>
    cases members with
    | nil => simp [tokens, JsonToken.Closed]
    | cons member members =>
      obtain ⟨hname, hnames⟩ := List.forall_mem_cons.mp names
      obtain ⟨hvalue, hvalues⟩ := List.forall_mem_cons.mp ih
      rw [tokens, List.forall_mem_cons, List.forall_mem_cons, List.forall_mem_cons, List.forall_mem_append]
      exact ⟨trivial, hname, trivial, hvalue, closed_memberTokens hnames hvalues⟩

theorem Textual.read_written {v : Json} (h : v.Textual) : Json.read v.written = some v := by
  have hrun : JsonNext.run [] .value v.tokens = JsonNext.run [] (.after v) [] := by
    simpa using JsonNext.run_tokens v [] []
  rw [Json.read, written, jsonTokens_written h.closed]
  exact hrun

end Json

end FormulaMatch
