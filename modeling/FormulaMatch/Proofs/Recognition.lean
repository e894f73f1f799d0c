import FormulaMatch.Proofs.Anchoring

/-! Which tokens are wildcards. An expression that can be read by itself recognises the texts that it matches
from end to end. Other texts are accepted as well, although they are no expressions: the group around them
ends where they close it, and each anchor binds one alternative alone. -/

namespace FormulaMatch

namespace Recogniser

variable {lib : RegexLibrary} {sense : lib.Expression → Sense} {source : String} {w : Recogniser lib}

/-- What is accepted recognises exactly the tokens that the expression matches from end to end, if its text
is one by itself. Two expressions with `)|(?:` between them are none, and where they are accepted they
recognise every token that begins with a match of the first or ends with one of the second. -/
theorem recognises_whole_texts_of_read (h : lib.Standard sense) (hblank : source.toList.all isBlank = false)
    (hw : ofSource lib source = .ok w) :
    (∀ e, lib.read source = .ok e → ∀ text, w.recognises text = true ↔ sense e [] text.toList []) ∧
    ∀ x y e f, source = x ++ ")|(?:" ++ y → lib.read x = .ok e → '#' ∉ x.toList → lib.read y = .ok f →
      (∀ g, lib.read source ≠ .ok g) ∧ ∀ text, w.recognises text = true ↔
        (∃ run after, text.toList = run ++ after ∧ sense e [] run after) ∨
          ∃ before run, text.toList = before ++ run ∧ sense f before run [] := by
  constructor
  · intro e he
    exact recognises_iff_whole h hblank hw he
  · rintro x y e f rfl hx hplain hy
    refine ⟨fun g hg => ?_, recognises_iff_either_end h hblank hw hx hplain hy⟩
    have hclosed : x ++ ")|(?:" ++ y = x ++ ")" ++ ("|(?:" ++ y) := by
      apply String.toList_inj.mp
      simp
    rw [hclosed] at hg
    exact h.unopened x e hx hplain _ g hg

/-- Either alternative of `a|bc` has to match the whole token, so `b` and `ac` are no wildcards; but with
`a)|(?:b` every token with `a` at its start or `b` at its end is one. -/
theorem recognises_whole_texts_of_read_alternatives :
    (∃ w e, "a|bc".toList.all isBlank = false ∧ ofSource Regex.library "a|bc" = .ok w ∧
      Regex.library.read "a|bc" = .ok e ∧
      (∀ text, w.recognises text = true ↔ e.sense [] text.toList []) ∧
      [w.recognises "bc", w.recognises "b", w.recognises "ac"] = [true, false, false]) ∧
    ∃ w e f, "a)|(?:b".toList.all isBlank = false ∧ ofSource Regex.library "a)|(?:b" = .ok w ∧
      Regex.library.read "a" = .ok e ∧ Regex.library.read "b" = .ok f ∧
      (∀ g, Regex.library.read "a)|(?:b" ≠ .ok g) ∧
      (∀ text, w.recognises text = true ↔ (∃ run after, text.toList = run ++ after ∧ e.sense [] run after) ∨
        ∃ before run, text.toList = before ++ run ∧ f.sense before run []) ∧
      [w.recognises "ab", w.recognises "xb", w.recognises "x"] = [true, true, false] := by
  have hwhole : "a|bc".toList.all isBlank = false := by decide
  have hsplit : "a)|(?:b".toList.all isBlank = false := by decide
  obtain ⟨w, hw⟩ : ∃ w, ofSource Regex.library "a|bc" = .ok w := ⟨_, rfl⟩
  obtain ⟨v, hv⟩ : ∃ v, ofSource Regex.library "a)|(?:b" = .ok v := ⟨_, rfl⟩
  have hexact := (recognises_whole_texts_of_read Regex.library_standard hwhole hw).1 _ rfl
  have hends := (recognises_whole_texts_of_read Regex.library_standard hsplit hv).2 "a" "b" _ _ rfl rfl
    (by decide) rfl
  refine ⟨⟨w, _, hwhole, hw, rfl, hexact, ?_⟩, v, _, _, hsplit, hv, rfl, rfl, hends.1, hends.2, ?_⟩
  · cases hw
    rfl
  · cases hv
    rfl

end Recogniser

end FormulaMatch
