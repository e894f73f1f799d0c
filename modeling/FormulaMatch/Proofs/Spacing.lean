import FormulaMatch.Proofs.Occurrences
import Mathlib.Data.List.Chain

/-! Parts that stand next to each other. What stands after a wildcard in a pattern is a literal. -/

namespace FormulaMatch

namespace Part

/-- Somewhere in the row or in its parts a wildcard of this name stands just before `next`. -/
def Followed (ps : List Part) (name : String) (next : Part) : Prop :=
  ∃ row, (row = ps ∨ ∃ q ∈ preorders ps, q.parts = row) ∧
    ∃ i h, h.text = name ∧ [.wildcard i h, next] <:+: row

def Spaced (row : List Part) : Prop :=
  row.IsChain fun p q => p.isWildcard = true → q.isWildcard = false

variable {ps rest : List Part} {name : String} {p next : Part}

theorem Followed.head (i : Nat) (h : Head) (next : Part) (rest : List Part) :
    Followed (.wildcard i h :: next :: rest) h.text next :=
  ⟨_, .inl rfl, i, h, rfl, (List.prefix_append [.wildcard i h, next] rest).isInfix⟩

theorem Followed.cons (hf : Followed rest name next) (p : Part) :
    Followed (p :: rest) name next := by
  obtain ⟨row, rfl | ⟨q, hq, rfl⟩, i, h, hname, hrow⟩ := hf
  · exact ⟨_, .inl rfl, i, h, hname, hrow.trans (List.suffix_cons p _).isInfix⟩
  · exact ⟨_, .inr ⟨q, List.mem_append_right _ hq, rfl⟩, i, h, hname, hrow⟩

theorem Followed.of_parts (hf : Followed ps name next) (i : Nat) (h : Head) (rest : List Part) :
    Followed (.literal i h ps :: rest) name next := by
  obtain ⟨row, rfl | ⟨q, hq, rfl⟩, hpair⟩ := hf
  · exact ⟨_, .inr ⟨.literal i h row, by simp [preorders, preorder], rfl⟩, hpair⟩
  · exact ⟨_, .inr ⟨q, by simp [preorders, preorder, hq], rfl⟩, hpair⟩

theorem Followed.of_mem (hf : Followed [p] name next) (hp : p ∈ ps) : Followed ps name next := by
  obtain ⟨row, rfl | ⟨q, hq, rfl⟩, i, h, hname, hrow⟩ := hf
  · have hlen := hrow.length_le
    simp at hlen
  · have hmem : q ∈ preorders ps := by
      rw [preorders_eq_flatMap, List.mem_flatMap]
      exact ⟨p, hp, by simpa [preorders] using hq⟩
    exact ⟨_, .inr ⟨q, hmem, rfl⟩, i, h, hname, hrow⟩

theorem not_followed_nil : ¬ Followed [] name next := by
  rintro ⟨row, rfl | ⟨q, hq, rfl⟩, i, h, -, hrow⟩
  · simp at hrow
  · simp [preorders] at hq

theorem followed_cons_iff : Followed (p :: rest) name next ↔
    (∃ i h tail, p = .wildcard i h ∧ h.text = name ∧ rest = next :: tail) ∨
      Followed p.parts name next ∨ Followed rest name next := by
  constructor
  · rintro ⟨row, rfl | ⟨q, hq, rfl⟩, i, h, hname, hrow⟩
    · rcases List.infix_cons_iff.mp hrow with hrow | hrow
      · obtain ⟨tail, htail⟩ := hrow
        obtain ⟨rfl, rfl⟩ := List.cons.inj htail
        exact .inl ⟨i, h, tail, rfl, hname, rfl⟩
      · exact .inr (.inr ⟨rest, .inl rfl, i, h, hname, hrow⟩)
    · rcases List.mem_append.mp hq with hq | hq
      · cases p with
        | wildcard j k =>
          obtain rfl := List.mem_singleton.mp hq
          simp [parts] at hrow
        | literal j k ps =>
          rcases List.mem_cons.mp hq with rfl | hq
          · exact .inr (.inl ⟨ps, .inl rfl, i, h, hname, hrow⟩)
          · exact .inr (.inl ⟨q.parts, .inr ⟨q, hq, rfl⟩, i, h, hname, hrow⟩)
      · exact .inr (.inr ⟨q.parts, .inr ⟨q, hq, rfl⟩, i, h, hname, hrow⟩)
  · rintro (⟨i, h, tail, rfl, rfl, rfl⟩ | hf | hf)
    · exact .head i h next tail
    · cases p with
      | wildcard j k => exact absurd hf not_followed_nil
      | literal j k ps => exact hf.of_parts j k rest
    · exact hf.cons p

theorem spaced_cons : Spaced (p :: ps) ↔
    (∀ q ∈ ps.head?, p.isWildcard = true → q.isWildcard = false) ∧ Spaced ps :=
  List.isChain_cons

theorem isWildcard_eq (p : Part) : p.isWildcard = p.wildcardName?.isSome := by cases p <;> rfl

/-- The parts that siblings become are spaced, and after a wildcard they do not begin with one. -/
theorem spaced_of_ofSiblings {recognises : String → Bool} {cs : List Node} {left : Option String}
    (hcs : ∀ c ∈ cs, ∀ p, ofNode recognises c = .ok p → ∀ q ∈ p.preorder, Spaced q.parts)
    (h : ofSiblings recognises left cs = .ok ps) :
    (∀ q ∈ ps.head?, left.isSome = true → q.isWildcard = false) ∧ Spaced ps ∧
      ∀ q ∈ preorders ps, Spaced q.parts := by
  induction cs generalizing left ps with
  | nil =>
    simp only [ofSiblings, Except.ok.injEq] at h
    subst h
    exact ⟨by simp, .nil, by simp [preorders]⟩
  | cons c cs ih =>
    rw [ofSiblings] at h
    split at h
    · simp at h
    · rename_i p hp
      split at h
      · simp at h
      · rename_i hadjacent
        split at h
        · rename_i qs hqs
          cases h
          obtain ⟨hhead, hspaced, hin⟩ := ih (fun d hd => hcs d (by simp [hd])) hqs
          refine ⟨fun q hq hleft => ?_, spaced_cons.mpr ⟨fun q hq hw => hhead q hq ?_, hspaced⟩,
            fun q hq => ?_⟩
          · obtain rfl : p = q := by simpa using hq
            obtain ⟨first, rfl⟩ := Option.isSome_iff_exists.mp hleft
            rw [isWildcard_eq, Option.isSome_eq_false_iff, Option.isNone_iff_eq_none,
              Option.eq_none_iff_forall_ne_some]
            exact fun second hs => hadjacent first second rfl hs
          · rwa [← isWildcard_eq]
          · rcases List.mem_append.mp hq with hq | hq
            · exact hcs c (by simp) p hp q hq
            · exact hin q hq
        · simp at h

theorem spaced_of_ofNode {recognises : String → Bool} {n : Node} {p : Part}
    (h : ofNode recognises n = .ok p) : ∀ q ∈ p.preorder, Spaced q.parts := by
  induction n using Formula.induction generalizing p with
  | node i hd cs ih =>
    rw [ofNode] at h
    split at h
    · split at h
      · cases h
        simp [preorder, parts, Spaced]
      · simp at h
    · split at h
      · rename_i ps hps
        cases h
        obtain ⟨-, hspaced, hin⟩ := spaced_of_ofSiblings (fun c hc p => ih c hc) hps
        intro q hq
        rcases List.mem_cons.mp hq with rfl | hq
        · exact hspaced
        · exact hin q hq
      · simp at h

end Part

namespace Pattern

theorem isWildcard_of_followed {recognises : String → Bool} {source : Tree} {p : Pattern}
    (h : ofTree recognises source = .ok p) {name : String} {next : Part}
    (hf : Part.Followed p.topLevel name next) : next.isWildcard = false := by
  have hspaced : ∀ q ∈ p.root.preorder, Part.Spaced q.parts := by
    unfold ofTree at h
    split at h
    · rename_i root hroot
      cases h
      exact Part.spaced_of_ofNode hroot
    · simp at h
  have hroot : Part.Followed [p.root] name next := by
    unfold topLevel at hf
    split at hf
    · revert hf
      cases p.root with
      | literal i hd ps => exact fun hf => hf.of_parts i hd []
      | wildcard i hd => exact fun hf => hf.cons _
    · exact hf
  obtain ⟨row, rfl | ⟨q, hq, rfl⟩, i, hd, -, hrow⟩ := hroot
  · have hlen := hrow.length_le
    simp at hlen
  · have hchain := hspaced q (by simpa [Part.preorders] using hq)
    obtain ⟨before, after, hsplit⟩ := hrow
    rw [← hsplit] at hchain
    exact List.isChain_pair.mp hchain.left_of_append.right_of_append rfl

end Pattern

end FormulaMatch
