import FormulaMatch.Match.Search
import FormulaMatch.Proofs.Mirroring
import FormulaMatch.Proofs.Wording

/-! Two searches that take the same steps. With parts of the same wording and related nodes they stay at
the same place and find related runs, or fail with the same fault. -/

namespace FormulaMatch

inductive Move where
  | next
  | restart
  deriving DecidableEq, Repr

namespace Search

def move (s : Search) : Move → Search
  | .next => s.next
  | .restart => s.restart

def run (s : Search) (moves : List Move) : Search := moves.foldl move s

end Search

structure Hit.Mirrored (R : Node → Node → Prop) (a b : Hit) : Prop where
  start : a.start = b.start
  stop : a.stop = b.stop
  captures : a.captures.Mirrored R b.captures

structure Search.Mirrored (R : Node → Node → Prop) (s s' : Search) : Prop where
  wording : s.pattern.topLevel.map Part.bare = s'.pattern.topLevel.map Part.bare
  options : s.options = s'.options
  sequence : List.Forall₂ R s.sequence s'.sequence
  place : s.place = s'.place
  hit : Option.Rel (Hit.Mirrored R) s.hit s'.hit
  fault : s.fault = s'.fault

variable {R : Node → Node → Prop} {options : Options} {ps qs : List Part} {queue queue' : List Node}
  {C D : Captures} {p q : Pattern} {t t' : Tree} {s s' : Search}

theorem Mirrors.matchRun (hR : Mirrors R) (hps : ps.map Part.bare = qs.map Part.bare)
    (hq : List.Forall₂ R queue queue') :
    Outcome.Rel (MirroredEnd R) (matchRun options ps queue) (matchRun options qs queue') := by
  rw [FormulaMatch.matchRun, FormulaMatch.matchRun, matchParts_congr_bare hps]
  refine (hR.matchParts hq (mirrored_empty R)).bind fun a b hab => .guard ?_ hab
  rw [isEmpty_eq_of_forall₂ hab.1]

theorem isEmpty_eq_of_map_bare (hps : ps.map Part.bare = qs.map Part.bare) :
    ps.isEmpty = qs.isEmpty := by
  cases ps <;> cases qs <;> simp_all

/-- Two searches that start with the same fault end with the same one or find related runs. -/
theorem Mirrors.seek (hR : Mirrors R) (options : Options) (hps : ps.map Part.bare = qs.map Part.bare)
    (hq : List.Forall₂ R queue queue') (start : Nat) (fault : Option Fault) :
    (∃ fault', seek options ps start fault queue = .error fault' ∧
      seek options qs start fault queue' = .error fault') ∨
    ∃ hit hit', seek options ps start fault queue = .ok hit ∧
      seek options qs start fault queue' = .ok hit' ∧ hit.Mirrored R hit' := by
  induction hq generalizing start fault with
  | nil => exact .inl ⟨fault, rfl, rfl⟩
  | @cons n m queue queue' hnm hq ih =>
    rw [FormulaMatch.seek, FormulaMatch.seek]
    by_cases hgo : (start != 0 && !options.leading) = true
    · exact .inl ⟨fault, by rw [if_pos hgo], by rw [if_pos hgo]⟩
    · rw [if_neg hgo, if_neg hgo]
      have hrun : Outcome.Rel (MirroredEnd R) (FormulaMatch.matchRun options ps (n :: queue))
          (FormulaMatch.matchRun options qs (m :: queue')) := hR.matchRun hps (.cons hnm hq)
      cases ho : FormulaMatch.matchRun options ps (n :: queue) <;>
        cases ho' : FormulaMatch.matchRun options qs (m :: queue') <;> rw [ho, ho'] at hrun <;>
        cases hrun
      · rename_i a b hab
        refine .inr ⟨_, _, rfl, rfl, rfl, ?_, hab.2⟩
        simp only [List.length_cons, hq.length_eq, hab.1.length_eq]
      · exact ih _ _
      · exact ih _ _

theorem Mirrors.matchWhole (hR : Mirrors R)
    (hp : p.topLevel.map Part.bare = q.topLevel.map Part.bare)
    (ht : List.Forall₂ R t.topLevel t'.topLevel) :
    Outcome.Rel (Captures.Mirrored R) (p.matchWhole t options) (q.matchWhole t' options) := by
  unfold Pattern.matchWhole
  rw [isEmpty_eq_of_map_bare hp]
  split
  · exact .guard (isEmpty_eq_of_forall₂ ht) (mirrored_empty R)
  · rcases hR.seek options hp ht 0 none with ⟨fault, h, h'⟩ | ⟨hit, hit', h, h', hhit⟩
    · rw [h, h']
      cases fault with
      | none => exact .unmatched
      | some fault => exact .malformed fault
    · rw [h, h']
      exact .matched hhit.captures

namespace Search.Mirrored

theorem new (hp : p.topLevel.map Part.bare = q.topLevel.map Part.bare)
    (ht : List.Forall₂ R t.topLevel t'.topLevel) :
    Mirrored R (.new p t options) (.new q t' options) :=
  ⟨hp, rfl, ht, rfl, .none, rfl⟩

theorem next (hR : Mirrors R) (h : Mirrored R s s') : Mirrored R s.next s'.next := by
  obtain ⟨hwording, hoptions, hsequence, hplace, -, -⟩ := h
  have hdrop : List.Forall₂ R (s.sequence.drop s.place) (s'.sequence.drop s'.place) := by
    rw [hplace]
    exact List.forall₂_drop _ hsequence
  unfold Search.next
  rw [isEmpty_eq_of_map_bare hwording]
  split
  · exact ⟨hwording, hoptions, hsequence, hplace, .none, rfl⟩
  · rcases hR.seek s.options hwording hdrop s.place none with
      ⟨fault, h, h'⟩ | ⟨hit, hit', h, h', hhit⟩
    · rw [hoptions, hplace] at h'
      rw [h, h']
      exact ⟨hwording, hoptions, hsequence, hsequence.length_eq, .none, rfl⟩
    · rw [hoptions, hplace] at h'
      rw [h, h']
      refine ⟨hwording, hoptions, hsequence, ?_, .some hhit, rfl⟩
      simp only [hhit.start, hhit.stop]

theorem restart (h : Mirrored R s s') : Mirrored R s.restart s'.restart :=
  ⟨h.wording, h.options, h.sequence, rfl, .none, rfl⟩

theorem run (hR : Mirrors R) (h : Mirrored R s s') (moves : List Move) :
    Mirrored R (s.run moves) (s'.run moves) := by
  refine List.foldl_rel h fun move _ a b hab => ?_
  cases move with
  | next => exact hab.next hR
  | restart => exact hab.restart

end Search.Mirrored

/-! Nodes that are related to themselves alone: nothing but the wording of the parts may differ. -/

theorem mirrors_eq : Mirrors Eq := by
  rintro n _ rfl
  exact ⟨rfl, List.forall₂_refl _⟩

theorem Captures.Mirrored.eq (h : C.Mirrored Eq D) : C = D := by
  refine NameMap.ext_get? fun name => ?_
  have hname := h name
  generalize C.get? name = c at hname ⊢
  generalize D.get? name = d at hname ⊢
  cases hname with
  | none => rfl
  | some hrun =>
    rw [List.forall₂_eq_eq_eq] at hrun
    rw [hrun]

theorem Hit.Mirrored.eq {a b : Hit} (h : a.Mirrored Eq b) : a = b := by
  cases a
  cases b
  rw [Hit.mk.injEq]
  exact ⟨h.start, h.stop, h.captures.eq⟩

/-- The searches stand at the same place and have found the same run or the same fault. -/
structure Search.Agrees (s s' : Search) : Prop where
  place : s.place = s'.place
  hit : s.hit = s'.hit
  fault : s.fault = s'.fault

theorem Search.Mirrored.agrees (h : Mirrored Eq s s') : s.Agrees s' := by
  refine ⟨h.place, ?_, h.fault⟩
  have hhit := h.hit
  generalize s.hit = a at hhit ⊢
  generalize s'.hit = b at hhit ⊢
  cases hhit with
  | none => rfl
  | some hhit => rw [hhit.eq]

namespace Pattern.SameWording

theorem matchWhole (h : p.SameWording q) : p.matchWhole t options = q.matchWhole t options := by
  have hrel : Outcome.Rel (Captures.Mirrored Eq) (p.matchWhole t options) (q.matchWhole t options) :=
    mirrors_eq.matchWhole h.topLevel (List.forall₂_refl _)
  generalize p.matchWhole t options = o at hrel ⊢
  generalize q.matchWhole t options = o' at hrel ⊢
  cases hrel with
  | matched hcaptures => rw [hcaptures.eq]
  | unmatched => rfl
  | malformed fault => rfl

theorem run (h : p.SameWording q) (moves : List Move) :
    ((Search.new p t options).run moves).Agrees ((Search.new q t options).run moves) := by
  have hnew : Search.Mirrored Eq (.new p t options) (.new q t options) :=
    .new h.topLevel (List.forall₂_refl _)
  exact (hnew.run mirrors_eq moves).agrees

end Pattern.SameWording

end FormulaMatch
