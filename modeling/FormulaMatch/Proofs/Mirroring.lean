import FormulaMatch.Proofs.Taking

/-! Matching two candidates side by side. Along a relation under which texts agree and children are
related one by one, every step of a match has the same outcome on both sides. -/

namespace FormulaMatch

/-- Two outcomes of one kind, with related values or the same fault. -/
inductive Outcome.Rel {α β : Type} (R : α → β → Prop) : Outcome α → Outcome β → Prop
  | matched {a b} : R a b → Rel R (.matched a) (.matched b)
  | unmatched : Rel R .unmatched .unmatched
  | malformed (fault : Fault) : Rel R (.malformed fault) (.malformed fault)

namespace Outcome.Rel

variable {α β γ δ : Type} {R : α → β → Prop} {S : γ → δ → Prop} {o : Outcome α} {o' : Outcome β}

theorem bind (h : Rel R o o') {f : α → Outcome γ} {g : β → Outcome δ}
    (hfg : ∀ a b, R a b → Rel S (f a) (g b)) : Rel S (o.bind f) (o'.bind g) := by
  cases h with
  | matched hab => exact hfg _ _ hab
  | unmatched => exact .unmatched
  | malformed fault => exact .malformed fault

theorem map (h : Rel R o o') {f : α → γ} {g : β → δ} (hfg : ∀ a b, R a b → S (f a) (g b)) :
    Rel S (o.map f) (o'.map g) := h.bind fun a b hab => .matched (hfg a b hab)

theorem guard {test test' : Bool} {a : α} {b : β} (ht : test = test') (hab : R a b) :
    Rel R (.guard test a) (.guard test' b) := by
  subst ht
  cases test
  · exact .unmatched
  · exact .matched hab

theorem of_map {f : α → γ} {g : β → δ} (h : Rel S (o.map f) (o'.map g))
    (hfg : ∀ a b, S (f a) (g b) → R a b) : Rel R o o' := by
  cases o <;> cases o' <;> cases h
  · exact .matched (hfg _ _ ‹_›)
  · exact .unmatched
  · exact .malformed _

theorem isMatch_eq (h : Rel R o o') : o.isMatch = o'.isMatch := by
  cases h <;> rfl

end Outcome.Rel

/-- Related nodes have the same text and related children. -/
def Mirrors (R : Node → Node → Prop) : Prop :=
  ∀ n m, R n m → n.text = m.text ∧ List.Forall₂ R n.children m.children

/-- Wildcards that have runs have related runs. -/
def Captures.Mirrored (R : Node → Node → Prop) (C D : Captures) : Prop :=
  ∀ name, Option.Rel (List.Forall₂ R) (C.get? name) (D.get? name)

variable {R : Node → Node → Prop} {options : Options} {C D : Captures} {queue queue' : List Node}

theorem mirrored_empty (R : Node → Node → Prop) : Captures.Mirrored R .empty .empty :=
  fun _ => .none

theorem isEmpty_eq_of_forall₂ (h : List.Forall₂ R queue queue') :
    queue.isEmpty = queue'.isEmpty := by
  cases h <;> rfl

theorem forall₂_bare_iff {ns ms : List Node} :
    List.Forall₂ (fun n m : Node => n.bare = m.bare) ns ms ↔
      ns.map Formula.bare = ms.map Formula.bare := by
  rw [← List.forall₂_eq_eq_eq, List.forall₂_map_left_iff, List.forall₂_map_right_iff]

theorem mirrors_bare : Mirrors fun n m => n.bare = m.bare := by
  intro n m h
  refine ⟨by simpa using congrArg Formula.text h, forall₂_bare_iff.mpr ?_⟩
  simpa using congrArg Formula.children h

theorem mirrored_bare_iff :
    C.Mirrored (fun n m => n.bare = m.bare) D ↔ C.Alike D := by
  refine forall_congr' fun name => ?_
  unfold Captures.shape?
  cases C.get? name <;> cases D.get? name
  · simp
  · simp
  · simp
  · rw [Option.map_some, Option.map_some, Option.some.injEq, ← forall₂_bare_iff]
    exact ⟨fun h => by cases h; assumption, .some⟩

theorem Mirrors.bare (hR : Mirrors R) {n m : Node} (h : R n m) : n.bare = m.bare := by
  induction n using Formula.induction generalizing m with
  | node i hd cs ih =>
    obtain ⟨j, k, ds⟩ := m
    obtain ⟨htext, hcs⟩ := hR _ _ h
    have hall : cs.map Formula.bare = ds.map Formula.bare :=
      forall₂_bare_iff.mp (((List.forall₂_and_left cs ds).mpr ⟨fun c hc => hc, hcs⟩).imp
        fun c d hcd => ih c hcd.1 hcd.2)
    simp_all [Formula.text, Formula.head]

theorem Mirrors.map_bare (hR : Mirrors R) (h : List.Forall₂ R queue queue') :
    queue.map Formula.bare = queue'.map Formula.bare :=
  forall₂_bare_iff.mp (h.imp fun _ _ => hR.bare)

theorem Mirrors.isLeaf (hR : Mirrors R) {n m : Node} (h : R n m) : n.isLeaf = m.isLeaf := by
  rw [← Formula.isLeaf_bare, hR.bare h, Formula.isLeaf_bare]

theorem Captures.Mirrored.insert (h : C.Mirrored R D) (name : String) {run run' : List Node}
    (hrun : List.Forall₂ R run run') :
    Captures.Mirrored R (C.insert name run) (D.insert name run') := by
  intro other
  rw [NameMap.get?_insert, NameMap.get?_insert]
  split
  · exact .some hrun
  · exact h other

theorem Mirrors.assign (hR : Mirrors R) (h : C.Mirrored R D) (name : String)
    {run run' : List Node} (hrun : List.Forall₂ R run run') :
    Outcome.Rel (Captures.Mirrored R) (C.assign name run) (D.assign name run') := by
  have hname := h name
  unfold Captures.assign
  cases hC : C.get? name with
  | none =>
    rw [hC] at hname
    cases hD : D.get? name with
    | none => exact .matched (h.insert name hrun)
    | some _ => rw [hD] at hname; nomatch hname
  | some earlier =>
    rw [hC] at hname
    cases hD : D.get? name with
    | none => rw [hD] at hname; nomatch hname
    | some earlier' =>
      rw [hD] at hname
      obtain hearlier : List.Forall₂ R earlier earlier' := by cases hname; assumption
      have hs : Formula.sameShapes earlier run = Formula.sameShapes earlier' run' := by
        rw [Bool.eq_iff_iff, Formula.sameShapes_iff, Formula.sameShapes_iff, hR.map_bare hearlier,
          hR.map_bare hrun]
      simp only [hs]
      split
      · exact .matched (h.insert name hrun)
      · exact .malformed _

structure Absorbed.Mirrored (R : Node → Node → Prop) (a b : Absorbed) : Prop where
  taken : List.Forall₂ R a.taken b.taken
  left : List.Forall₂ R a.left b.left
  captures : a.captures.Mirrored R b.captures

theorem Mirrors.absorb (hR : Mirrors R) {next next' : Node → Outcome Captures}
    (hnext : ∀ n m, R n m → Outcome.Rel (Captures.Mirrored R) (next n) (next' m))
    {pending : Pending} (hq : List.Forall₂ R queue queue') :
    Outcome.Rel (Absorbed.Mirrored R) (absorb options next pending queue)
      (absorb options next' pending queue') := by
  induction hq generalizing pending with
  | nil => exact .unmatched
  | @cons n m rest rest' hnm hrest ih =>
    have hgo : Outcome.Rel (Absorbed.Mirrored R)
        (if rest.isEmpty || (pending.isEmpty && isDivider n.text) then .unmatched
          else (pending.track options n.text).bind fun after =>
            (FormulaMatch.absorb options next after rest).map
              fun run => { run with taken := n :: run.taken })
        (if rest'.isEmpty || (pending.isEmpty && isDivider m.text) then .unmatched
          else (pending.track options m.text).bind fun after =>
            (FormulaMatch.absorb options next' after rest').map
              fun run => { run with taken := m :: run.taken }) := by
      rw [isEmpty_eq_of_forall₂ hrest, (hR n m hnm).1]
      split
      · exact .unmatched
      · cases pending.track options m.text with
        | matched after =>
          have hmore : Outcome.Rel (Absorbed.Mirrored R) (FormulaMatch.absorb options next after rest)
              (FormulaMatch.absorb options next' after rest') := ih
          exact hmore.map fun a b h => ⟨.cons hnm h.taken, h.left, h.captures⟩
        | unmatched => exact .unmatched
        | malformed fault => exact .malformed fault
    rw [FormulaMatch.absorb, FormulaMatch.absorb]
    cases hclose : pending.mustClose
    · have hn := hnext n m hnm
      cases ho : next n <;> cases ho' : next' m <;> rw [ho, ho'] at hn <;> cases hn
      · exact .matched ⟨.nil, .cons hnm hrest, ‹_›⟩
      · exact hgo
      · exact hgo
    · exact hgo

theorem Mirrors.absorbFrom (hR : Mirrors R) {next next' : Node → Outcome Captures}
    (hnext : ∀ n m, R n m → Outcome.Rel (Captures.Mirrored R) (next n) (next' m))
    {n m : Node} (hnm : R n m) (hq : List.Forall₂ R queue queue') :
    Outcome.Rel (Absorbed.Mirrored R) (absorbFrom options next n queue)
      (absorbFrom options next' m queue') := by
  unfold FormulaMatch.absorbFrom
  rw [isEmpty_eq_of_forall₂ hq, (hR n m hnm).1]
  split
  · exact .unmatched
  · cases Pending.track options [] m.text with
    | matched after =>
      exact (hR.absorb hnext hq).map fun a b h => ⟨.cons hnm h.taken, h.left, h.captures⟩
    | unmatched => exact .unmatched
    | malformed fault => exact .malformed fault

def MirroredEnd (R : Node → Node → Prop) (a b : List Node × Captures) : Prop :=
  List.Forall₂ R a.1 b.1 ∧ a.2.Mirrored R b.2

theorem matchPart_rel_of_single {p : Part} {n m : Node}
    (hs : Outcome.Rel (MirroredEnd R) (matchParts options [p] [n] C)
      (matchParts options [p] [m] D)) :
    Outcome.Rel (Captures.Mirrored R) (matchPart options p n C) (matchPart options p m D) := by
  cases hw : p.isWildcard with
  | true =>
    cases p with
    | literal => simp [Part.isWildcard] at hw
    | wildcard => exact .unmatched
  | false =>
    rw [matchParts_single hw, matchParts_single hw] at hs
    exact hs.of_map fun a b h => h.2

/-- Equal outcomes on related rows of nodes, from related captures. -/
theorem Mirrors.matchParts (hR : Mirrors R) {ps : List Part} (hq : List.Forall₂ R queue queue')
    (hC : C.Mirrored R D) :
    Outcome.Rel (MirroredEnd R) (matchParts options ps queue C)
      (matchParts options ps queue' D) := by
  induction ps using Part.row_induction generalizing queue queue' C D with
  | nil => exact .matched ⟨hq, hC⟩
  | literal i h ps rest ihps ihrest =>
    cases hq with
    | nil => exact .unmatched
    | @cons n m _ _ hnm hq =>
      rw [FormulaMatch.matchParts, FormulaMatch.matchParts]
      refine Outcome.Rel.bind (R := Captures.Mirrored R) ?_ fun a b hab => ihrest hq hab
      rw [matchPart, matchPart, (hR n m hnm).1, hR.isLeaf hnm]
      split
      · exact .unmatched
      · split
        · exact .guard rfl hC
        · refine (ihps (hR n m hnm).2 hC).bind fun a b hab => .guard ?_ hab.2
          rw [isEmpty_eq_of_forall₂ hab.1]
  | wildcard i h rest ihrest ihpart =>
    cases hq with
    | nil => cases rest <;> exact .unmatched
    | @cons n m _ _ hnm hq =>
      cases rest with
      | nil =>
        rw [FormulaMatch.matchParts, FormulaMatch.matchParts]
        exact (hR.assign hC h.text (.cons hnm hq)).map fun a b hab => ⟨.nil, hab⟩
      | cons next rest =>
        rw [FormulaMatch.matchParts, FormulaMatch.matchParts]
        have hnext := fun x y (hxy : R x y) =>
          matchPart_rel_of_single (ihpart next (by simp) (.cons hxy .nil) hC)
        refine (hR.absorbFrom hnext hnm hq).bind fun a b hab => ?_
        exact (hR.assign hab.captures h.text hab.taken).bind fun a' b' hab' => ihrest hab.left hab'

theorem Mirrors.matchPart (hR : Mirrors R) {p : Part} {n m : Node} (hnm : R n m)
    (hC : C.Mirrored R D) :
    Outcome.Rel (Captures.Mirrored R) (matchPart options p n C) (matchPart options p m D) :=
  matchPart_rel_of_single (hR.matchParts (.cons hnm .nil) hC)

/-- Whether a part matches depends on shapes alone. -/
theorem isMatch_matchPart_eq {p : Part} {n m : Node} (hnm : n.bare = m.bare)
    (hC : C.Alike D) :
    (matchPart options p n C).isMatch = (matchPart options p m D).isMatch :=
  (mirrors_bare.matchPart hnm (mirrored_bare_iff.mpr hC)).isMatch_eq

end FormulaMatch
