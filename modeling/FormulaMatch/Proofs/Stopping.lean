import FormulaMatch.Proofs.Absorption
import FormulaMatch.Proofs.Bars
import FormulaMatch.Proofs.Places

/-! Where a wildcard stops. Matching goes through a row part by part, and each part does something with the
front of the queue alone; a wildcard before another part takes in the nodes up to the first place
where that part may take over. -/

namespace FormulaMatch

open Pending (track runAll)

/-- What part `p`, which `next?` follows, does with the front of a queue: the nodes left, and what was
captured. -/
def matchFront (options : Options) (p : Part) (next? : Option Part) (n : Node) (queue : List Node)
    (C : Captures) : Outcome (List Node × Captures) :=
  match p, next? with
  | .literal i h ps, _ => (matchPart options (.literal i h ps) n C).map fun D => (queue, D)
  | .wildcard _ h, none => (C.assign h.text (n :: queue)).map fun D => ([], D)
  | .wildcard _ h, some next =>
    (absorbFrom options (fun m => matchPart options next m C) n queue).bind fun run =>
      (run.captures.assign h.text run.taken).map fun D => (run.left, D)

def Pattern.matchAt (p : Pattern) (options : Options) (id : Nat) (n : Node) (queue : List Node)
    (C : Captures) : Outcome (List Node × Captures) :=
  match p.part? id with
  | some q => matchFront options q (p.nextSibling? id) n queue C
  | none => .unmatched

/-- The brackets that wait when a wildcard has taken in `n` and the first `j` nodes of the queue. -/
def waitsAfter (options : Options) (n : Node) (queue : List Node) (j : Nat) : Outcome Pending :=
  runAll (track options) [] ((n :: queue.take j).map Formula.text)

/-- A wildcard that has taken in `n` and `k` nodes of the queue stops there, and the part after it has
captured `D`. -/
structure StopsAt (options : Options) (name : String) (next : Part) (n : Node) (queue : List Node)
    (C : Captures) (k : Nat) (D : Captures) : Prop where
  closed : ∃ pending, waitsAfter options n queue k = .matched pending ∧ pending.mustClose = false
  found : ∃ m, queue[k]? = some m ∧ matchPart options next m C = .matched D
  passed : ∀ j < k, ∀ m, queue[j]? = some m →
    (∃ pending, waitsAfter options n queue j = .matched pending ∧ pending.mustClose = true) ∨
      (matchPart options next m C).isMatch = false
  guarded : ∀ j < k, ∀ m, queue[j]? = some m → isDivider m.text = true →
    ∃ pending, waitsAfter options n queue j = .matched pending ∧ pending ≠ []
  agrees : ∀ group, D.get? name = some group → Formula.sameShapes group (n :: queue.take k) = true

variable {options : Options} {p next : Part} {rest : List Part} {n : Node} {queue left : List Node}
  {C D E : Captures} {name : String} {k : Nat}

theorem Outcome.bind_assoc {α β γ : Type} (o : Outcome α) (f : α → Outcome β) (g : β → Outcome γ) :
    (o.bind f).bind g = o.bind fun a => (f a).bind g := by
  cases o <;> rfl

/-- The parts of a row have their turn one after the other. -/
theorem matchParts_cons : matchParts options (p :: rest) (n :: queue) C =
    (matchFront options p rest.head? n queue C).bind fun result =>
      matchParts options rest result.1 result.2 := by
  cases p with
  | literal i h ps => simp only [matchParts, matchFront, Outcome.map, Outcome.bind_assoc, Outcome.bind_matched]
  | wildcard i h =>
    cases rest with
    | nil => simp only [matchParts, matchFront, List.head?_nil, Outcome.map, Outcome.bind_assoc,
        Outcome.bind_matched]
    | cons next rest =>
      simp only [matchParts, matchFront, List.head?_cons, Outcome.map, Outcome.bind_assoc,
        Outcome.bind_matched]

theorem passes_iff {stops : Node → Bool} {pending : Pending} {ns : List Node} :
    Passes options stops pending ns ↔
      (∃ last, pending.runAll (track options) (ns.map Formula.text) = .matched last ∧
        last.mustClose = false) ∧
      ∀ j m, ns[j]? = some m → ∃ waiting,
        pending.runAll (track options) ((ns.take j).map Formula.text) = .matched waiting ∧
        (waiting.mustClose = true ∨ stops m = false) ∧ (isDivider m.text = true → waiting ≠ []) := by
  induction ns generalizing pending with
  | nil => simp [Passes, runAll]
  | cons n ns ih =>
    simp only [Passes, ih]
    constructor
    · rintro ⟨hstop, hdiv, after, htrack, ⟨last, hlast, hclose⟩, hall⟩
      refine ⟨⟨last, by rw [List.map_cons, runAll, htrack, Outcome.bind_matched, hlast], hclose⟩, ?_⟩
      rintro (_ | j) m hm
      · obtain rfl : n = m := by simpa using hm
        refine ⟨pending, rfl, ?_, hdiv⟩
        cases hc : pending.mustClose with
        | true => exact .inl rfl
        | false => exact .inr (hstop hc)
      · obtain ⟨waiting, hwaiting, hrest⟩ := hall j m (by simpa using hm)
        refine ⟨waiting, ?_, hrest⟩
        rw [List.take_succ_cons, List.map_cons, runAll, htrack, Outcome.bind_matched, hwaiting]
    · rintro ⟨⟨last, hlast, hclose⟩, hall⟩
      obtain ⟨after, htrack, hlast⟩ := Outcome.bind_eq_matched_iff.mp hlast
      obtain ⟨_, hpending, hstop, hdiv⟩ := hall 0 n rfl
      cases hpending
      refine ⟨fun hc => hstop.resolve_left (by simp [hc]), hdiv, after, htrack, ⟨last, hlast, hclose⟩,
        fun j m hm => ?_⟩
      obtain ⟨waiting, hwaiting, hrest⟩ := hall (j + 1) m (by simpa using hm)
      rw [List.take_succ_cons, List.map_cons, runAll, htrack, Outcome.bind_matched] at hwaiting
      exact ⟨waiting, hwaiting, hrest⟩

theorem waitsAfter_of_track {pending : Pending} (h : track options [] n.text = .matched pending)
    (queue : List Node) (j : Nat) : waitsAfter options n queue j =
      pending.runAll (track options) ((queue.take j).map Formula.text) := by
  rw [waitsAfter, List.map_cons, runAll, h, Outcome.bind_matched]

theorem waitsAfter_ignored (hb : options.ignoreBrackets = true) (n : Node) (queue : List Node) (j : Nat) :
    waitsAfter options n queue j = .matched [] := by
  have hall : ∀ texts, runAll (track options) [] texts = .matched [] := by
    intro texts
    induction texts with
    | nil => rfl
    | cons text texts ih => rw [runAll, track, if_pos hb, Outcome.bind_matched, ih]
  exact hall _

theorem exists_waitsAfter {pending : Pending} (h : waitsAfter options n queue k = .matched pending)
    {j : Nat} (hj : j ≤ k) : ∃ waiting, waitsAfter options n queue j = .matched waiting := by
  have hsplit : n :: queue.take k = (n :: queue.take j) ++ (queue.take k).drop j := by
    rw [List.cons_append, ← Nat.min_eq_left hj, ← List.take_take, Nat.min_eq_left hj,
      List.take_append_drop]
  rw [waitsAfter, hsplit, List.map_append, Pending.runAll_append] at h
  obtain ⟨waiting, hwaiting, -⟩ := Outcome.bind_eq_matched_iff.mp h
  exact ⟨waiting, hwaiting⟩

theorem StopsAt.lt (h : StopsAt options name next n queue C k D) : k < queue.length := by
  obtain ⟨m, hm, -⟩ := h.found
  exact (List.getElem?_eq_some_iff.mp hm).1

theorem StopsAt.not_lt {k' : Nat} {D' : Captures} (h : StopsAt options name next n queue C k D)
    (h' : StopsAt options name next n queue C k' D') : ¬ k < k' := by
  intro hk
  obtain ⟨m, hm, hmatch⟩ := h.found
  obtain ⟨pending, hpending, hclose⟩ := h.closed
  -- The later one passes over `k`, where no bracket waits and the next part matches.
  rcases h'.passed k hk m hm with ⟨waiting, hwaiting, hwaits⟩ | hno
  · rw [hpending, Outcome.matched.injEq] at hwaiting
    rw [← hwaiting, hclose] at hwaits
    cases hwaits
  · rw [hmatch] at hno
    cases hno

theorem StopsAt.unique {k' : Nat} {D' : Captures} (h : StopsAt options name next n queue C k D)
    (h' : StopsAt options name next n queue C k' D') : k = k' ∧ D = D' := by
  have hk : k = k' := Nat.le_antisymm (Nat.not_lt.mp (h'.not_lt h)) (Nat.not_lt.mp (h.not_lt h'))
  subst hk
  obtain ⟨m, hm, hmatch⟩ := h.found
  obtain ⟨m', hm', hmatch'⟩ := h'.found
  rw [hm, Option.some.injEq] at hm'
  subst hm'
  rw [hmatch, Outcome.matched.injEq] at hmatch'
  exact ⟨rfl, hmatch'⟩

theorem take_take_of_lt {j : Nat} (hj : j < k) :
    (queue.take k)[j]? = queue[j]? ∧ (queue.take k).take j = queue.take j :=
  ⟨List.getElem?_take_of_lt hj, by rw [List.take_take, Nat.min_eq_left (Nat.le_of_lt hj)]⟩

theorem StopsAt.passes (h : StopsAt options name next n queue C k D) : ∃ pending,
    track options [] n.text = .matched pending ∧
      Passes options (fun m => (matchPart options next m C).isMatch) pending (queue.take k) := by
  obtain ⟨last, hlast, hclose⟩ := h.closed
  obtain ⟨pending, htrack, -⟩ := Outcome.bind_eq_matched_iff.mp hlast
  have hwaits := waitsAfter_of_track htrack queue
  refine ⟨pending, htrack, passes_iff.mpr ⟨⟨last, (hwaits k).symm.trans hlast, hclose⟩, fun j m hm => ?_⟩⟩
  have hj : j < k := (List.getElem?_eq_some_iff.mp hm).1.trans_le (List.length_take_le ..)
  obtain ⟨hget, htake⟩ := take_take_of_lt hj
  rw [hget] at hm
  rw [htake, ← hwaits]
  -- `h` says of each condition at `j` what waits there, and it is the same for all.
  obtain ⟨waiting, hwaiting⟩ := exists_waitsAfter hlast (Nat.le_of_lt hj)
  have hsame : ∀ other, waitsAfter options n queue j = .matched other → waiting = other :=
    fun other hother => Outcome.matched.inj (hwaiting.symm.trans hother)
  refine ⟨waiting, hwaiting, ?_, fun hdiv => ?_⟩
  · exact (h.passed j hj m hm).imp_left fun ⟨other, hother, hcloses⟩ => hsame other hother ▸ hcloses
  · obtain ⟨other, hother, hne⟩ := h.guarded j hj m hm hdiv
    exact hsame other hother ▸ hne

theorem stopsAt_of_passes {pending : Pending} {m : Node} (htrack : track options [] n.text = .matched pending)
    (hpasses : Passes options (fun m => (matchPart options next m C).isMatch) pending (queue.take k))
    (hm : queue[k]? = some m) (hmatch : matchPart options next m C = .matched D)
    (hagrees : ∀ group, D.get? name = some group →
      Formula.sameShapes group (n :: queue.take k) = true) : StopsAt options name next n queue C k D := by
  obtain ⟨⟨last, hlast, hclose⟩, hall⟩ := passes_iff.mp hpasses
  have hwaits := waitsAfter_of_track htrack queue
  have hbefore : ∀ j < k, ∀ m, queue[j]? = some m → ∃ waiting,
      waitsAfter options n queue j = .matched waiting ∧
      (waiting.mustClose = true ∨ (matchPart options next m C).isMatch = false) ∧
      (isDivider m.text = true → waiting ≠ []) := by
    intro j hj m hm
    obtain ⟨hget, htake⟩ := take_take_of_lt hj
    obtain ⟨waiting, hwaiting, hrest⟩ := hall j m (hget.trans hm)
    rw [htake, ← hwaits] at hwaiting
    exact ⟨waiting, hwaiting, hrest⟩
  refine ⟨⟨last, (hwaits k).trans hlast, hclose⟩, ⟨m, hm, hmatch⟩, fun j hj m hm => ?_,
    fun j hj m hm hdiv => ?_, hagrees⟩
  · obtain ⟨waiting, hwaiting, hpassed, -⟩ := hbefore j hj m hm
    exact hpassed.imp_left fun hwaits => ⟨waiting, hwaiting, hwaits⟩
  · obtain ⟨waiting, hwaiting, -, hguarded⟩ := hbefore j hj m hm
    exact ⟨waiting, hwaiting, hguarded hdiv⟩

theorem matchFront_wildcard_iff {i : Nat} {h : Head} :
    matchFront options (.wildcard i h) (some next) n queue C = .matched (left, E) ↔
      isDivider n.text = false ∧ ∃ k D, StopsAt options h.text next n queue C k D ∧
        left = queue.drop k ∧ E = D.insert h.text (n :: queue.take k) := by
  simp only [matchFront, Outcome.map]
  constructor
  · intro hfront
    obtain ⟨run, habsorb, hfront⟩ := Outcome.bind_eq_matched_iff.mp hfront
    obtain ⟨D', hassign, hfront⟩ := Outcome.bind_eq_matched_iff.mp hfront
    obtain ⟨rfl, rfl⟩ := Prod.mk.inj (Outcome.matched.inj hfront)
    obtain ⟨hdiv, before, m, left, pending, htaken, hleft, rfl, hm, htrack, hpasses⟩ :=
      absorbFrom_eq_matched_iff.mp habsorb
    obtain ⟨hagrees, rfl⟩ := Captures.assign_eq_matched_iff_sameShapes.mp hassign
    have htake : (before ++ m :: left).take before.length = before := List.take_left
    refine ⟨hdiv, before.length, run.captures, stopsAt_of_passes htrack ?_ (by simp) hm ?_,
      by rw [hleft, List.drop_left], by rw [htaken, htake]⟩
    · rwa [htake]
    · rwa [htake, ← htaken]
  · rintro ⟨hdiv, k, D, hstops, rfl, rfl⟩
    obtain ⟨pending, htrack, hpasses⟩ := hstops.passes
    obtain ⟨m, hm, hmatch⟩ := hstops.found
    obtain ⟨hk, rfl⟩ := List.getElem?_eq_some_iff.mp hm
    have habsorb : absorbFrom options (fun m => matchPart options next m C) n queue =
        .matched ⟨n :: queue.take k, queue.drop k, D⟩ :=
      absorbFrom_eq_matched_iff.mpr ⟨hdiv, queue.take k, queue[k], queue.drop (k + 1), pending, rfl,
        List.drop_eq_getElem_cons hk, by rw [← List.drop_eq_getElem_cons hk, List.take_append_drop],
        hmatch, htrack, hpasses⟩
    rw [habsorb, Outcome.bind_matched, Captures.assign_eq_matched_iff_sameShapes.mpr ⟨hstops.agrees, rfl⟩]
    rfl

namespace Pattern

variable {recognises : String → Bool} {source : Tree} {p : Pattern} {i : Nat} {h : Head}

theorem matchAt_of_part? {q : Part} (hq : p.part? i = some q) (options : Options) (n : Node)
    (queue : List Node) (C : Captures) :
    p.matchAt options i n queue C = matchFront options q (p.nextSibling? i) n queue C := by
  rw [matchAt, hq]

theorem Arranged.exists_row (harranged : p.Arranged) {q next : Part} (hq : p.part? i = some q)
    (hnext : p.nextSibling? i = some next) : p.part? next.id = some next ∧
      ∃ owner ∈ p.allParts, ∃ before rest, owner.parts = before ++ q :: next :: rest := by
  rw [harranged.next] at hnext
  obtain ⟨owner, howner, hnext⟩ := Option.bind_eq_some_iff.mp hnext
  obtain ⟨hmem, before, c, after, hsplit, rfl⟩ := exists_child_of_parent? howner
  obtain ⟨hc, -, hposition⟩ := harranged.child owner hmem before.length c (by simp [hsplit])
  obtain rfl : q = c := Option.some.inj (hq.symm.trans hc)
  refine ⟨(harranged.child owner hmem _ next hnext).1, owner, hmem, before, ?_⟩
  rw [hposition, hsplit, getElem?_behind] at hnext
  obtain ⟨rest, rfl⟩ := List.head?_eq_some_iff.mp hnext
  exact ⟨rest, hsplit⟩

/-- A wildcard before another part matches exactly if it may stop somewhere, which it may at one place at
most. It takes in what is before that place and leaves the rest of the queue as it is, for the part that
takes over never takes more than the node it is shown. -/
theorem wildcard_stops_exactly (hp : ofTree recognises source = .ok p) (ids : List Nat)
    (hw : (p.trims ids).part? i = some (.wildcard i h))
    (hnext : (p.trims ids).nextSibling? i = some next) (options : Options) (n : Node)
    (queue : List Node) (C : Captures) :
    (∀ left E, (p.trims ids).matchAt options i n queue C = .matched (left, E) ↔
      isDivider n.text = false ∧ ∃ k D, StopsAt options h.text next n queue C k D ∧
        left = queue.drop k ∧ E = D.insert h.text (n :: queue.take k)) ∧
    (∀ k D k' D', StopsAt options h.text next n queue C k D →
      StopsAt options h.text next n queue C k' D' → k = k' ∧ D = D') ∧
    (∀ m rest, (p.trims ids).matchAt options next.id m rest C =
      (matchPart options next m C).map fun D => (rest, D)) ∧
    (options.ignoreBrackets = true → ∀ j, waitsAfter options n queue j = .matched []) ∧
    ∃ owner ∈ (p.trims ids).allParts, ∃ before rest,
      owner.parts = before ++ .wildcard i h :: next :: rest ∧
      matchParts options (.wildcard i h :: next :: rest) (n :: queue) C =
        ((p.trims ids).matchAt options i n queue C).bind fun result =>
          matchParts options (next :: rest) result.1 result.2 := by
  obtain ⟨-, harranged⟩ := arranged_trims hp ids
  obtain ⟨hpart, owner, howner, before, rest, hrow⟩ := harranged.exists_row hw hnext
  have hliteral : next.isWildcard = false := harranged.next_literal i _ next hw hnext rfl
  refine ⟨fun left E => ?_, fun k D k' D' => StopsAt.unique, fun m rest => ?_,
    fun hb => waitsAfter_ignored hb n queue, owner, howner, before, rest, hrow, ?_⟩
  · rw [matchAt_of_part? hw, hnext, matchFront_wildcard_iff]
  · rw [matchAt_of_part? hpart]
    cases next with
    | literal => rfl
    | wildcard => cases hliteral
  · rw [matchAt_of_part? hw, hnext, matchParts_cons, List.head?_cons]

/-- With the first part of `q w = w` cut off, the wildcard `w` before the equals sign takes in `( = , )`,
where the parenthesis waits at the first equals sign and at the comma, and stops at the equals sign
behind it. -/
theorem wildcard_stops_exactly_parenthesis :
    let source : Tree := .ofExpr (.sequence [.leaf "q", .leaf "w", .leaf "=", .leaf "w"])
    let n : Node := (Expr.leaf "(").numberFrom 0
    let queue : List Node := ["=", ",", ")", "=", "x"].map fun text => (Expr.leaf text).numberFrom 0
    ∃ p h next, ofTree (· == "w") source = .ok p ∧ (p.trims [0]).part? 2 = some (.wildcard 2 h) ∧
      (p.trims [0]).nextSibling? 2 = some next ∧
      (∃ D, StopsAt .exact h.text next n queue .empty 3 D) ∧
      ∀ k D, StopsAt .exact h.text next n queue .empty k D → k = 3 := by
  intro source n queue
  obtain ⟨p, hp⟩ : ∃ p, ofTree (· == "w") source = .ok p := ⟨_, rfl⟩
  obtain ⟨h, hw⟩ : ∃ h, (p.trims [0]).part? 2 = some (.wildcard 2 h) := by cases hp; exact ⟨_, rfl⟩
  obtain ⟨next, hnext⟩ : ∃ next, (p.trims [0]).nextSibling? 2 = some next := by cases hp; exact ⟨_, rfl⟩
  obtain ⟨E, hmatch⟩ : ∃ E, (p.trims [0]).matchAt .exact 2 n queue .empty = .matched (queue.drop 3, E) := by
    cases hp
    exact ⟨_, rfl⟩
  obtain ⟨hexact, hunique, -⟩ := wildcard_stops_exactly hp [0] hw hnext .exact n queue .empty
  obtain ⟨-, k, D, hstops, hleft, -⟩ := (hexact _ _).mp hmatch
  obtain rfl : k = 3 := by
    have hlength := congrArg List.length hleft
    have hlt : k < 5 := hstops.lt
    simp only [List.length_drop, queue, List.length_map, List.length_cons, List.length_nil] at hlength
    omega
  exact ⟨p, h, next, hp, hw, hnext, ⟨D, hstops⟩, fun k D' hk => (hunique k D' 3 D hk hstops).1⟩

end Pattern

end FormulaMatch
