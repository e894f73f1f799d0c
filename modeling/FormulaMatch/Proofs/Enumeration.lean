import FormulaMatch.Proofs.Copies
import FormulaMatch.Proofs.Tolerance
import Mathlib.Logic.Function.Iterate

/-! The steps of a search enumerate its hits. They are those of a scan from left to right that goes on
at the end of each hit, and after the last of them there are no more until the search restarts. -/

namespace FormulaMatch

open Captures (Entry)

/-- Copies of the top-level nodes from a place on. -/
def Tree.itemsFrom (t : Tree) (start : Nat) : List Expr :=
  (t.topLevel.drop start).map Formula.unlabel

structure Find where
  start : Nat
  stop : Nat
  groups : Snapshot

def Hit.report (hit : Hit) : Find := ⟨hit.start, hit.stop, hit.captures.snapshot⟩

namespace Pattern

variable (p : Pattern) (t : Tree) (options : Options)

/-- Whether a run may start at the place and the pattern matches what stands from there on. -/
def SucceedsAt (start : Nat) : Prop :=
  (options.leading = true ∨ start = 0) ∧
    (p.matchWhole (.ofExpr (.sequence (t.itemsFrom start))) (options.withLeading false)).isMatch = true

/-- The scan from `place` on, which takes the first place where the pattern matches what stands from
there on and goes on behind what it has taken. -/
inductive LeftmostScan : Nat → List Find → Prop
  | done {place} (none : ∀ start, place ≤ start → ¬ p.SucceedsAt t options start) :
      LeftmostScan place []
  | found {place start length groups finds} (le : place ≤ start)
      (succeeds : p.SucceedsAt t options start)
      (least : ∀ other, place ≤ other → other < start → ¬ p.SucceedsAt t options other)
      (takes : p.TakesFirst (options.withLeading false) (t.itemsFrom start) length groups)
      (rest : LeftmostScan (start + length) finds) :
      LeftmostScan place (⟨start, start + length, groups⟩ :: finds)

variable {p t options}

theorem TakesFirst.unique {items : List Expr} {length length' : Nat} {groups groups' : Snapshot}
    (h : p.TakesFirst options items length groups)
    (h' : p.TakesFirst options items length' groups') : length = length' ∧ groups = groups' := by
  obtain ⟨C, -, hhit, rfl⟩ := h
  obtain ⟨C', -, hhit', rfl⟩ := h'
  rw [hhit, Option.some.injEq, Hit.mk.injEq] at hhit'
  obtain ⟨-, rfl, rfl⟩ := hhit'
  exact ⟨rfl, rfl⟩

theorem LeftmostScan.unique {place : Nat} {finds finds' : List Find}
    (h : p.LeftmostScan t options place finds) (h' : p.LeftmostScan t options place finds') :
    finds = finds' := by
  induction h generalizing finds' with
  | done none =>
    cases h' with
    | done => rfl
    | found le succeeds => exact absurd succeeds (none _ le)
  | @found _ start _ _ _ le succeeds least takes _ ih =>
    cases h' with
    | done none => exact absurd succeeds (none _ le)
    | @found _ start' _ _ _ le' succeeds' least' takes' rest' =>
      have hstart : start = start' := by
        rcases Nat.lt_trichotomy start start' with hlt | heq | hgt
        · exact absurd succeeds (least' _ le hlt)
        · exact heq
        · exact absurd succeeds' (least _ le' hgt)
      subst hstart
      obtain ⟨rfl, rfl⟩ := takes.unique takes'
      rw [ih rest']

theorem succeedsAt_iff (hp : p.topLevel ≠ []) {start : Nat} :
    p.SucceedsAt t options start ↔ (options.leading = true ∨ start = 0) ∧
      (matchRun options p.topLevel (t.topLevel.drop start)).isMatch = true := by
  have hitems := Tree.topLevel_ofExpr_sequence (t.itemsFrom start)
  refine and_congr_right fun _ => ?_
  rw [isMatch_matchWhole_iff hp, ← isMatch_matchRun_copies hitems]
  simp only [matchRun_withLeading]
  constructor
  · rintro ⟨other, hl, hm⟩
    obtain rfl : other = 0 := by simpa [Options.withLeading] using hl
    exact hm
  · intro hm
    exact ⟨0, .inr rfl, hm⟩

end Pattern

variable {options : Options} {ps : List Part} {queue beyond : List Node} {C D : Captures}
  {taken : List Entry} {p : Pattern} {t : Tree} {s : Search} {hit : Hit}

theorem Takes.length_le (h : Takes options ps queue C taken beyond D) :
    ps.length + beyond.length ≤ queue.length := by
  induction h with
  | nil => simp
  | leaf _ _ _ ih => simp only [List.length_cons]; omega
  | branch _ _ _ _ _ _ ih => simp only [List.length_cons]; omega
  | last => simp
  | stop _ _ _ _ _ _ _ _ ih =>
    simp only [List.length_cons, List.length_append] at ih ⊢
    omega

theorem Hit.Holds.length_le (h : hit.Holds options ps queue) : hit.start + ps.length ≤ hit.stop := by
  obtain ⟨taken, ht⟩ := takes_of_matchParts h.run
  have hlen := ht.length_le
  have hlt := h.start_lt
  have hle := h.stop_le
  simp only [List.length_drop] at hlen
  omega

theorem Hit.Holds.takesFirst (hp : p.topLevel ≠ []) (h : hit.Holds options p.topLevel t.topLevel) :
    p.TakesFirst (options.withLeading false) (t.itemsFrom hit.start) (hit.stop - hit.start)
      hit.captures.snapshot := by
  have hrun : FormulaMatch.matchRun (options.withLeading false) p.topLevel
      (t.topLevel.drop hit.start) = .matched (t.topLevel.drop hit.stop, hit.captures) := by
    rw [matchRun_withLeading, h.matchRun]
  have hlen : (t.topLevel.drop hit.start).length - (t.topLevel.drop hit.stop).length =
      hit.stop - hit.start := by
    have hle := h.stop_le
    simp only [List.length_drop]
    omega
  have htakes := Pattern.takesFirst_of_matchRun hp rfl hrun
  rwa [hlen] at htakes

theorem Hit.Holds.succeedsAt (hp : p.topLevel ≠ []) (h : hit.Holds options p.topLevel t.topLevel) :
    p.SucceedsAt t options hit.start :=
  (Pattern.succeedsAt_iff hp).mpr ⟨h.may_lead, Outcome.isMatch_iff.mpr ⟨_, h.matchRun⟩⟩

/-- A step finds the first place from its own on where the pattern matches, or there is none. -/
theorem Search.Reached.next_cases (hp : p.topLevel ≠ []) (h : Reached p t options s) :
    (s.next.hit = none ∧ s.next.place = t.topLevel.length ∧
      ∀ start, s.place ≤ start → ¬ p.SucceedsAt t options start) ∨
    ∃ hit, s.next.hit = some hit ∧ s.next.place = hit.stop ∧ s.place ≤ hit.start ∧
      hit.Holds options p.topLevel t.topLevel ∧
      ∀ start, s.place ≤ start → start < hit.start → ¬ p.SucceedsAt t options start := by
  obtain ⟨rfl, rfl, hseq⟩ := h.unchanged
  have he : s.pattern.topLevel.isEmpty = false := by simpa using hp
  cases hs : seek s.options s.pattern.topLevel s.place none (s.sequence.drop s.place) with
  | error fault =>
    have hplace : s.next.place = s.sequence.length := by simp [Search.next, he, hs]
    refine .inl ⟨by simp [Search.next, he, hs], by rw [hplace, hseq], fun start hle hsucc => ?_⟩
    obtain ⟨hl, hm⟩ := (Pattern.succeedsAt_iff hp).mp hsucc
    obtain ⟨k, rfl⟩ := Nat.exists_eq_add_of_le hle
    have hlt := lt_of_isMatch_matchRun hp hm
    have hfail := seek_exhausted hs hl (by rw [List.length_drop, hseq]; omega)
    rw [List.drop_drop, hseq, hm] at hfail
    simp at hfail
  | ok hit =>
    have hhit := holds_of_seek hs rfl
    rw [hseq] at hhit
    obtain ⟨hle, hleast⟩ := seek_least hs
    have hlen := hhit.length_le
    have hpos := List.length_pos_of_ne_nil hp
    refine .inr ⟨hit, by simp [Search.next, he, hs], ?_, hle, hhit, fun start hge hlt hsucc => ?_⟩
    · simp only [Search.next, he, hs, Bool.false_eq_true, if_false]
      omega
    · obtain ⟨-, hm⟩ := (Pattern.succeedsAt_iff hp).mp hsucc
      obtain ⟨k, rfl⟩ := Nat.exists_eq_add_of_le hge
      have hfail := hleast k hlt
      rw [List.drop_drop, hseq, hm] at hfail
      simp at hfail

theorem Search.Reached.hit_eq_none (hp : p.topLevel ≠ []) (h : Reached p t options s)
    (hs : s.place = t.topLevel.length) (k : Nat) : (Search.next^[k + 1] s).hit = none := by
  induction k generalizing s with
  | zero =>
    rcases h.next_cases hp with ⟨hnone, -⟩ | ⟨hit, -, -, hle, hhit, -⟩
    · exact hnone
    · have hlt := hhit.start_lt
      omega
  | succ k ih =>
    rw [Function.iterate_succ_apply]
    rcases h.next_cases hp with ⟨-, hplace, -⟩ | ⟨hit, -, -, hle, hhit, -⟩
    · exact ih (.next h) hplace
    · have hlt := hhit.start_lt
      omega

/-- From wherever a search stands, its steps find the hits of the scan from there on. -/
theorem Search.Reached.exists_hits (hp : p.topLevel ≠ []) (h : Reached p t options s) :
    ∃ hits : List Hit, (∀ k, (Search.next^[k + 1] s).hit = hits[k]?) ∧
      p.LeftmostScan t options s.place (hits.map Hit.report) ∧
      (∀ hit ∈ hits, s.place ≤ hit.start ∧ hit.start + p.topLevel.length ≤ hit.stop ∧
        hit.stop ≤ t.topLevel.length) ∧
      hits.Pairwise fun a b => a.stop ≤ b.start := by
  -- Every hit ends behind the place where the search stood before.
  induction hn : t.topLevel.length - s.place using Nat.strongRecOn generalizing s with
  | ind n ih =>
    subst hn
    rcases h.next_cases hp with ⟨hnone, hplace, hfail⟩ | ⟨hit, hhit, hplace, hle, hh, hleast⟩
    · refine ⟨[], fun k => ?_, .done hfail, by simp, .nil⟩
      cases k with
      | zero => exact hnone
      | succ k =>
        rw [Function.iterate_succ_apply, (Reached.next h).hit_eq_none hp hplace]
        rfl
    · have hlen := hh.length_le
      have hpos := List.length_pos_of_ne_nil hp
      have hstop := hh.stop_le
      obtain ⟨hits, hall, hscan, hbounds, hpair⟩ := ih _ (by omega) (.next h) rfl
      have hsplit : hit.stop = hit.start + (hit.stop - hit.start) := by omega
      rw [hplace] at hscan hbounds
      refine ⟨hit :: hits, fun k => ?_, ?_, ?_, ?_⟩
      · cases k with
        | zero => exact hhit
        | succ k => rw [Function.iterate_succ_apply, hall k, List.getElem?_cons_succ]
      · rw [List.map_cons, Hit.report, hsplit]
        rw [hsplit] at hscan
        exact .found hle (hh.succeedsAt hp) hleast (hh.takesFirst hp) hscan
      · refine List.forall_mem_cons.mpr ⟨⟨hle, hlen, hstop⟩, fun other hother => ?_⟩
        obtain ⟨hge, hbound⟩ := hbounds other hother
        exact ⟨by omega, hbound⟩
      · exact List.pairwise_cons.mpr ⟨fun other hother => (hbounds other hother).1, hpair⟩

theorem Search.Reached.restart_eq (h : Reached p t options s) : s.restart = .new p t options := by
  obtain ⟨rfl, rfl, hseq⟩ := h.unchanged
  simp [Search.restart, Search.new, hseq]

theorem Search.Reached.eq_iterate (h : Reached p t options s) :
    ∃ k, s = Search.next^[k] (.new p t options) := by
  induction h with
  | new => exact ⟨0, rfl⟩
  | next _ ih =>
    obtain ⟨k, rfl⟩ := ih
    exact ⟨k + 1, (Function.iterate_succ_apply' _ _ _).symm⟩
  | restart h => exact ⟨0, h.restart_eq⟩

/-- The steps of a search find the hits of the leftmost scan in order and nothing after these, from
its start and after every restart. The hits lie behind each other within the candidate and each has
a node for every part. -/
theorem steps_enumerate_hits (p : Pattern) (t : Tree) (options : Options) (hp : p.topLevel ≠ []) :
    ∃ hits : List Hit,
      (∀ finds, p.LeftmostScan t options 0 finds ↔ finds = hits.map Hit.report) ∧
      (∀ k, (Search.next^[k + 1] (.new p t options)).hit = hits[k]?) ∧
      (∀ s, Search.Reached p t options s → s.restart = .new p t options ∧
        (∃ k, s = Search.next^[k] (.new p t options)) ∧
        (s.next.hit = none → ∀ k, (Search.next^[k + 1] s).hit = none)) ∧
      (∀ hit ∈ hits, hit.start + p.topLevel.length ≤ hit.stop ∧
        hit.stop ≤ t.topLevel.length) ∧
      hits.Pairwise fun a b => a.start < b.start ∧ a.stop < b.stop ∧ a.stop ≤ b.start := by
  have hnew : Search.Reached p t options (.new p t options) := .new
  obtain ⟨hits, hall, hscan, hbounds, hpair⟩ := hnew.exists_hits hp
  have hpos := List.length_pos_of_ne_nil hp
  refine ⟨hits, fun finds => ⟨fun h => h.unique hscan, fun h => h ▸ hscan⟩, hall,
    fun s hs => ⟨hs.restart_eq, hs.eq_iterate, fun hnone k => ?_⟩,
    fun hit hhit => (hbounds hit hhit).2, hpair.imp_of_mem fun {a b} ha hb hab => ?_⟩
  · obtain ⟨j, rfl⟩ := hs.eq_iterate
    have hj : hits[j]? = none := by rw [← hall j, Function.iterate_succ_apply', hnone]
    have hlen := List.getElem?_eq_none_iff.mp hj
    rw [← Function.iterate_add_apply, Nat.add_right_comm, hall, List.getElem?_eq_none (by omega)]
  · have hlen := (hbounds a ha).2.1
    have hlen' := (hbounds b hb).2.1
    exact ⟨by omega, by omega, hab⟩

/-- The pattern `w = 0` in `a = 0 ; b + c = 0`: two hits, and the divider between them starts none. -/
theorem steps_enumerate_hits_divided :
    let p : Pattern := ⟨.literal 0 ⟨"", .sequence, .empty⟩ [.wildcard 1 ⟨"w", .letter, .empty⟩,
      .literal 2 ⟨"=", .operator, .empty⟩ [], .literal 3 ⟨"0", .digit, .empty⟩ []], []⟩
    let t : Tree := .ofExpr (.sequence (["a", "=", "0", ";", "b", "+", "c", "=", "0"].map .leaf))
    p.topLevel ≠ [] ∧ ∃ hits : List Hit,
      hits.map (fun hit => (hit.start, hit.stop)) = [(0, 3), (4, 9)] ∧
      p.LeftmostScan t .lenient 0 (hits.map Hit.report) ∧
      ∀ k, (Search.next^[k + 3] (.new p t .lenient)).hit = none := by
  intro p t
  have hp : p.topLevel ≠ [] := by simp [p, Pattern.topLevel, Head.isAnonymous, Part.head, Part.parts]
  obtain ⟨hits, hscan, hall, -, hbounds, hpair⟩ := steps_enumerate_hits p t .lenient hp
  let range := fun hit : Hit => (hit.start, hit.stop)
  have hfirst : hits[0]?.map range = some (0, 3) := by rw [← hall 0]; rfl
  have hsecond : hits[1]?.map range = some (4, 9) := by rw [← hall 1]; rfl
  have hranges : hits.map range = [(0, 3), (4, 9)] := by
    rcases hits with _ | ⟨a, _ | ⟨b, _ | ⟨c, hits⟩⟩⟩
    · simp at hfirst
    · simp at hsecond
    · simp_all
    · -- Behind the second hit there is no room for a third.
      have hb : b.stop = 9 := congrArg Prod.snd (Option.some.inj hsecond)
      have hbc : b.stop ≤ c.start :=
        ((List.pairwise_cons.mp (List.pairwise_cons.mp hpair).2).1 c List.mem_cons_self).2.2
      have hc : c.start + 3 ≤ c.stop ∧ c.stop ≤ 9 := hbounds c (by simp)
      omega
  have hlen : hits.length = 2 := by simpa using congrArg List.length hranges
  have hends : ∀ k, (Search.next^[k + 3] (.new p t .lenient)).hit = none := by
    intro k
    rw [hall (k + 2), List.getElem?_eq_none (by omega)]
  exact ⟨hp, hits, hranges, (hscan (hits.map Hit.report)).mpr rfl, hends⟩

end FormulaMatch
