import FormulaMatch.Proofs.Hits

/-! Filling in a pattern. With the captured run put in the place of every wildcard, the parts have the
shape of the nodes that were matched, up to trailing children where these are allowed. -/

namespace FormulaMatch

open Captures (Entry)

namespace Part

variable {ι : Type}

mutual

/-- The formulas that a part stands for when every wildcard is replaced by the run of its name. The
label of a literal is `mark` of whether it has parts. -/
def fill (mark : Bool → ι) (runs : String → List (Formula ι)) : Part → List (Formula ι)
  | .literal _ h ps => [.node (mark (!ps.isEmpty)) h (fillAll mark runs ps)]
  | .wildcard _ h => runs h.text

def fillAll (mark : Bool → ι) (runs : String → List (Formula ι)) : List Part → List (Formula ι)
  | [] => []
  | p :: ps => fill mark runs p ++ fillAll mark runs ps

end

theorem fillAll_literal (mark : Bool → ι) (runs : String → List (Formula ι)) (i : Nat) (h : Head)
    (ps rest : List Part) : fillAll mark runs (.literal i h ps :: rest) =
      .node (mark (!ps.isEmpty)) h (fillAll mark runs ps) :: fillAll mark runs rest := by
  simp [fillAll, fill]

theorem fillAll_wildcard (mark : Bool → ι) (runs : String → List (Formula ι)) (i : Nat) (h : Head)
    (rest : List Part) :
    fillAll mark runs (.wildcard i h :: rest) = runs h.text ++ fillAll mark runs rest := by
  simp [fillAll, fill]

end Part

namespace Formula

variable {ι κ : Type}

mutual

/-- Whether two formulas have the same shape, where a node that is labelled `true` on the left may
have more children on the right, after those that it has on the left. -/
def begins : Formula Bool → Formula κ → Bool
  | .node more h cs, .node _ k ds => h.text == k.text && beginAll more cs ds

def beginAll (more : Bool) : List (Formula Bool) → List (Formula κ) → Bool
  | [], [] => true
  | [], _ :: _ => more
  | _ :: _, [] => false
  | c :: cs, d :: ds => begins c d && beginAll more cs ds

end

theorem beginAll_append {more : Bool} {fs gs : List (Formula Bool)} {ns ms : List (Formula κ)}
    (h : beginAll false fs ns = true) (h' : beginAll more gs ms = true) :
    beginAll more (fs ++ gs) (ns ++ ms) = true := by
  induction fs generalizing ns with
  | nil => cases ns <;> simp_all [beginAll]
  | cons f fs ih =>
    cases ns with
    | nil => simp [beginAll] at h
    | cons n ns =>
      simp only [beginAll, Bool.and_eq_true] at h
      simp [beginAll, h.1, ih h.2]

theorem beginAll_extra {fs : List (Formula Bool)} {ns : List (Formula κ)}
    (h : beginAll false fs ns = true) (extra : List (Formula κ)) :
    beginAll true fs (ns ++ extra) = true := by
  have hnil : beginAll true [] extra = true := by cases extra <;> rfl
  simpa using beginAll_append h hnil

theorem beginAll_relabel_of_forall {fs : List (Formula ι)} {ns : List (Formula κ)}
    (hf : ∀ f ∈ fs, ∀ n : Formula κ, f.bare = n.bare → (f.relabel fun _ => false).begins n = true)
    (h : fs.map bare = ns.map bare) :
    beginAll false (fs.map (relabel fun _ => false)) ns = true := by
  induction fs generalizing ns with
  | nil => cases ns <;> simp_all [beginAll]
  | cons f fs ih =>
    cases ns with
    | nil => simp at h
    | cons n ns =>
      obtain ⟨hn, hns⟩ := List.cons.inj h
      simp [beginAll, hf f (by simp) n hn, ih (fun g hg => hf g (by simp [hg])) hns]

theorem begins_relabel {f : Formula ι} {n : Formula κ} (h : f.bare = n.bare) :
    (f.relabel fun _ => false).begins n = true := by
  induction f using induction generalizing n with
  | node i hd cs ih =>
    obtain ⟨j, k, ds⟩ := n
    simp only [bare_node, node.injEq, Head.mk.injEq] at h
    obtain ⟨-, ⟨htext, -⟩, hcs⟩ := h
    have hall := beginAll_relabel_of_forall (fun c hc _ => ih c hc) hcs
    simp [relabel, relabels_eq_map, begins, htext, hall]

theorem beginAll_relabel {fs : List (Formula ι)} {ns : List (Formula κ)}
    (h : fs.map bare = ns.map bare) :
    beginAll false (fs.map (relabel fun _ => false)) ns = true :=
  beginAll_relabel_of_forall (fun _ _ _ => begins_relabel) h

@[simp] theorem bare_relabel (f : ι → κ) (g : Formula ι) : (g.relabel f).bare = g.bare := by
  induction g using induction with
  | node i h cs ih => simpa [relabel, relabels_eq_map] using ih

end Formula

/-- The run that stands under a name, without labels; no node of it may be continued. -/
def Captures.closed (C : Captures) (name : String) : List (Formula Bool) :=
  ((C.get? name).getD []).map (Formula.relabel fun _ => false)

variable {options : Options} {ps : List Part} {queue beyond : List Node} {C D E : Captures}
  {taken : List Entry}

theorem closed_spec {name : String} {run : List Node}
    (h : C.shape? name = some (run.map Formula.bare)) :
    (C.closed name).map Formula.bare = run.map Formula.bare ∧
      Formula.beginAll false (C.closed name) run = true := by
  obtain ⟨other, ho, hs⟩ := Option.map_eq_some_iff.mp h
  simp only [Captures.closed, ho, Option.getD_some]
  exact ⟨by simpa [Function.comp_def] using hs, Formula.beginAll_relabel hs⟩

/-- The parts, filled in from captures that hold the outcome, have the shape of what they used up. -/
theorem Takes.fill_used (h : Takes options ps queue C taken beyond D) (hE : D.HeldBy E) :
    ∃ used, queue = used ++ beyond ∧
      Formula.beginAll false (Part.fillAll id E.closed ps) used = true ∧
      (options.following = false →
        Formula.sameShapes (Part.fillAll id E.closed ps) used = true) := by
  simp only [Formula.sameShapes_iff]
  induction h with
  | nil => exact ⟨[], rfl, rfl, fun _ => rfl⟩
  | @leaf i hd _ n _ _ _ _ _ text leaf _ ih =>
    obtain ⟨used, rfl, hbegin, hsame⟩ := ih hE
    have hcs : n.children = [] := by simpa [Formula.isLeaf] using leaf
    obtain ⟨j, k, cs⟩ := n
    simp only [Formula.children, Formula.text, Formula.head] at hcs text
    subst hcs
    refine ⟨_ :: used, rfl, ?_, fun hf => ?_⟩ <;> rw [Part.fillAll_literal]
    · simp [Formula.beginAll, Formula.begins, Part.fillAll, text, hbegin]
    · simp [Part.fillAll, text, hsame hf]
  | @branch i hd ps _ n _ _ _ extra _ _ _ _ text parts _ extra_ok tail ihc ih =>
    obtain ⟨used, rfl, hbegin, hsame⟩ := ih hE
    obtain ⟨inner, hinner, hbegin', hsame'⟩ := ihc (tail.heldBy.trans hE)
    obtain ⟨j, k, cs⟩ := n
    simp only [Formula.children, Formula.text, Formula.head] at hinner text
    subst hinner
    refine ⟨_ :: used, rfl, ?_, fun hf => ?_⟩ <;> rw [Part.fillAll_literal]
    · have hmark : (!ps.isEmpty) = true := by simpa using parts
      simp [Formula.beginAll, Formula.begins, text, hmark, hbegin, Formula.beginAll_extra hbegin']
    · have hextra : extra = [] := extra_ok.resolve_left (by simp [hf])
      simp [text, hsame hf, hsame' hf, hextra]
  | last assigned =>
    obtain ⟨hsame, hbegin⟩ := closed_spec (hE.shape? (Captures.shape?_of_assign assigned))
    refine ⟨_, (List.append_nil _).symm, ?_, fun _ => ?_⟩ <;>
      rw [Part.fillAll_wildcard, Part.fillAll, List.append_nil]
    · exact hbegin
    · exact hsame
  | @stop _ _ _ _ n before _ _ _ _ _ _ _ _ _ _ _ _ _ _ _ assigned tail _ ih =>
    obtain ⟨used, hused, hbegin, hsame⟩ := ih hE
    obtain ⟨hsame', hbegin'⟩ :=
      closed_spec ((tail.heldBy.trans hE).shape? (Captures.shape?_of_assign assigned))
    refine ⟨(n :: before) ++ used, by simp [hused], ?_, fun hf => ?_⟩ <;>
      rw [Part.fillAll_wildcard]
    · exact Formula.beginAll_append hbegin' hbegin
    · rw [List.map_append, List.map_append, hsame', hsame hf]

/-- The pattern, filled in with the captures, describes the nodes of the candidate from place `start`
to place `stop`. -/
structure Pattern.Describes (p : Pattern) (t : Tree) (options : Options) (start stop : Nat)
    (C : Captures) : Prop where
  start_le : start ≤ stop
  stop_le : stop ≤ t.topLevel.length
  leading : options.leading = false → start = 0
  following : options.following = false → stop = t.topLevel.length
  captured : ∀ name ∈ Part.names p.topLevel, (C.get? name).isSome = true
  same_shape : options.following = false →
    Formula.sameShapes (Part.fillAll id C.closed p.topLevel)
      ((t.topLevel.drop start).take (stop - start)) = true
  begins : Formula.beginAll false (Part.fillAll id C.closed p.topLevel)
    ((t.topLevel.drop start).take (stop - start)) = true

theorem Hit.Holds.describes {p : Pattern} {t : Tree} {hit : Hit}
    (h : hit.Holds options p.topLevel t.topLevel) :
    p.Describes t options hit.start hit.stop hit.captures := by
  obtain ⟨taken, ht⟩ := takes_of_matchParts h.run
  obtain ⟨used, hused, hbegin, hsame⟩ := ht.fill_used (.refl _)
  have hslice := h.take_drop hused
  refine ⟨h.start_le, h.stop_le, h.leading, h.following, fun name hn => ?_, ?_, ?_⟩
  · obtain ⟨run, hrun⟩ := ht.exists_entry hn
    have hs := ht.shape? _ hrun
    exact Option.isSome_iff_exists.mpr ((Option.map_eq_some_iff.mp hs).imp fun _ => And.left)
  · rwa [hslice]
  · rwa [hslice]

/-- Whenever a search has found a run, after any steps and restarts, and whenever a candidate is
matched as a whole, the pattern filled in with what was captured has the shape of the run. This
holds of every pattern, whatever has been cut off from it. -/
theorem captures_describe_run (p : Pattern) (t : Tree) (options : Options) :
    (∀ s hit, Search.Reached p t options s → s.hit = some hit →
      p.Describes t options hit.start hit.stop hit.captures) ∧
    (∀ C, p.matchWhole t options = .matched C →
      ∃ start stop, p.Describes t options start stop C) := by
  constructor
  · intro s hit hs hh
    exact (hs.holds hh).2.describes
  · intro C hC
    by_cases hp : p.topLevel = []
    · obtain ⟨ht, rfl⟩ := matchWhole_of_topLevel_eq_nil hp hC
      refine ⟨0, 0, ⟨Nat.le_refl 0, Nat.zero_le _, fun _ => rfl, fun _ => by simp [ht], ?_, ?_, ?_⟩⟩
      all_goals simp [hp, ht, Part.fillAll, Formula.beginAll]
    · obtain ⟨hit, h, rfl⟩ := holds_of_matchWhole hp hC
      exact ⟨hit.start, hit.stop, h.describes⟩

/-- The pattern `w f(w x)` in `a b f(a b x y) c`, where tokens may lead and follow. -/
theorem captures_describe_run_repeated :
    let p : Pattern := ⟨.literal 0 ⟨"", .sequence, .empty⟩ [.wildcard 1 ⟨"w", .letter, .empty⟩,
      .literal 2 ⟨"f", .function, .empty⟩
        [.wildcard 3 ⟨"w", .letter, .empty⟩, .literal 4 ⟨"x", .letter, .empty⟩ []]], []⟩
    let t : Tree := .ofExpr (.sequence [.leaf "a", .leaf "b",
      .application "f" [.leaf "a", .leaf "b", .leaf "x", .leaf "y"], .leaf "c"])
    (∃ hit, (Search.new p t .lenient).next.hit = some hit ∧ hit.start = 0 ∧ hit.stop = 3 ∧
      p.Describes t .lenient hit.start hit.stop hit.captures) ∧
    ∃ C start stop, p.matchWhole t .lenient = .matched C ∧
      p.Describes t .lenient start stop C := by
  intro p t
  constructor
  · exact ⟨_, rfl, rfl, rfl, (captures_describe_run p t .lenient).1 _ _ (.next .new) rfl⟩
  · obtain ⟨start, stop, h⟩ := (captures_describe_run p t .lenient).2 _ rfl
    exact ⟨_, start, stop, rfl, h⟩

end FormulaMatch
