import FormulaMatch.Proofs.Nesting

/-! Bars among brackets. A tracker that has never heard of bars, run on the tokens that are not bars,
fails at the same token with the same fault, and it has a bracket open whenever one must be
closed. -/

namespace FormulaMatch

/-- The bars that may both open and close; a bar written with `\left` or `\right` is none of them. -/
def isBar (text : String) : Bool := text == "|" || text == "\\|"

def unbarred (texts : List String) : List String := texts.filter fun text => !isBar text

namespace Bracket

variable {text : String} {b : Bracket}

theorem isBar_of_isSymmetric (h : ofText? text = some b) (hs : b.isSymmetric = true) :
    isBar text = true := by
  have hall : ∀ entry ∈ spellings, entry.2.isSymmetric = true → isBar entry.1 = true := by decide
  exact hall _ (mem_spellings_of_ofText? h) hs

theorem side_of_isBar (h : isBar text = true) : ∃ b, ofText? text = some b ∧ b.side = .symmetric := by
  simp only [isBar, Bool.or_eq_true, beq_iff_eq] at h
  rcases h with rfl | rfl
  · exact ⟨⟨.bar, .symmetric, false⟩, by decide, rfl⟩
  · exact ⟨⟨.doubleBar, .symmetric, false⟩, by decide, rfl⟩

theorem paired?_of_isBar (h : isBar text = true) : paired? text = none := by
  obtain ⟨b, hb, hside⟩ := side_of_isBar h
  simp [paired?_eq hb, isSymmetric, hside]

theorem paired?_of_not_isBar (h : isBar text = false) : paired? text = ofText? text := by
  cases hb : ofText? text with
  | none => simp [paired?, hb]
  | some b =>
    have hs : b.isSymmetric = false := by
      by_contra hs
      simp [isBar_of_isSymmetric hb (by simpa using hs)] at h
    simp [paired?_eq hb, hs]

end Bracket

namespace Pending

/-- A tracker of the brackets that either open or close. A closing bracket has to be of the family and
the sizing of the bracket opened last. -/
def feedPlain (opened : Pending) (text : String) : Outcome Pending :=
  match Bracket.paired? text with
  | none => .matched opened
  | some bracket =>
    if bracket.isOpening then .matched ((bracket, text) :: opened)
    else
      match opened with
      | [] => .malformed (.strayClosing text)
      | (top, spelling) :: rest =>
        if top.family = bracket.family ∧ top.sized = bracket.sized then .matched rest
        else .malformed (.crossedBrackets text spelling)

/-- What waits after tokens that are fed one after the other, up to the first fault. -/
def runAll (step : Pending → String → Outcome Pending) (pending : Pending) :
    List String → Outcome Pending
  | [] => .matched pending
  | text :: texts => (step pending text).bind fun after => after.runAll step texts

/-- Fed one after the other to a fresh tracker, the tokens `before` raise no fault and the next does. -/
def FailsAfter (step : Pending → String → Outcome Pending) (before : List String) (text : String)
    (fault : Fault) : Prop :=
  ∃ pending, runAll step [] before = .matched pending ∧ step pending text = .malformed fault

def ordinary (pending : Pending) : Pending := pending.filter fun entry => !entry.1.isSymmetric

def NoneClosing (pending : Pending) : Prop := ∀ entry ∈ pending, entry.1.side ≠ .closing

variable {step : Pending → String → Outcome Pending} {pending after : Pending} {text : String}
  {texts : List String}

theorem runAll_append (pending : Pending) (texts more : List String) :
    pending.runAll step (texts ++ more) =
      (pending.runAll step texts).bind fun after => after.runAll step more := by
  induction texts generalizing pending with
  | nil => rfl
  | cons text texts ih =>
    rw [List.cons_append, runAll, runAll]
    cases step pending text with
    | matched after => exact ih after
    | unmatched => rfl
    | malformed fault => rfl

theorem runAll_feed (pending : Pending) (texts : List String) :
    pending.runAll feed texts = pending.feedAll texts := by
  induction texts generalizing pending with
  | nil => rfl
  | cons text texts ih => simp only [runAll, feedAll, ih]

theorem mustClose_eq_ordinary (pending : Pending) : pending.mustClose = !pending.ordinary.isEmpty := by
  induction pending with
  | nil => rfl
  | cons entry pending ih =>
    cases h : entry.1.isSymmetric with
    | true => simpa [mustClose, ordinary, h] using ih
    | false => simp [mustClose, ordinary, h]

theorem ordinary_cons_of_isSymmetric {entry : Bracket × String} (h : entry.1.isSymmetric = true)
    (pending : Pending) : ordinary (entry :: pending) = pending.ordinary := by
  simp [ordinary, h]

theorem ordinary_cons {entry : Bracket × String} (h : entry.1.isSymmetric = false)
    (pending : Pending) : ordinary (entry :: pending) = entry :: pending.ordinary := by
  simp [ordinary, h]

theorem ordinary_dropWhile (pending : Pending) :
    ordinary (pending.dropWhile fun entry => entry.1.isSymmetric) = pending.ordinary :=
  filter_not_dropWhile _ pending

theorem NoneClosing.of_feed (h : pending.NoneClosing) (hf : pending.feed text = .matched after) :
    after.NoneClosing := by
  intro entry he
  rcases feed_cases hf with ⟨-, rfl⟩ | ⟨b, -, ⟨hside, rfl⟩ | ⟨top, -, ⟨-, rfl⟩ | ⟨-, hd⟩⟩⟩
  · exact h entry he
  · rcases List.mem_cons.mp he with rfl | he
    · exact hside
    · exact h entry he
  · exact h entry (List.mem_cons_of_mem _ he)
  · have hmem := List.mem_cons_of_mem top he
    rw [← hd] at hmem
    exact h entry ((List.dropWhile_sublist _).subset hmem)

theorem feed_bar (h : isBar text = true) (pending : Pending) :
    ∃ after, pending.feed text = .matched after ∧ after.ordinary = pending.ordinary := by
  obtain ⟨b, hb, hside⟩ := Bracket.side_of_isBar h
  have hsym : b.isSymmetric = true := by simp [Bracket.isSymmetric, hside]
  refine ⟨pending.feedBar b text, by simp [feed, hb, hside], ?_⟩
  cases pending with
  | nil => exact ordinary_cons_of_isSymmetric hsym []
  | cons top pending =>
    by_cases hc : top.1.closedBy b = true
    · have htop : top.1.isSymmetric = true := by
        simp_all [Bracket.closedBy, Bracket.isClosing]
      simp only [feedBar, hc, if_true]
      rw [ordinary_cons_of_isSymmetric htop]
    · simp only [feedBar, hc]
      exact ordinary_cons_of_isSymmetric hsym _

theorem closedBy_iff {top b : Bracket} (htop : top.isSymmetric = false) (hopen : top.side ≠ .closing)
    (hb : b.side = .closing) :
    top.closedBy b = true ↔ top.family = b.family ∧ top.sized = b.sized := by
  have hside : top.side = .opening := by
    cases hs : top.side with
    | opening => rfl
    | closing => exact absurd hs hopen
    | symmetric => simp [Bracket.isSymmetric, hs] at htop
  simp [Bracket.closedBy, Bracket.isOpening, Bracket.isClosing, Bracket.isSymmetric, hside, hb]

theorem feed_ordinary (hp : pending.NoneClosing) (h : isBar text = false) :
    (pending.feed text).map ordinary = pending.ordinary.feedPlain text := by
  unfold feed feedPlain
  rw [Bracket.paired?_of_not_isBar h]
  cases hb : Bracket.ofText? text with
  | none => rfl
  | some b =>
    cases hside : b.side with
    | opening =>
      have hopened : ordinary ((b, text) :: pending) = (b, text) :: pending.ordinary :=
        ordinary_cons (by simp [Bracket.isSymmetric, hside]) pending
      simp [hside, Bracket.isOpening, Outcome.map, hopened]
    | symmetric =>
      have hbar := Bracket.isBar_of_isSymmetric hb (by simp [Bracket.isSymmetric, hside])
      rw [h] at hbar
      cases hbar
    | closing =>
      simp only [hside, Bracket.isOpening, feedClosing]
      rw [← ordinary_dropWhile]
      cases hd : pending.dropWhile fun entry => entry.1.isSymmetric with
      | nil => rfl
      | cons top rest =>
        obtain ⟨top, spelling⟩ := top
        have htop : top.isSymmetric = false := by
          have := List.head?_dropWhile_not (fun entry : Bracket × String => entry.1.isSymmetric) pending
          simpa [hd] using this
        have hmem : (top, spelling) ∈ pending :=
          (List.dropWhile_sublist _).subset (hd ▸ List.mem_cons_self)
        have hiff := closedBy_iff htop (hp _ hmem) hside
        rw [ordinary_cons htop]
        by_cases hc : top.closedBy b = true
        · simp [hc, hiff.mp hc, Outcome.map]
        · simp [hc, mt hiff.mpr hc, Outcome.map]

theorem runAll_ordinary (hp : pending.NoneClosing) (texts : List String) :
    (pending.runAll feed texts).map ordinary =
      pending.ordinary.runAll feedPlain (unbarred texts) := by
  induction texts generalizing pending with
  | nil => rfl
  | cons text texts ih =>
    cases h : isBar text with
    | true =>
      obtain ⟨after, hafter, hordinary⟩ := feed_bar h pending
      have hrest : unbarred (text :: texts) = unbarred texts := by simp [unbarred, h]
      rw [runAll, hafter, Outcome.bind_matched, ih (hp.of_feed hafter), hordinary, hrest]
    | false =>
      have hrest : unbarred (text :: texts) = text :: unbarred texts := by simp [unbarred, h]
      rw [hrest, runAll, runAll, ← feed_ordinary hp h]
      cases hfeed : pending.feed text with
      | matched after => exact ih (hp.of_feed hfeed)
      | unmatched => rfl
      | malformed fault => rfl

theorem NoneClosing.of_runAll (hp : pending.NoneClosing) (h : pending.runAll feed texts = .matched after) :
    after.NoneClosing := by
  induction texts generalizing pending with
  | nil =>
    cases h
    exact hp
  | cons text texts ih =>
    obtain ⟨more, hmore, h⟩ := Outcome.bind_eq_matched_iff.mp h
    exact ih (hp.of_feed hmore) h

theorem noneClosing_nil : NoneClosing [] := by simp [NoneClosing]

theorem failsAfter_feed_iff {before : List String} {fault : Fault} :
    FailsAfter feed before text fault ↔
      isBar text = false ∧ FailsAfter feedPlain (unbarred before) text fault := by
  have hrun := runAll_ordinary noneClosing_nil before
  cases h : isBar text with
  | true =>
    have hnever : ¬ FailsAfter feed before text fault := by
      rintro ⟨pending, -, hfeed⟩
      obtain ⟨after, hafter, -⟩ := feed_bar h pending
      rw [hafter] at hfeed
      cases hfeed
    simp [hnever]
  | false =>
    rw [eq_self, true_and]
    constructor
    · rintro ⟨pending, hpending, hfeed⟩
      refine ⟨pending.ordinary, ?_, ?_⟩
      · rw [hpending] at hrun
        exact hrun.symm
      · rw [← feed_ordinary (noneClosing_nil.of_runAll hpending) h, hfeed]
        rfl
    · rintro ⟨opened, hopened, hfeed⟩
      rw [ordinary, List.filter_nil, hopened, Outcome.map, Outcome.bind_eq_matched_iff] at hrun
      obtain ⟨pending, hpending, he⟩ := hrun
      cases he
      rw [← feed_ordinary (noneClosing_nil.of_runAll hpending) h, Outcome.map,
        Outcome.bind_eq_malformed_iff] at hfeed
      rcases hfeed with hfeed | ⟨_, -, hfeed⟩
      · exact ⟨pending, hpending, hfeed⟩
      · cases hfeed

theorem runAll_feedPlain_of_paired? (opened : Pending) (h : ∀ text ∈ texts, Bracket.paired? text = none) :
    opened.runAll feedPlain texts = .matched opened := by
  induction texts with
  | nil => rfl
  | cons text texts ih =>
    obtain ⟨htext, htexts⟩ := List.forall_mem_cons.mp h
    rw [runAll, feedPlain, htext, Outcome.bind_matched, ih htexts]

/-- The brackets of a well-nested word are all closed after it, and none from before are. -/
theorem runAll_of_wellNested {word : List Bracket} (h : WellNested word) (opened : Pending)
    (hw : texts.filterMap Bracket.paired? = word) : opened.runAll feedPlain texts = .matched opened := by
  induction h generalizing opened texts with
  | nil => exact runAll_feedPlain_of_paired? opened (List.filterMap_eq_nil_iff.mp hw)
  | @pair family sized inner rest _ _ ihinner ihrest =>
    obtain ⟨before, first, tail, rfl, hbefore, hfirst, htail⟩ := List.filterMap_eq_cons_iff.mp hw
    obtain ⟨inside, tail, rfl, hinside, htail⟩ := List.filterMap_eq_append_iff.mp htail
    obtain ⟨between, last, after, rfl, hbetween, hlast, hafter⟩ := List.filterMap_eq_cons_iff.mp htail
    have hopen : opened.feedPlain first = .matched ((⟨family, .opening, sized⟩, first) :: opened) := by
      simp [feedPlain, hfirst, Bracket.isOpening]
    have hclose : feedPlain ((⟨family, .opening, sized⟩, first) :: opened) last = .matched opened := by
      simp [feedPlain, hlast, Bracket.isOpening]
    rw [runAll_append, runAll_feedPlain_of_paired? opened hbefore, Outcome.bind_matched, runAll, hopen,
      Outcome.bind_matched, runAll_append, ihinner _ hinside, Outcome.bind_matched, runAll_append,
      runAll_feedPlain_of_paired? _ hbetween, Outcome.bind_matched, runAll, hclose,
      Outcome.bind_matched, ihrest _ hafter]

theorem filterMap_paired?_unbarred (texts : List String) :
    (unbarred texts).filterMap Bracket.paired? = texts.filterMap Bracket.paired? := by
  rw [unbarred, List.filterMap_filter]
  refine List.filterMap_congr fun text _ => ?_
  cases h : isBar text with
  | true => simp [Bracket.paired?_of_isBar h]
  | false => simp

theorem exists_runAll_iff_wellNested (texts : List String) :
    (∃ pending, runAll feed [] texts = .matched pending ∧ pending.mustClose = false) ↔
      WellNested (texts.filterMap Bracket.paired?) := by
  constructor
  · rintro ⟨pending, hpending, hclose⟩
    rw [runAll_feed] at hpending
    exact closes_of_feedAll hpending hclose
  · intro h
    rw [← filterMap_paired?_unbarred] at h
    have hrun := runAll_ordinary noneClosing_nil texts
    rw [ordinary, List.filter_nil, runAll_of_wellNested h [] rfl, Outcome.map,
      Outcome.bind_eq_matched_iff] at hrun
    obtain ⟨pending, hpending, he⟩ := hrun
    rw [Outcome.matched.injEq] at he
    exact ⟨pending, hpending, by rw [mustClose_eq_ordinary, he]; rfl⟩

theorem map_mustClose_runAll (texts : List String) :
    (runAll feed [] texts).map mustClose =
      (runAll feedPlain [] (unbarred texts)).map fun opened => !opened.isEmpty := by
  have hrun := runAll_ordinary noneClosing_nil texts
  rw [ordinary, List.filter_nil] at hrun
  rw [← hrun]
  cases runAll feed [] texts with
  | matched pending => exact congrArg Outcome.matched (mustClose_eq_ordinary pending)
  | unmatched => rfl
  | malformed fault => rfl

end Pending

/-- A tracker that respects brackets fails exactly where one that knows no bars fails on the tokens
without bars, at the same token and with the same fault, and after any tokens a bracket must be
closed exactly if the other has one open. So the tokens close what they open if their brackets
other than bars form a well-nested word, and bars put in or taken out anywhere change neither. -/
theorem bars_are_soft (options : Options) :
    let step := Pending.track (options.withIgnoredBrackets false)
    (∀ before text fault, Pending.FailsAfter step before text fault ↔
      isBar text = false ∧ Pending.FailsAfter Pending.feedPlain (unbarred before) text fault) ∧
    (∀ texts, (Pending.runAll step [] texts).map Pending.mustClose =
      (Pending.runAll Pending.feedPlain [] (unbarred texts)).map fun opened => !opened.isEmpty) ∧
    (∀ texts, (∃ pending, Pending.runAll step [] texts = .matched pending ∧ pending.mustClose = false) ↔
      WellNested (texts.filterMap Bracket.paired?)) ∧
    ∀ texts texts', unbarred texts = unbarred texts' →
      (Pending.runAll step [] texts).map Pending.mustClose =
        (Pending.runAll step [] texts').map Pending.mustClose := by
  intro step
  have hstep : step = Pending.feed := rfl
  rw [hstep]
  refine ⟨fun _ _ _ => Pending.failsAfter_feed_iff, Pending.map_mustClose_runAll,
    Pending.exists_runAll_iff_wellNested, fun texts texts' h => ?_⟩
  rw [Pending.map_mustClose_runAll, Pending.map_mustClose_runAll, h]

/-- In `| ( \| a ]` the bracket `]` meets the parenthesis, with and without bars, and in
`| ( \| a | ) \|` the parentheses are closed. -/
theorem bars_are_soft_interleaved :
    let step := Pending.track (Options.lenient.withIgnoredBrackets false)
    let fault := Fault.crossedBrackets "]" "("
    let texts := ["|", "(", "\\|", "a", "|", ")", "\\|"]
    Pending.FailsAfter step ["|", "(", "\\|", "a"] "]" fault ∧
    Pending.FailsAfter Pending.feedPlain ["(", "a"] "]" fault ∧
    (∃ pending, Pending.runAll step [] texts = .matched pending ∧ pending.mustClose = false) ∧
    (Pending.runAll step [] texts).map Pending.mustClose =
      (Pending.runAll step [] ["(", "a", ")"]).map Pending.mustClose := by
  intro step fault texts
  have hplain : Pending.FailsAfter Pending.feedPlain ["(", "a"] "]" fault := ⟨_, rfl, rfl⟩
  have hword : WellNested (texts.filterMap Bracket.paired?) := .pair .nil .nil
  obtain ⟨hfails, -, hnested, hsame⟩ := bars_are_soft .lenient
  exact ⟨(hfails ["|", "(", "\\|", "a"] "]" fault).mpr ⟨by decide, hplain⟩, hplain,
    (hnested texts).mpr hword, hsame texts ["(", "a", ")"] (by decide)⟩

end FormulaMatch
