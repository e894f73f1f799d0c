import FormulaMatch.Formula.Stored
import FormulaMatch.Proofs.Printing
import FormulaMatch.Proofs.Records

/-! The JSON of this project parses what it prints, and keeps what it stores. Expressions are stored by their
fields there: each member that is found gives its field, and nothing is read for a field but with one
level less than for the expression. -/

namespace FormulaMatch

namespace Json

theorem find?_eq_some_of_nodup {α : Type} {all : List α} {name : α → String}
    (h : (all.map name).Nodup) {x : α}
    (hx : x ∈ all) : (all.find? fun y => name y == name x) = some x := by
  induction all with
  | nil => cases hx
  | cons y all ih =>
    obtain ⟨hy, hall⟩ := List.nodup_cons.mp h
    rcases List.mem_cons.mp hx with rfl | hx
    · simp
    · have hne : (name y == name x) = false :=
        beq_eq_false_iff_ne.mpr fun heq => hy (heq ▸ List.mem_map_of_mem hx)
      rw [List.find?_cons, hne]
      exact ih hall hx

theorem mapM_eq_some_iff {α β : Type} {f : α → Option β} {as : List α} {bs : List β} :
    as.mapM f = some bs ↔ List.Forall₂ (fun a b => f a = some b) as bs := by
  induction as generalizing bs with
  | nil => simp [eq_comm]
  | cons a as ih =>
    rw [List.forall₂_cons_left_iff, List.mapM_cons]
    simp only [Option.bind_eq_bind, Option.bind_eq_some_iff, ih, Option.pure_def, Option.some.injEq]
    simp only [@eq_comm _ _ bs, exists_and_left]

theorem texts?_ofTexts (n : Nat) (texts : NameMap String) : texts? (n + 1) (ofTexts texts) = some texts := by
  have hpairs : (texts.entries.map fun entry => (JsonString.ofText entry.1, ofText entry.2)).mapM textPair? =
      some texts.entries := by
    rw [mapM_eq_some_iff, List.forall₂_map_left_iff, List.forall₂_same]
    intro entry _
    simp [textPair?]
  rw [ofTexts, texts?, if_neg n.succ_ne_zero, hpairs, Option.map_some, NameMap.ofList_entries]

theorem pos_of_texts? {n : Nat} {v : Json} {texts : NameMap String} (h : texts? n v = some texts) :
    0 < n := by
  cases v with
  | object members =>
    rw [texts?] at h
    split at h
    · cases h
    · omega
  | null | bool | number | string | array => cases h

theorem items?_eq_some_iff {α : Type} {read : Nat → Json → Option α} {n : Nat} {v : Json} {xs : List α} :
    items? read n v = some xs ↔
      ∃ m vs, n = m + 1 ∧ v = .array vs ∧ List.Forall₂ (fun v x => read m v = some x) vs xs := by
  constructor
  · intro h
    cases v with
    | array vs =>
      cases n with
      | zero => cases h
      | succ m => exact ⟨m, vs, rfl, rfl, mapM_eq_some_iff.mp h⟩
    | null | bool | number | string | object => cases h
  · rintro ⟨m, vs, rfl, rfl, h⟩
    exact mapM_eq_some_iff.mpr h

theorem library_standard : library.Standard where
  parse_print v h := by
    change read (String.ofList v.written).toList = some v
    rw [String.toList_ofList, h.read_written]
  encode_text _ := rfl
  decode_text _ text := text?_ofText text
  encode_variants _ _ _ := rfl
  decode_variants all name h n x hx := by
    change (ofText (name x)).text?.bind _ = some x
    rw [text?_ofText]
    exact find?_eq_some_of_nodup h hx
  encode_texts _ := rfl
  decode_texts := texts?_ofTexts
  texts_levels _ _ _ := pos_of_texts?
  encode_list _ _ := rfl
  decode_list _ _ _ _ := items?_eq_some_iff

end Json

namespace Formula

open Json

variable {n : Nat} {stored : StoredMembers} {v : Json}

theorem toJsons_eq_map (cs : List Expr) : toJsons cs = cs.map toJson := by
  induction cs with
  | nil => rfl
  | cons c cs ih => rw [toJsons, ih, List.map_cons]

theorem readChildren_eq_mapM (n : Nat) (vs : List Json) : readChildren n vs = vs.mapM (ofJson? n) := by
  induction vs with
  | nil => rfl
  | cons v vs ih =>
    rw [readChildren, List.mapM_cons, ← ih]
    cases ofJson? n v with
    | none => rfl
    | some e => cases readChildren n vs <;> rfl

theorem readMembers_cons (n : Nat) (stored : StoredMembers) (name : String) (value : Json)
    (members : List (JsonString × Json)) :
    readMembers n stored ((JsonString.ofText name, value) :: members) =
      (readMember n stored name value).bind fun stored => readMembers n stored members := by
  rw [readMembers, JsonString.text?_ofText]
  dsimp only
  cases readMember n stored name value <;> rfl

theorem readMember_text {text : String} (hnone : stored.text = none) (h : v.text? = some text) :
    readMember n stored "text" v = some { stored with text := some text } := by
  cases v with
  | string units => simp [readMember, hnone, h]
  | null | bool | number | array | object => cases h

theorem readMember_tag {tag : Tag} (hnone : stored.tag = none) (h : Tag.ofJson? n v = some tag) :
    readMember n stored "tag" v = some { stored with tag := some tag } := by
  cases v with
  | string units | object members => simp [readMember, hnone, h]
  | null | bool | number | array => cases h

theorem readMember_features {features : NameMap String} (hnone : stored.features = none)
    (h : texts? n v = some features) :
    readMember n stored "features" v = some { stored with features := some features } := by
  cases v with
  | object members => simp [readMember, hnone, h]
  | null | bool | number | string | array => cases h

theorem readMember_children {cs : List Expr} (hnone : stored.children = none)
    (h : items? ofJson? n v = some cs) :
    readMember n stored "children" v = some { stored with children := some cs } := by
  obtain ⟨m, vs, rfl, rfl, hvs⟩ := items?_eq_some_iff.mp h
  have hcs := mapM_eq_some_iff.mpr hvs
  simp [readMember, hnone, readChildren_eq_mapM, hcs]

/-- Each member that has been read was read from a value with at most `n` levels. -/
structure ReadAt (n : Nat) (stored : StoredMembers) : Prop where
  text : ∀ text ∈ stored.text, ∃ v : Json, v.text? = some text
  tag : ∀ tag ∈ stored.tag, ∃ v, Tag.ofJson? n v = some tag
  features : ∀ features ∈ stored.features, ∃ v, texts? n v = some features
  children : ∀ cs ∈ stored.children, ∃ v, items? ofJson? n v = some cs

theorem ReadAt.readMember {name : String} {after : StoredMembers} (h : ReadAt n stored)
    (hread : readMember n stored name v = some after) : ReadAt n after := by
  revert hread
  fun_cases Formula.readMember n stored name v <;> intro hread
  case case1 values hname =>
    obtain ⟨cs, hcs, rfl⟩ := Option.map_eq_some_iff.mp hread
    have hn : n ≠ 0 := by
      simpa using (Bool.and_eq_true_iff.mp hname).2
    refine ⟨h.text, h.tag, h.features, ?_⟩
    rintro _ ⟨⟩
    rw [readChildren_eq_mapM] at hcs
    exact ⟨.array values, (if_neg hn).trans hcs⟩
  case case5 =>
    obtain ⟨text, htext, rfl⟩ := Option.map_eq_some_iff.mp hread
    refine ⟨?_, h.tag, h.features, h.children⟩
    rintro _ ⟨⟩
    exact ⟨v, htext⟩
  case case7 =>
    obtain ⟨tag, htag, rfl⟩ := Option.map_eq_some_iff.mp hread
    refine ⟨h.text, ?_, h.features, h.children⟩
    rintro _ ⟨⟩
    exact ⟨v, htag⟩
  case case9 =>
    obtain ⟨features, hfeatures, rfl⟩ := Option.map_eq_some_iff.mp hread
    refine ⟨h.text, h.tag, ?_, h.children⟩
    rintro _ ⟨⟩
    exact ⟨v, hfeatures⟩
  case case3 | case11 =>
    cases hread
    exact h
  -- What is repeated or of another kind ends the reading.
  case case2 | case4 | case6 | case8 | case10 => cases hread

theorem ReadAt.readMembers {members : List (JsonString × Json)} {after : StoredMembers} (h : ReadAt n stored)
    (hread : readMembers n stored members = some after) : ReadAt n after := by
  induction members generalizing stored with
  | nil =>
    cases hread
    exact h
  | cons member members ih =>
    rw [Formula.readMembers] at hread
    split at hread
    · split at hread
      · rename_i hmember
        exact ih (h.readMember hmember) hread
      · cases hread
    · cases hread

theorem ReadAt.readPlaces {names : List String} {values : List Json} {after : StoredMembers}
    (h : ReadAt n stored) (hread : readPlaces n stored names values = some after) : ReadAt n after := by
  induction values generalizing stored names with
  | nil =>
    cases hread
    exact h
  | cons value values ih =>
    cases names with
    | nil => cases hread
    | cons name names =>
      rw [Formula.readPlaces] at hread
      split at hread
      · rename_i hmember
        exact ih (h.readMember hmember) hread
      · cases hread

theorem ReadAt.agrees {e : Expr} (h : ReadAt n stored) (he : stored.expr? = some e) :
    ∀ f ∈ Expr.fields library Expr.codec, ∃ found, f.Agrees n e found := by
  obtain ⟨text, htext, tag, htag, he⟩ := by simpa [StoredMembers.expr?, Option.bind_eq_some_iff] using he
  subst he
  obtain ⟨v, hv⟩ := h.text text htext
  obtain ⟨w, hw⟩ := h.tag tag htag
  simp only [Expr.fields, List.forall_mem_cons]
  refine ⟨⟨some v, hv⟩, ⟨some w, hw⟩, ?_, ?_, List.forall_mem_nil _⟩
  · cases hfeatures : stored.features with
    | none => exact ⟨none, rfl⟩
    | some features =>
      obtain ⟨u, hu⟩ := h.features features hfeatures
      exact ⟨some u, hu⟩
  · cases hchildren : stored.children with
    | none => exact ⟨none, rfl⟩
    | some cs =>
      obtain ⟨u, hu⟩ := h.children cs hchildren
      exact ⟨some u, hu⟩

/-- An expression is one level, so its members are read with one level less. -/
theorem exists_agrees_of_ofJson? {e : Expr} (h : ofJson? n v = some e) :
    ∃ m, n = m + 1 ∧ ∀ f ∈ Expr.fields library Expr.codec, ∃ found, f.Agrees m e found := by
  have hnothing : ReadAt (n - 1) {} := ⟨nofun, nofun, nofun, nofun⟩
  have hlevel : n ≠ 0 → n = n - 1 + 1 := fun hn => (Nat.succ_pred_eq_of_ne_zero hn).symm
  cases v with
  | object members =>
    rw [ofJson?] at h
    split at h
    · cases h
    · rename_i hn
      obtain ⟨stored, hread, hexpr⟩ := Option.bind_eq_some_iff.mp h
      exact ⟨n - 1, hlevel hn, (hnothing.readMembers hread).agrees hexpr⟩
  | array values =>
    rw [ofJson?] at h
    split at h
    · cases h
    · rename_i hn
      obtain ⟨stored, hread, hexpr⟩ := Option.bind_eq_some_iff.mp h
      exact ⟨n - 1, hlevel hn, (hnothing.readPlaces hread).agrees hexpr⟩
  | null | bool | number | string => cases h

/-- A member that may be missing is set to what is read if it is found. -/
theorem readMembers_found {α : Type} (set : Option α → StoredMembers) (x : α) {name : String}
    {found : Option Json} (hread : ∀ v ∈ found, readMember n (set none) name v = some (set (some x)))
    (members : List (JsonString × Json)) :
    readMembers n (set none) ((found.map fun v => (JsonString.ofText name, v)).toList ++ members) =
      readMembers n (set (found.map fun _ => x)) members := by
  cases found with
  | none => rfl
  | some v =>
    rw [Option.map_some, Option.toList_some, List.singleton_append, readMembers_cons, hread v rfl,
      Option.bind_some]
    rfl

/-- Members with whose values the fields agree set what they are found for, each once. -/
theorem readMembers_of_agrees {n : Nat} {hd : Head} {cs : List Expr} {text tag features children : Option Json}
    (htext : ∀ v ∈ text, v.text? = some hd.text) (htag : ∀ v ∈ tag, Tag.ofJson? n v = some hd.tag)
    (hfeatures : ∀ v ∈ features, Json.texts? n v = some hd.features)
    (hchildren : ∀ v ∈ children, Json.items? ofJson? n v = some cs) :
    readMembers n {}
        ((text.map fun v => (JsonString.ofText "text", v)).toList ++
          ((tag.map fun v => (JsonString.ofText "tag", v)).toList ++
            ((features.map fun v => (JsonString.ofText "features", v)).toList ++
              ((children.map fun v => (JsonString.ofText "children", v)).toList ++ [])))) =
      some { text := text.map fun _ => hd.text, tag := tag.map fun _ => hd.tag,
             features := features.map fun _ => hd.features, children := children.map fun _ => cs } := by
  rw [readMembers_found (fun text => { text }) hd.text fun v hv => readMember_text rfl (htext v hv),
    readMembers_found (fun tag => { text := _, tag }) hd.tag fun v hv => readMember_tag rfl (htag v hv),
    readMembers_found (fun features => { text := _, tag := _, features }) hd.features
      fun v hv => readMember_features rfl (hfeatures v hv),
    readMembers_found (fun children => { text := _, tag := _, features := _, children }) cs
      fun v hv => readMember_children rfl (hchildren v hv)]
  rfl

end Formula

theorem StoredMembers.expr?_eq {stored : StoredMembers} {i : Unit} {hd : Head} {cs : List Expr}
    (htext : stored.text = some hd.text) (htag : stored.tag = some hd.tag)
    (hfeatures : stored.features.getD .empty = hd.features) (hchildren : stored.children.getD [] = cs) :
    stored.expr? = some (.node i hd cs) := by
  simp [expr?, htext, htag, hfeatures, hchildren]

namespace Expr

open Formula

theorem toJson_eq_members (x : Expr) :
    toJson x = .object (Field.members (fields Json.library codec) fun f => f.stored? x) := by
  cases x with
  | node i h cs =>
    have hcs : toJsons cs = cs.map codec.encode := toJsons_eq_map cs
    rw [toJson, hcs]
    cases hf : h.features.isEmpty <;> cases hc : cs.isEmpty <;>
      simp [fields, Field.members, Field.stored?, Formula.text, Formula.tag, features, children, head, hf, hc]

theorem ofJson?_members {n : Nat} {x : Expr} {found : Field Expr → Option Json}
    (h : ∀ f ∈ fields Json.library codec, f.Agrees n x (found f)) :
    ofJson? (n + 1) (.object (Field.members (fields Json.library codec) found)) = some x := by
  cases x with
  | node i hd cs =>
    simp only [fields, List.forall_mem_cons] at h
    obtain ⟨htext, htag, hfeatures, hchildren, -⟩ := h
    rw [ofJson?, if_neg n.succ_ne_zero, Nat.succ_sub_one]
    simp only [fields, Field.members_cons]
    have hread := readMembers_of_agrees htext.decode_of_mem htag.decode_of_mem hfeatures.decode_of_mem
      hchildren.decode_of_mem
    refine (congrArg (Option.bind · StoredMembers.expr?) hread).trans (StoredMembers.expr?_eq ?_ ?_ ?_ ?_)
    · exact Option.or_none.symm.trans htext.map_or
    · exact Option.or_none.symm.trans htag.map_or
    · exact Option.some.inj (Option.or_some.symm.trans hfeatures.map_or)
    · exact Option.some.inj (Option.or_some.symm.trans hchildren.map_or)

theorem codec_derives : codec.Derives (fields Json.library codec) where
  encode := toJson_eq_members
  decode _ _ _ _ := ofJson?_members
  levels _ _ _ := exists_agrees_of_ofJson?

end Expr

end FormulaMatch
