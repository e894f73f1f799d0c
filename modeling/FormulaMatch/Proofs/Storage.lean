import FormulaMatch.Proofs.Members

/-! Expressions and what is stored of them. An expression is stored without empty arrays and objects, as
deep as it nests, and is read back if that is within the depth that is read. Whatever is read, however
it was spelt, is within that depth when it is stored. -/

namespace FormulaMatch

namespace Json

theorem depth_ofTexts (texts : NameMap String) : (ofTexts texts).depth = 1 := by
  have hmembers : membersDepth
      (texts.entries.map fun entry => (JsonString.ofText entry.1, ofText entry.2)) ≤ 0 := by
    rw [membersDepth_le_iff, List.forall_mem_map]
    intro entry _
    exact Nat.le_of_eq (depth_ofText entry.2)
  rw [ofTexts, depth, Nat.le_zero.mp hmembers]

theorem filled_ofTexts {texts : NameMap String} (h : texts.isEmpty = false) : (ofTexts texts).Filled := by
  obtain ⟨entries, sorted⟩ := texts
  cases entries with
  | nil => cases h
  | cons entry entries =>
    apply Filled.object
    · refine List.forall_mem_cons.mpr ⟨JsonString.isText_ofText _, List.forall_mem_map.mpr ?_⟩
      exact fun entry _ => JsonString.isText_ofText entry.1
    · refine List.forall_mem_cons.mpr ⟨.text _, List.forall_mem_map.mpr ?_⟩
      exact fun entry _ => .text entry.2

end Json

theorem exists_of_forall₂ {α β : Type} {R : α → β → Prop} {as : List α} {bs : List β}
    (h : List.Forall₂ R as bs) : ∀ b ∈ bs, ∃ a, R a b := by
  induction h with
  | nil => simp
  | cons hab _ ih => exact List.forall_mem_cons.mpr ⟨⟨_, hab⟩, ih⟩

namespace Expr

open Json

theorem nodup_fields (lib : JsonLibrary) (expr : Codec Expr) : ((fields lib expr).map Field.name).Nodup := by
  change ["text", "tag", "features", "children"].Nodup
  decide

theorem nodup_tagNames : (Tag.all.map Tag.name).Nodup := by
  decide

section Fields

variable {lib : JsonLibrary} {expr : Codec Expr} (hlib : lib.Standard)
  (hexpr : expr.Derives (fields lib expr))

include hlib hexpr

theorem encode_node (i : Unit) (h : Head) (cs : List Expr) : expr.encode (.node i h cs) =
    .object (
      (JsonString.ofText "text", Json.ofText h.text) ::
      (JsonString.ofText "tag", Json.ofText h.tag.name) ::
      ((if h.features.isEmpty then [] else [(JsonString.ofText "features", Json.ofTexts h.features)]) ++
        (if cs.isEmpty then [] else [(JsonString.ofText "children", .array (cs.map expr.encode))]))) := by
  rw [hexpr.encode]
  cases hf : h.features.isEmpty <;> cases hc : cs.isEmpty <;>
    simp [fields, Field.members, Field.stored?, Formula.text, Formula.tag, Formula.features, Formula.children,
      Formula.head, hf, hc, hlib.encode_text, hlib.encode_variants, hlib.encode_texts, hlib.encode_list]

theorem depth_encode_le_iff {i : Unit} {h : Head} {cs : List Expr} {n : Nat} :
    (expr.encode (.node i h cs)).depth ≤ n + 1 ↔
      (h.features.isEmpty = false → 0 < n) ∧
        (cs.isEmpty = false → itemsDepth (cs.map expr.encode) < n) := by
  rw [encode_node hlib hexpr, depth, Nat.add_le_add_iff_right, membersDepth_le_iff]
  cases h.features.isEmpty <;> cases cs.isEmpty <;>
    simp [depth_ofTexts, depth] <;> omega

theorem filled_encode (e : Expr) : (expr.encode e).Filled := by
  induction e using Formula.induction with
  | node i h cs ih =>
    have hfeatures := @filled_ofTexts h.features
    have hchildren : cs.isEmpty = false → (Json.array (cs.map expr.encode)).Filled := by
      cases cs with
      | nil => nofun
      | cons c cs => exact fun _ => .array _ _ (List.forall_mem_map.mpr ih)
    rw [encode_node hlib hexpr]
    apply Filled.object
    · cases h.features.isEmpty <;> cases cs.isEmpty <;> simp
    · cases hf : h.features.isEmpty <;> cases hc : cs.isEmpty <;>
        simp_all [Filled.text]

theorem decode_encode {e : Expr} {levels : Nat} (hdepth : (expr.encode e).depth ≤ levels) :
    expr.decode levels (expr.encode e) = some e := by
  induction e using Formula.induction generalizing levels with
  | node i h cs ih =>
    cases levels with
    | zero => simp [encode_node hlib hexpr, depth] at hdepth
    | succ n =>
      obtain ⟨hfeatures, hchildren⟩ := (depth_encode_le_iff hlib hexpr).mp hdepth
      have hkept : h.features.isEmpty = false → lib.texts.decode n (lib.texts.encode h.features) =
          some h.features := by
        intro hempty
        obtain ⟨m, rfl⟩ := Nat.exists_eq_add_one.mpr (hfeatures hempty)
        rw [hlib.encode_texts, hlib.decode_texts]
      have hgrown : cs.isEmpty = false → (lib.list expr).decode n ((lib.list expr).encode cs) = some cs := by
        intro hempty
        have hlt := hchildren hempty
        obtain ⟨m, rfl⟩ := Nat.exists_eq_add_one.mpr (Nat.zero_lt_of_lt hlt)
        have hall := itemsDepth_le_iff.mp (Nat.le_of_lt_succ hlt)
        rw [hlib.encode_list, hlib.decode_list]
        refine ⟨m, cs.map expr.encode, rfl, rfl, ?_⟩
        rw [List.forall₂_map_left_iff, List.forall₂_same]
        exact fun c hc => ih c hc (hall _ (List.mem_map_of_mem hc))
      refine hexpr.decode_encode (nodup_fields lib expr) ?_
      refine List.forall_mem_cons.mpr ⟨?text, List.forall_mem_cons.mpr ⟨?tag, List.forall_mem_cons.mpr
        ⟨?features, List.forall_mem_singleton.mpr ?children⟩⟩⟩
      case text =>
        refine Field.agrees_stored? (fun _ => ?_) fun homitted => absurd homitted Bool.false_ne_true
        rw [hlib.encode_text, hlib.decode_text]
      case tag =>
        refine Field.agrees_stored? (fun _ => ?_) fun homitted => absurd homitted Bool.false_ne_true
        rw [hlib.encode_variants]
        exact hlib.decode_variants _ _ nodup_tagNames n _ (Tag.mem_all _)
      case features =>
        exact Field.agrees_stored? hkept fun hempty => congrArg some (NameMap.eq_empty_of_isEmpty hempty).symm
      case children =>
        exact Field.agrees_stored? hgrown fun hempty => congrArg some (List.isEmpty_iff.mp hempty).symm

/-- Whatever is read is within the depth that is read when it is stored. -/
theorem depth_le_of_decode {e : Expr} {levels : Nat} {v : Json} (h : expr.decode levels v = some e) :
    (expr.encode e).depth ≤ levels := by
  induction e using Formula.induction generalizing levels v with
  | node i hd cs ih =>
    obtain ⟨n, rfl, hfields⟩ := hexpr.levels levels v _ h
    simp only [fields, List.forall_mem_cons] at hfields
    obtain ⟨-, -, ⟨features, hfeatures⟩, ⟨children, hchildren⟩, -⟩ := hfields
    refine (depth_encode_le_iff hlib hexpr).mpr ⟨fun hempty => ?_, fun hempty => ?_⟩
    · cases features with
      | some w => exact hlib.texts_levels n w _ hfeatures
      | none =>
        have hnone : NameMap.empty = hd.features := Option.some.inj hfeatures
        rw [← hnone] at hempty
        cases hempty
    · cases children with
      | some w =>
        obtain ⟨m, vs, rfl, rfl, hvs⟩ := (hlib.decode_list expr n w _).mp hchildren
        refine Nat.lt_succ_of_le (itemsDepth_le_iff.mpr (List.forall_mem_map.mpr fun c hc => ?_))
        obtain ⟨v, hv⟩ := exists_of_forall₂ hvs c hc
        exact ih c hc hv
      | none =>
        have hnone : [] = cs := Option.some.inj hchildren
        rw [← hnone] at hempty
        cases hempty

theorem fromText_toText (e : Expr) :
    lib.fromText expr (lib.toText expr e) = expr.decode lib.levels (expr.encode e) := by
  rw [JsonLibrary.fromText, JsonLibrary.toText, hlib.parse_print _ (filled_encode hlib hexpr e).textual,
    Option.bind_some]

end Fields

/-- An expression is stored without empty arrays and objects, and its text is read back as the same
expression exactly if it nests no deeper than is read. What any text is read as does not, so it is read back
from the text that it is stored as. -/
theorem stored_reads_back {lib : JsonLibrary} {expr : Codec Expr} (hlib : lib.Standard)
    (hexpr : expr.Derives (fields lib expr)) :
    (∀ e : Expr, (expr.encode e).Filled ∧
      (lib.fromText expr (lib.toText expr e) = some e ↔ (expr.encode e).depth ≤ lib.levels)) ∧
    ∀ (text : String) (e : Expr), lib.fromText expr text = some e →
      lib.fromText expr (lib.toText expr e) = some e := by
  constructor
  · intro e
    refine ⟨filled_encode hlib hexpr e, ?_⟩
    rw [fromText_toText hlib hexpr]
    exact ⟨depth_le_of_decode hlib hexpr, decode_encode hlib hexpr⟩
  · intro text e h
    obtain ⟨v, _, hv⟩ := Option.bind_eq_some_iff.mp h
    rw [fromText_toText hlib hexpr]
    exact decode_encode hlib hexpr (depth_le_of_decode hlib hexpr hv)

theorem stored_reads_back_spelt_otherwise :
    Json.library.Standard ∧ codec.Derives (fields Json.library codec) ∧
    ∃ e : Expr, Json.library.fromText codec ("[\"\\u0022\\ud83d\\ude00\\u0007\", \x7b\"letter\": null\x7d," ++
        "\x7b\"k\": \"1\", \"k\": \"\\n\"\x7d, [[\"\", \"digit\"]]]") = some e ∧
      Json.library.fromText codec (Json.library.toText codec e) = some e ∧
      Json.library.toText codec e =
        "\x7b\"text\":\"\\\"😀\\u0007\",\"tag\":\"letter\",\"features\":\x7b\"k\":\"\\n\"\x7d," ++
        "\"children\":[\x7b\"text\":\"\",\"tag\":\"digit\"\x7d]\x7d" := by
  refine ⟨Json.library_standard, codec_derives,
    (Expr.make "\"😀\x07" .letter [Expr.make "" .digit []]).withFeature "k" "\n", ?read,
    (stored_reads_back Json.library_standard codec_derives).2 _ _ ?read, ?written⟩ <;> decide +kernel

end Expr

end FormulaMatch
