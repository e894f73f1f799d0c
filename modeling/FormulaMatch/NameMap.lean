/-! Finite maps from names to values, kept in increasing order of the names. Maps with the same
look-ups are equal, and writing under one name leaves the others alone. -/

namespace FormulaMatch

variable {α β : Type}

abbrev SortedByName (entries : List (String × α)) : Prop :=
  entries.Pairwise fun a b => a.1 < b.1

def insertEntry (name : String) (value : α) : List (String × α) → List (String × α)
  | [] => [(name, value)]
  | (key, old) :: rest =>
    if name < key then (name, value) :: (key, old) :: rest
    else if key < name then (key, old) :: insertEntry name value rest
    else (name, value) :: rest

theorem mem_insertEntry {name : String} {value : α} {entry : String × α}
    {entries : List (String × α)} (h : entry ∈ insertEntry name value entries) :
    entry = (name, value) ∨ entry ∈ entries := by
  induction entries with
  | nil => simpa [insertEntry] using h
  | cons hd tl ih =>
    obtain ⟨key, old⟩ := hd
    rw [insertEntry] at h
    split at h
    · simpa using h
    · split at h
      · rcases List.mem_cons.1 h with h | h
        · exact .inr (h ▸ List.mem_cons_self)
        · exact (ih h).imp id (List.mem_cons_of_mem _)
      · exact (List.mem_cons.1 h).imp id (List.mem_cons_of_mem _)

theorem SortedByName.insertEntry {entries : List (String × α)} (h : SortedByName entries)
    (name : String) (value : α) : SortedByName (insertEntry name value entries) := by
  induction entries with
  | nil => simp [SortedByName, FormulaMatch.insertEntry]
  | cons hd tl ih =>
    obtain ⟨key, old⟩ := hd
    obtain ⟨hhd, htl⟩ := List.pairwise_cons.1 h
    rw [FormulaMatch.insertEntry]
    split
    · rename_i hlt
      refine List.pairwise_cons.2 ⟨fun e he => ?_, h⟩
      rcases List.mem_cons.1 he with rfl | he
      · exact hlt
      · exact String.lt_trans hlt (hhd e he)
    · split
      · rename_i hgt
        refine List.pairwise_cons.2 ⟨fun e he => ?_, ih htl⟩
        rcases mem_insertEntry he with rfl | he
        · exact hgt
        · exact hhd e he
      · rename_i hn hg
        have heq : key = name := String.le_antisymm (String.not_lt.1 hn) (String.not_lt.1 hg)
        exact List.pairwise_cons.2 ⟨heq ▸ hhd, htl⟩

structure NameMap (α : Type) where
  entries : List (String × α)
  sorted : SortedByName entries
  deriving DecidableEq

def NameMap.empty : NameMap α := ⟨[], .nil⟩

instance : Inhabited (NameMap α) := ⟨.empty⟩

def NameMap.insert (m : NameMap α) (name : String) (value : α) : NameMap α :=
  ⟨insertEntry name value m.entries, m.sorted.insertEntry name value⟩

def NameMap.get? (m : NameMap α) (name : String) : Option α := m.entries.lookup name

def NameMap.keys (m : NameMap α) : List String := m.entries.map (·.1)

def NameMap.size (m : NameMap α) : Nat := m.entries.length

def NameMap.isEmpty (m : NameMap α) : Bool := m.entries.isEmpty

theorem NameMap.eq_empty_of_isEmpty {m : NameMap α} (h : m.isEmpty = true) : m = .empty := by
  obtain ⟨entries, sorted⟩ := m
  obtain rfl := List.isEmpty_iff.mp h
  rfl

/-- The pairs written one after the other, so that of two pairs with one name the later stands. -/
def NameMap.ofList (pairs : List (String × α)) : NameMap α :=
  pairs.foldl (fun m pair => m.insert pair.1 pair.2) .empty

theorem insertEntry_eq_append {name : String} (value : α) {entries : List (String × α)}
    (h : ∀ entry ∈ entries, entry.1 < name) :
    insertEntry name value entries = entries ++ [(name, value)] := by
  induction entries with
  | nil => rfl
  | cons entry entries ih =>
    obtain ⟨hfirst, hrest⟩ := List.forall_mem_cons.mp h
    rw [insertEntry, if_neg (String.lt_asymm hfirst), if_pos hfirst, ih hrest, List.cons_append]

theorem NameMap.entries_foldl_insert (pairs : List (String × α)) (m : NameMap α)
    (h : SortedByName (m.entries ++ pairs)) :
    (pairs.foldl (fun m pair => m.insert pair.1 pair.2) m).entries = m.entries ++ pairs := by
  induction pairs generalizing m with
  | nil => simp
  | cons pair pairs ih =>
    have hlast : (m.insert pair.1 pair.2).entries = m.entries ++ [pair] :=
      insertEntry_eq_append pair.2 fun entry he =>
        (List.pairwise_append.mp h).2.2 entry he pair List.mem_cons_self
    rw [List.foldl_cons, ih _ (by rwa [hlast, List.append_assoc]), hlast, List.append_assoc]
    rfl

/-- Pairs that are sorted stand as they are. -/
theorem NameMap.ofList_entries (m : NameMap α) : ofList m.entries = m := by
  have hentries : (ofList m.entries).entries = m.entries :=
    entries_foldl_insert m.entries .empty (by simpa [empty] using m.sorted)
  obtain ⟨entries, sorted⟩ := m
  cases hlist : ofList entries with
  | mk others sorted' =>
    simp only [hlist] at hentries
    subst hentries
    rfl

def NameMap.map (f : α → β) (m : NameMap α) : NameMap β :=
  ⟨m.entries.map fun entry => (entry.1, f entry.2), List.Pairwise.map _ (fun _ _ h => h) m.sorted⟩

@[simp] theorem NameMap.get?_empty (name : String) : (empty : NameMap α).get? name = none := rfl

theorem lookup_insertEntry_self (name : String) (value : α) (entries : List (String × α)) :
    (insertEntry name value entries).lookup name = some value := by
  induction entries with
  | nil => simp [insertEntry]
  | cons hd tl ih =>
    obtain ⟨key, old⟩ := hd
    rw [insertEntry]
    split
    · simp
    · split
      · rename_i hgt
        have hne : (name == key) = false := by
          simpa using fun h : name = key => String.lt_irrefl _ (h ▸ hgt)
        simp [List.lookup_cons, hne, ih]
      · simp

theorem lookup_insertEntry_of_ne {name other : String} (hne : other ≠ name) (value : α)
    (entries : List (String × α)) :
    (insertEntry name value entries).lookup other = entries.lookup other := by
  have hb : (other == name) = false := by simpa using hne
  induction entries with
  | nil => simp [insertEntry, List.lookup_cons, hb]
  | cons hd tl ih =>
    obtain ⟨key, old⟩ := hd
    rw [insertEntry]
    split
    · simp [List.lookup_cons, hb]
    · split
      · simp [List.lookup_cons, ih]
      · rename_i hn hg
        have heq : key = name := String.le_antisymm (String.not_lt.1 hn) (String.not_lt.1 hg)
        simp [List.lookup_cons, hb, heq]

@[simp] theorem NameMap.get?_insert_self (m : NameMap α) (name : String) (value : α) :
    (m.insert name value).get? name = some value :=
  lookup_insertEntry_self name value m.entries

theorem NameMap.get?_insert_of_ne (m : NameMap α) {name other : String} (hne : other ≠ name)
    (value : α) : (m.insert name value).get? other = m.get? other :=
  lookup_insertEntry_of_ne hne value m.entries

theorem NameMap.get?_insert (m : NameMap α) (name other : String) (value : α) :
    (m.insert name value).get? other = if other = name then some value else m.get? other := by
  split
  · subst_vars; exact m.get?_insert_self _ _
  · exact m.get?_insert_of_ne ‹_› _

theorem NameMap.mem_keys_iff {m : NameMap α} {name : String} :
    name ∈ m.keys ↔ (m.get? name).isSome := by
  simp [keys, get?, List.lookup_isSome_iff]

@[simp] theorem NameMap.get?_map (f : α → β) (m : NameMap α) (name : String) :
    (m.map f).get? name = (m.get? name).map f := by
  obtain ⟨entries, sorted⟩ := m
  simp only [get?, map]
  clear sorted
  induction entries with
  | nil => rfl
  | cons hd tl ih =>
    obtain ⟨key, value⟩ := hd
    simp only [List.map_cons, List.lookup_cons]
    cases name == key <;> simp [ih]

theorem lookup_eq_none_of_lt {name : String} {entries : List (String × α)}
    (h : ∀ entry ∈ entries, name < entry.1) : entries.lookup name = none := by
  rw [List.lookup_eq_none_iff]
  intro entry he
  simpa using fun heq : name = entry.1 => String.lt_irrefl _ (heq ▸ h entry he)

theorem SortedByName.eq_of_lookup_eq {entries others : List (String × α)}
    (h : SortedByName entries) (h' : SortedByName others)
    (heq : ∀ name, entries.lookup name = others.lookup name) : entries = others := by
  induction entries generalizing others with
  | nil =>
    cases others with
    | nil => rfl
    | cons hd tl => simpa using (heq hd.1).symm
  | cons hd tl ih =>
    cases others with
    | nil => simpa using heq hd.1
    | cons hd' tl' =>
      obtain ⟨key, value⟩ := hd
      obtain ⟨key', value'⟩ := hd'
      obtain ⟨hhd, htl⟩ := List.pairwise_cons.1 h
      obtain ⟨hhd', htl'⟩ := List.pairwise_cons.1 h'
      have hle : ¬ key < key' := by
        intro hlt
        have hnone : ((key', value') :: tl').lookup key = none :=
          lookup_eq_none_of_lt (List.forall_mem_cons.2
            ⟨hlt, fun e he => String.lt_trans hlt (hhd' e he)⟩)
        simp [← heq key] at hnone
      have hge : ¬ key' < key := by
        intro hlt
        have hnone : ((key, value) :: tl).lookup key' = none :=
          lookup_eq_none_of_lt (List.forall_mem_cons.2
            ⟨hlt, fun e he => String.lt_trans hlt (hhd e he)⟩)
        simp [heq key'] at hnone
      have hkey : key = key' := String.le_antisymm (String.not_lt.1 hge) (String.not_lt.1 hle)
      subst hkey
      have hvalue : value = value' := by simpa using heq key
      subst hvalue
      congr 1
      refine ih htl htl' fun name => ?_
      by_cases hn : name = key
      · rw [hn, lookup_eq_none_of_lt hhd, lookup_eq_none_of_lt hhd']
      · have hb : (name == key) = false := by simpa using hn
        simpa [List.lookup_cons, hb] using heq name

theorem NameMap.ext_get? {m m' : NameMap α} (h : ∀ name, m.get? name = m'.get? name) :
    m = m' := by
  obtain ⟨entries, sorted⟩ := m
  obtain ⟨others, sorted'⟩ := m'
  obtain rfl := sorted.eq_of_lookup_eq sorted' h
  rfl

end FormulaMatch
