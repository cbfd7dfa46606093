/-!
# Maps sorted by text

Finite maps from strings, kept as lists of entries with strictly increasing
keys.  Strings are ordered by code point, which is the order of their UTF-8
bytes.  The sorting is part of the type, so two maps with the same look-ups are
equal (`SortedMap.ext_get?`), and every operation is described by its look-ups.
-/

namespace WriteBehind

/-- A finite map from strings, its entries in increasing order of their keys. -/
structure SortedMap (β : Type) where
  entries : List (String × β)
  sorted : entries.Pairwise (fun a b => a.1 < b.1)

namespace SortedMap

variable {β γ : Type}

/-- The first value of a key in a list of entries. -/
def find? (key : String) : List (String × β) → Option β
  | [] => none
  | (k, v) :: rest => if k = key then some v else find? key rest

/-- Entries with one entry put at its place, an entry of the same key replaced. -/
def insertEntry (key : String) (value : β) : List (String × β) → List (String × β)
  | [] => [(key, value)]
  | (k, v) :: rest =>
    if key < k then (key, value) :: (k, v) :: rest
    else if key = k then (key, value) :: rest
    else (k, v) :: insertEntry key value rest

theorem mem_insertEntry {key : String} {value : β} {e : String × β}
    {l : List (String × β)} (h : e ∈ insertEntry key value l) :
    e = (key, value) ∨ e ∈ l := by
  induction l with
  | nil => simpa [insertEntry] using h
  | cons a rest ih =>
    obtain ⟨k, v⟩ := a
    rw [insertEntry] at h
    split at h
    · simpa using h
    · split at h
      · simp only [List.mem_cons] at h ⊢
        exact h.imp_right .inr
      · simp only [List.mem_cons] at h ⊢
        rcases h with h | h
        · exact .inr (.inl h)
        · exact (ih h).imp_right .inr

theorem sorted_insertEntry (key : String) (value : β) {l : List (String × β)}
    (h : l.Pairwise (fun a b => a.1 < b.1)) :
    (insertEntry key value l).Pairwise (fun a b => a.1 < b.1) := by
  induction l with
  | nil => simp [insertEntry]
  | cons a rest ih =>
    obtain ⟨k, v⟩ := a
    have hrest := List.pairwise_cons.mp h
    rw [insertEntry]
    split
    next hlt =>
      refine List.pairwise_cons.mpr ⟨fun e he => ?_, h⟩
      rcases List.mem_cons.mp he with rfl | he
      · exact hlt
      · exact String.lt_trans hlt (hrest.1 e he)
    next hge =>
      split
      next heq =>
        subst heq
        exact List.pairwise_cons.mpr ⟨fun e he => hrest.1 e he, hrest.2⟩
      next hne =>
        refine List.pairwise_cons.mpr ⟨fun e he => ?_, ih hrest.2⟩
        rcases mem_insertEntry he with rfl | he
        · exact String.not_le.mp fun hle =>
            hne (String.le_antisymm hle (String.not_lt.mp hge))
        · exact hrest.1 e he

/-- The map without entries. -/
def empty : SortedMap β := ⟨[], .nil⟩

instance : Inhabited (SortedMap β) := ⟨empty⟩

/-- The value of a key. -/
def get? (m : SortedMap β) (key : String) : Option β := find? key m.entries

/-- Whether a key has a value. -/
def contains (m : SortedMap β) (key : String) : Bool := (m.get? key).isSome

/-- A map with the value of one key set. -/
def insert (m : SortedMap β) (key : String) (value : β) : SortedMap β :=
  ⟨insertEntry key value m.entries, sorted_insertEntry key value m.sorted⟩

/-- A map without one key. -/
def erase (m : SortedMap β) (key : String) : SortedMap β :=
  ⟨m.entries.filter (fun e => e.1 ≠ key), m.sorted.filter _⟩

/-- The map of a list of entries; of two entries with one key the later counts. -/
def ofList (l : List (String × β)) : SortedMap β :=
  l.foldl (fun m e => m.insert e.1 e.2) empty

/-- A map with the entries of a second one put over its own. -/
def overlay (m : SortedMap β) (other : SortedMap β) : SortedMap β :=
  other.entries.foldl (fun m e => m.insert e.1 e.2) m

/-- The keys in increasing order. -/
def keys (m : SortedMap β) : List String := m.entries.map (·.1)

/-- The values in the order of their keys. -/
def values (m : SortedMap β) : List β := m.entries.map (·.2)

/-- The number of entries. -/
def size (m : SortedMap β) : Nat := m.entries.length

/-- Whether a map has no entry. -/
def isEmpty (m : SortedMap β) : Bool := m.entries.isEmpty

/-- The map with every value changed by a function. -/
def map (f : β → γ) (m : SortedMap β) : SortedMap γ :=
  ⟨m.entries.map (fun e => (e.1, f e.2)), List.pairwise_map.mpr m.sorted⟩

/-- The entries whose key and value pass a test. -/
def filter (p : String → β → Bool) (m : SortedMap β) : SortedMap β :=
  ⟨m.entries.filter (fun e => p e.1 e.2), m.sorted.filter _⟩

/-! ## Look-ups -/

@[simp] theorem find?_insertEntry (key k : String) (value : β) (l : List (String × β)) :
    find? k (insertEntry key value l) = if key = k then some value else find? k l := by
  induction l with
  | nil => simp [insertEntry, find?]
  | cons a rest ih =>
    obtain ⟨k', v⟩ := a
    rw [insertEntry]
    split
    · simp [find?]
    · split
      next heq => subst heq; by_cases h : key = k <;> simp [find?, h]
      next hne =>
        by_cases h : k' = k
        · subst h; simp [find?, hne]
        · simp [find?, h, ih]

theorem find?_append (k : String) (l r : List (String × β)) :
    find? k (l ++ r) = (find? k l).or (find? k r) := by
  induction l with
  | nil => rfl
  | cons a rest ih => by_cases h : a.1 = k <;> simp [find?, h, ih]

theorem find?_filter_ne (key k : String) (l : List (String × β)) :
    find? k (l.filter (fun e => e.1 ≠ key)) = if key = k then none else find? k l := by
  induction l with
  | nil => simp [find?]
  | cons a rest ih =>
    obtain ⟨k', v⟩ := a
    by_cases h : k' = key
    · subst h
      by_cases hk : k' = k <;> simp_all [find?]
    · by_cases hk : k' = k
      · subst hk
        simp [find?, h, Ne.symm h]
      · simp_all [find?]

theorem find?_map (f : β → γ) (key : String) (l : List (String × β)) :
    find? key (l.map fun e => (e.1, f e.2)) = (find? key l).map f := by
  induction l with
  | nil => rfl
  | cons a rest ih => by_cases h : a.1 = key <;> simp [find?, h, ih]

@[simp] theorem get?_map (f : β → γ) (m : SortedMap β) (k : String) :
    (m.map f).get? k = (m.get? k).map f :=
  find?_map f k m.entries

@[simp] theorem get?_empty (k : String) : (empty : SortedMap β).get? k = none := rfl

@[simp] theorem get?_insert (m : SortedMap β) (key k : String) (value : β) :
    (m.insert key value).get? k = if key = k then some value else m.get? k :=
  find?_insertEntry key k value m.entries

@[simp] theorem get?_erase (m : SortedMap β) (key k : String) :
    (m.erase key).get? k = if key = k then none else m.get? k :=
  find?_filter_ne key k m.entries

theorem find?_eq_none_of_lt {key : String} {l : List (String × β)}
    (h : ∀ e ∈ l, key < e.1) : find? key l = none := by
  induction l with
  | nil => rfl
  | cons a rest ih =>
    obtain ⟨k, v⟩ := a
    have hk : k ≠ key := fun e => String.lt_irrefl key (e ▸ h (k, v) (by simp))
    simp only [find?, hk, ↓reduceIte]
    exact ih fun e he => h e (by simp [he])

theorem find?_eq_some_iff {l : List (String × β)} (h : l.Pairwise (fun a b => a.1 < b.1))
    {key : String} {value : β} : find? key l = some value ↔ (key, value) ∈ l := by
  induction l with
  | nil => simp [find?]
  | cons a rest ih =>
    obtain ⟨k, v⟩ := a
    have hrest := List.pairwise_cons.mp h
    by_cases hk : k = key
    · subst hk
      have hnot : (k, value) ∉ rest := fun hm => String.lt_irrefl k (hrest.1 _ hm)
      simp [find?, hnot, eq_comm]
    · simp [find?, hk, ih hrest.2, Ne.symm hk]

/-- Entries put in one after the other: of two entries with one key the later counts. -/
theorem get?_foldl_insert (l : List (String × β)) (m : SortedMap β) (k : String) :
    (l.foldl (fun m e => m.insert e.1 e.2) m).get? k = (find? k l.reverse).or (m.get? k) := by
  induction l generalizing m with
  | nil => rfl
  | cons a rest ih =>
    rw [List.foldl_cons, ih, get?_insert, List.reverse_cons, find?_append]
    cases find? k rest.reverse with
    | some v => rfl
    | none => by_cases h : a.1 = k <;> simp [find?, h]

theorem get?_ofList (l : List (String × β)) (k : String) :
    (ofList l).get? k = find? k l.reverse := by
  rw [ofList, get?_foldl_insert, get?_empty, Option.or_none]

theorem find?_eq_none_iff {key : String} {l : List (String × β)} :
    find? key l = none ↔ ∀ e ∈ l, e.1 ≠ key := by
  induction l with
  | nil => simp [find?]
  | cons a rest ih => by_cases h : a.1 = key <;> simp [find?, h, ih]

theorem mem_of_find? {key : String} {value : β} {l : List (String × β)}
    (h : find? key l = some value) : (key, value) ∈ l := by
  induction l with
  | nil => simp [find?] at h
  | cons a rest ih =>
    obtain ⟨k, v⟩ := a
    by_cases hk : k = key
    · simp only [find?, hk, ↓reduceIte, Option.some.injEq] at h
      simp [hk, h]
    · simp only [find?, hk, ↓reduceIte] at h
      exact List.mem_cons_of_mem _ (ih h)

theorem get?_eq_some_iff {m : SortedMap β} {key : String} {value : β} :
    m.get? key = some value ↔ (key, value) ∈ m.entries :=
  find?_eq_some_iff m.sorted

/-- Maps with the same look-ups are equal. -/
theorem ext_get? {m n : SortedMap β} (h : ∀ k, m.get? k = n.get? k) : m = n := by
  obtain ⟨l, hl⟩ := m
  obtain ⟨r, hr⟩ := n
  simp only [get?] at h
  congr
  induction l generalizing r with
  | nil =>
    cases r with
    | nil => rfl
    | cons b r => simpa [find?] using h b.1
  | cons a l ih =>
    obtain ⟨k, v⟩ := a
    have hl' := List.pairwise_cons.mp hl
    cases r with
    | nil => simpa [find?] using h k
    | cons b r =>
      obtain ⟨k', v'⟩ := b
      have hr' := List.pairwise_cons.mp hr
      have hkey : k = k' := by
        by_cases hkk : k = k'
        · exact hkk
        · have hk := h k
          have hk' := h k'
          simp only [find?, hkk, Ne.symm hkk, ↓reduceIte] at hk hk'
          have h1 := hr'.1 _ ((find?_eq_some_iff hr'.2).mp hk.symm)
          have h2 := hl'.1 _ ((find?_eq_some_iff hl'.2).mp hk')
          exact absurd h2 (String.lt_asymm h1)
      subst hkey
      have hval : v = v' := by simpa [find?] using h k
      subst hval
      congr 1
      refine ih hl'.2 r hr'.2 fun q => ?_
      have hq := h q
      by_cases hkq : k = q
      · subst hkq
        rw [find?_eq_none_of_lt hl'.1, find?_eq_none_of_lt hr'.1]
      · simpa [find?, hkq] using hq

@[simp] theorem ofList_entries (m : SortedMap β) : ofList m.entries = m := by
  refine ext_get? fun k => ?_
  rw [get?_ofList]
  cases h : find? k m.entries.reverse with
  | none =>
    have hnone : find? k m.entries = none :=
      find?_eq_none_iff.mpr fun e he => find?_eq_none_iff.mp h e (List.mem_reverse.mpr he)
    exact hnone.symm
  | some v =>
    have hmem : (k, v) ∈ m.entries := List.mem_reverse.mp (mem_of_find? h)
    exact (get?_eq_some_iff.mpr hmem).symm

@[simp] theorem get?_overlay (m other : SortedMap β) (k : String) :
    (m.overlay other).get? k = (other.get? k).or (m.get? k) := by
  rw [overlay, get?_foldl_insert, ← get?_ofList, ofList_entries]

@[simp] theorem empty_overlay (m : SortedMap β) : (empty : SortedMap β).overlay m = m := by
  refine ext_get? fun k => ?_
  rw [get?_overlay, get?_empty, Option.or_none]

theorem overlay_assoc (m n o : SortedMap β) :
    (m.overlay n).overlay o = m.overlay (n.overlay o) := by
  refine ext_get? fun k => ?_
  rw [get?_overlay, get?_overlay, get?_overlay, get?_overlay, Option.or_assoc]

end SortedMap

end WriteBehind
