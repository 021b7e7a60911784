/-!
# Dictionaries in the order of their keys

A dictionary lists its entries with strictly increasing keys.  Strings are ordered by their
code points, which is also the order of their UTF-8 bytes.  Because the list is sorted, two
dictionaries with the same value under every key are equal (`Dictionary.ext_get?`).
-/

namespace PhraseScript

/-- Lists of entries with strictly increasing keys. -/
def SortedKeys {α : Type} (entries : List (String × α)) : Prop :=
  entries.Pairwise fun a b => a.1 < b.1

/-- The value under a key. -/
def valueAt? {α : Type} (key : String) : List (String × α) → Option α
  | [] => none
  | (k, v) :: rest => if key = k then some v else valueAt? key rest

/-- Puts a value under a key, replacing the one that is there. -/
def insertEntry {α : Type} (key : String) (value : α) :
    List (String × α) → List (String × α)
  | [] => [(key, value)]
  | (k, v) :: rest =>
    if key < k then (key, value) :: (k, v) :: rest
    else if k < key then (k, v) :: insertEntry key value rest
    else (key, value) :: rest

/-- Takes a key out. -/
def eraseEntry {α : Type} (key : String) (entries : List (String × α)) :
    List (String × α) :=
  entries.filter fun entry => entry.1 ≠ key

section Entries

variable {α : Type} {key k : String} {value : α} {entries : List (String × α)}

theorem eq_of_not_lt_of_not_lt {a b : String} (h : ¬a < b) (h' : ¬b < a) : a = b :=
  String.le_antisymm (String.not_lt.mp h') (String.not_lt.mp h)

theorem mem_insertEntry {entry : String × α} (h : entry ∈ insertEntry key value entries) :
    entry = (key, value) ∨ entry ∈ entries := by
  induction entries with
  | nil => simpa [insertEntry] using h
  | cons head rest ih =>
    simp only [insertEntry] at h
    split at h
    · simpa using h
    · split at h
      · rcases List.mem_cons.mp h with rfl | h
        · simp
        · rcases ih h with h | h
          · exact .inl h
          · exact .inr (List.mem_cons_of_mem _ h)
      · rcases List.mem_cons.mp h with rfl | h
        · simp
        · exact .inr (List.mem_cons_of_mem _ h)

theorem SortedKeys.insertEntry (h : SortedKeys entries) :
    SortedKeys (insertEntry key value entries) := by
  induction entries with
  | nil => simp [PhraseScript.insertEntry, SortedKeys]
  | cons head rest ih =>
    obtain ⟨hhead, hrest⟩ := List.pairwise_cons.mp h
    simp only [PhraseScript.insertEntry]
    split
    · next hlt =>
      refine List.pairwise_cons.mpr ⟨fun entry hentry => ?_, h⟩
      rcases List.mem_cons.mp hentry with rfl | hentry
      · exact hlt
      · exact String.lt_trans hlt (hhead _ hentry)
    · split
      · next hgt =>
        refine List.pairwise_cons.mpr ⟨fun entry hentry => ?_, ih hrest⟩
        rcases mem_insertEntry hentry with rfl | hentry
        · exact hgt
        · exact hhead _ hentry
      · next hlt hgt =>
        have : key = head.1 := eq_of_not_lt_of_not_lt hlt hgt
        exact List.pairwise_cons.mpr ⟨fun entry hentry => this ▸ hhead _ hentry, hrest⟩

theorem SortedKeys.eraseEntry (h : SortedKeys entries) : SortedKeys (eraseEntry key entries) :=
  List.Pairwise.filter _ h

theorem SortedKeys.mapValues {β : Type} (f : α → β) (h : SortedKeys entries) :
    SortedKeys (entries.map fun entry => (entry.1, f entry.2)) := by
  simpa [SortedKeys, List.pairwise_map] using h

theorem valueAt?_insertEntry :
    valueAt? k (insertEntry key value entries) =
      if k = key then some value else valueAt? k entries := by
  induction entries with
  | nil => rfl
  | cons head rest ih =>
    obtain ⟨other, old⟩ := head
    simp only [insertEntry]
    split
    · rfl
    · next hlt =>
      split
      · next hgt =>
        simp only [valueAt?, ih]
        by_cases hk : k = other
        · have : other ≠ key := fun he => String.lt_irrefl _ (he ▸ hgt)
          simp [hk, this]
        · simp [hk]
      · next hgt =>
        have : key = other := eq_of_not_lt_of_not_lt hlt hgt
        by_cases h : k = key <;> simp [valueAt?, ← this, h]

theorem valueAt?_eraseEntry :
    valueAt? k (eraseEntry key entries) = if k = key then none else valueAt? k entries := by
  induction entries with
  | nil => simp [eraseEntry, valueAt?]
  | cons head rest ih =>
    obtain ⟨other, old⟩ := head
    by_cases ho : other = key
    · rw [eraseEntry, List.filter_cons_of_neg (by simp [ho]), ← eraseEntry, ih]
      by_cases h : k = key <;> simp [valueAt?, h, ho]
    · rw [eraseEntry, List.filter_cons_of_pos (by simp [ho]), ← eraseEntry]
      by_cases hk : k = other
      · simp [valueAt?, hk, ho]
      · simp [valueAt?, hk, ih]

theorem valueAt?_eq_none_of_forall_lt (h : ∀ entry ∈ entries, key < entry.1) :
    valueAt? key entries = none := by
  induction entries with
  | nil => rfl
  | cons head rest ih =>
    have hne : key ≠ head.1 := fun he => String.lt_irrefl _ (he ▸ h head (by simp))
    simp [valueAt?, hne, ih fun entry hentry => h entry (List.mem_cons_of_mem _ hentry)]

theorem valueAt?_mapValues {β : Type} (f : α → β) :
    valueAt? k (entries.map fun entry => (entry.1, f entry.2)) = (valueAt? k entries).map f := by
  induction entries with
  | nil => rfl
  | cons head rest ih =>
    obtain ⟨other, old⟩ := head
    by_cases hk : k = other
    · simp [valueAt?, hk]
    · simp [valueAt?, hk, ih]

theorem isSome_valueAt?_iff : (valueAt? k entries).isSome ↔ k ∈ entries.map Prod.fst := by
  induction entries with
  | nil => simp [valueAt?]
  | cons head rest ih =>
    obtain ⟨other, old⟩ := head
    by_cases hk : k = other
    · simp [valueAt?, hk]
    · simp [valueAt?, hk, ih]

/-- A sorted list of entries is determined by what it holds under each key. -/
theorem SortedKeys.ext {other : List (String × α)} (h : SortedKeys entries)
    (h' : SortedKeys other) (heq : ∀ key, valueAt? key entries = valueAt? key other) :
    entries = other := by
  induction entries generalizing other with
  | nil =>
    cases other with
    | nil => rfl
    | cons head rest => simpa [valueAt?] using heq head.1
  | cons head rest ih =>
    obtain ⟨a, v⟩ := head
    obtain ⟨hhead, hrest⟩ := List.pairwise_cons.mp h
    cases other with
    | nil => simpa [valueAt?] using heq a
    | cons head' rest' =>
      obtain ⟨b, w⟩ := head'
      obtain ⟨hhead', hrest'⟩ := List.pairwise_cons.mp h'
      have below {x y : String} {u : α} {l : List (String × α)} (hxy : x < y)
          (hl : ∀ entry ∈ l, y < entry.1) : valueAt? x ((y, u) :: l) = none :=
        valueAt?_eq_none_of_forall_lt fun entry hentry => by
          rcases List.mem_cons.mp hentry with rfl | hentry
          · exact hxy
          · exact String.lt_trans hxy (hl _ hentry)
      have hab : a = b := by
        apply eq_of_not_lt_of_not_lt
        · intro hlt
          simpa [valueAt?] using (heq a).trans (below hlt hhead')
        · intro hlt
          simpa [valueAt?] using (heq b).symm.trans (below hlt hhead)
      subst hab
      have hvw : v = w := by simpa [valueAt?] using heq a
      subst hvw
      have : rest = rest' := by
        refine ih hrest hrest' fun key => ?_
        by_cases hk : key = a
        · subst hk
          rw [valueAt?_eq_none_of_forall_lt hhead, valueAt?_eq_none_of_forall_lt hhead']
        · simpa [valueAt?, hk] using heq key
      rw [this]

end Entries

/-- A finite map from strings, listed in the order of its keys. -/
structure Dictionary (α : Type) where
  entries : List (String × α)
  sorted : SortedKeys entries

namespace Dictionary

variable {α : Type}

/-- No entries. -/
def empty : Dictionary α := ⟨[], List.Pairwise.nil⟩

instance : EmptyCollection (Dictionary α) := ⟨empty⟩

instance : Inhabited (Dictionary α) := ⟨empty⟩

/-- The value under a key. -/
def get? (d : Dictionary α) (key : String) : Option α := valueAt? key d.entries

/-- There is a value under the key. -/
def contains (d : Dictionary α) (key : String) : Bool := (d.get? key).isSome

/-- Puts a value under a key, replacing the one that is there. -/
def insert (d : Dictionary α) (key : String) (value : α) : Dictionary α :=
  ⟨insertEntry key value d.entries, d.sorted.insertEntry⟩

/-- Takes a key out. -/
def erase (d : Dictionary α) (key : String) : Dictionary α :=
  ⟨eraseEntry key d.entries, d.sorted.eraseEntry⟩

/-- The dictionary of some entries; of several with one key the last counts. -/
def ofList (entries : List (String × α)) : Dictionary α :=
  entries.foldl (fun d entry => d.insert entry.1 entry.2) empty

/-- The keys, increasing. -/
def keys (d : Dictionary α) : List String := d.entries.map Prod.fst

/-- Applies a function to every value. -/
def map {β : Type} (f : α → β) (d : Dictionary α) : Dictionary β :=
  ⟨d.entries.map fun entry => (entry.1, f entry.2), d.sorted.mapValues f⟩

/-- Two dictionaries with the same value under every key are equal. -/
theorem ext_get? {d e : Dictionary α} (h : ∀ key, d.get? key = e.get? key) : d = e := by
  obtain ⟨entries, sorted⟩ := d
  obtain ⟨entries', sorted'⟩ := e
  have : entries = entries' := sorted.ext sorted' h
  subst this
  rfl

@[simp] theorem get?_empty (key : String) : (∅ : Dictionary α).get? key = none := rfl

theorem get?_insert (d : Dictionary α) (key k : String) (value : α) :
    (d.insert key value).get? k = if k = key then some value else d.get? k :=
  valueAt?_insertEntry

theorem get?_erase (d : Dictionary α) (key k : String) :
    (d.erase key).get? k = if k = key then none else d.get? k :=
  valueAt?_eraseEntry

theorem get?_map {β : Type} (f : α → β) (d : Dictionary α) (k : String) :
    (d.map f).get? k = (d.get? k).map f :=
  valueAt?_mapValues f

@[simp] theorem contains_empty (k : String) : (∅ : Dictionary α).contains k = false := rfl

theorem contains_insert (d : Dictionary α) (key k : String) (value : α) :
    (d.insert key value).contains k = (decide (k = key) || d.contains k) := by
  rw [contains, get?_insert]
  by_cases h : k = key <;> simp [h, contains]

theorem contains_erase (d : Dictionary α) (key k : String) :
    (d.erase key).contains k = (decide (k ≠ key) && d.contains k) := by
  rw [contains, get?_erase]
  by_cases h : k = key <;> simp [h, contains]

theorem contains_iff_mem_keys (d : Dictionary α) (k : String) :
    d.contains k = true ↔ k ∈ d.keys :=
  isSome_valueAt?_iff

/-- The keys are strictly increasing. -/
theorem keys_sorted (d : Dictionary α) : d.keys.Pairwise (· < ·) :=
  List.pairwise_map.mpr d.sorted

end Dictionary

end PhraseScript
