import PhraseScript.Proofs.JsonTexts

/-!
# Reading back values

What is read off the text of a value is the value itself (`Json.value?_written`), as long as its
objects list their members by increasing key and its numbers read back.  A number reads back when
its own text does (`Json.Number.ReadsBack`); integers of at most 64 bits do, and of the reals
those for which the stepwise rounding of the reader undoes what the writer does.

A value is read where few enough arrays and objects are open around it, which is a condition on
its depth (`Json.within?_written`).
-/

namespace PhraseScript

/-! ### Sorted entries -/

section Entries

variable {α : Type} {key : String} {value : α} {entries : List (String × α)}

lemma insertEntry_of_forall_lt (h : ∀ entry ∈ entries, entry.1 < key) :
    insertEntry key value entries = entries ++ [(key, value)] := by
  induction entries with
  | nil => rfl
  | cons head rest ih =>
    have hhead : head.1 < key := h head (by simp)
    rw [insertEntry, if_neg (String.lt_asymm hhead), if_pos hhead,
      ih fun entry hentry => h entry (by simp [hentry]), List.cons_append]

/-- Entries that are sorted already are put in one after the other. -/
lemma SortedKeys.foldl_insertEntry (sorted : List (String × α))
    (h : SortedKeys (sorted ++ entries)) :
    entries.foldl (fun sorted entry => PhraseScript.insertEntry entry.1 entry.2 sorted) sorted =
      sorted ++ entries := by
  induction entries generalizing sorted with
  | nil => simp
  | cons head rest ih =>
    have hhead : ∀ entry ∈ sorted, entry.1 < head.1 := fun entry hentry =>
      (List.pairwise_append.mp h).2.2 entry hentry head (by simp)
    have hrest : SortedKeys ((sorted ++ [(head.1, head.2)]) ++ rest) := by simpa using h
    rw [List.foldl_cons, insertEntry_of_forall_lt hhead, ih _ hrest, List.append_assoc]
    rfl

lemma Dictionary.entries_ofList (entries : List (String × α)) :
    (ofList entries).entries =
      entries.foldl (fun sorted entry => insertEntry entry.1 entry.2 sorted) [] := by
  have hgo : ∀ d : Dictionary α,
      (entries.foldl (fun d entry => d.insert entry.1 entry.2) d).entries =
        entries.foldl (fun sorted entry => insertEntry entry.1 entry.2 sorted) d.entries := by
    induction entries with
    | nil => exact fun _ => rfl
    | cons head rest ih => exact fun d => ih _
  exact hgo ∅

/-- A dictionary is made of its entries. -/
lemma Dictionary.ofList_entries (d : Dictionary α) : ofList d.entries = d := by
  have hentries : (ofList d.entries).entries = d.entries := by
    rw [entries_ofList, SortedKeys.foldl_insertEntry [] d.sorted, List.nil_append]
  cases d
  cases h : ofList _
  simp_all

end Entries

namespace Json

/-! ### What is in a value -/

mutual

/-- The numbers in a value. -/
def numbers : Json → List Number
  | .number value => [value]
  | .array items => itemNumbers items
  | .object members => memberNumbers members
  | _ => []

/-- The numbers in items. -/
def itemNumbers : List Json → List Number
  | [] => []
  | item :: rest => numbers item ++ itemNumbers rest

/-- The numbers in members. -/
def memberNumbers : List (String × Json) → List Number
  | [] => []
  | (_, value) :: rest => numbers value ++ memberNumbers rest

end

mutual

/-- Every object in a value lists its members by increasing key. -/
def IsOrdered : Json → Prop
  | .array items => ItemsOrdered items
  | .object members => SortedKeys members ∧ MembersOrdered members
  | _ => True

/-- Every object in items lists its members by increasing key. -/
def ItemsOrdered : List Json → Prop
  | [] => True
  | item :: rest => IsOrdered item ∧ ItemsOrdered rest

/-- Every object in the values of members lists its members by increasing key. -/
def MembersOrdered : List (String × Json) → Prop
  | [] => True
  | (_, value) :: rest => IsOrdered value ∧ MembersOrdered rest

end

mutual

/-- How many arrays and objects are open at the deepest point of a value. -/
def depth : Json → Nat
  | .array items => itemsDepth items + 1
  | .object members => membersDepth members + 1
  | _ => 0

/-- The greatest depth among items. -/
def itemsDepth : List Json → Nat
  | [] => 0
  | item :: rest => max (depth item) (itemsDepth rest)

/-- The greatest depth among the values of members. -/
def membersDepth : List (String × Json) → Nat
  | [] => 0
  | (_, value) :: rest => max (depth value) (membersDepth rest)

end

mutual

lemma depth_written : (value : Json) → value.written.depth = value.depth
  | .null | .bool _ | .number _ | .string _ => rfl
  | .array items => by rw [written, Written.depth, depth, itemsDepth_written items]
  | .object members => by rw [written, Written.depth, depth, membersDepth_written members]

lemma itemsDepth_written : (items : List Json) →
    Written.itemsDepth (writtenItems items) = itemsDepth items
  | [] => rfl
  | item :: rest => by
    rw [writtenItems, Written.itemsDepth, itemsDepth, depth_written item, itemsDepth_written rest]

lemma membersDepth_written : (members : List (String × Json)) →
    Written.membersDepth (writtenMembers members) = membersDepth members
  | [] => rfl
  | (key, value) :: rest => by
    rw [writtenMembers, Written.membersDepth, membersDepth, depth_written value,
      membersDepth_written rest]

end

/-! ### Reading back -/

/-- A number is read off its own text. -/
def Number.ReadsBack (n : Number) : Prop := Json.read? n.text = some (.number n)

lemma Number.readsBack_iff {n : Number} : n.ReadsBack ↔ ofLiteral? n.literal = some n := by
  have hread : Json.read? n.text = (ofLiteral? n.literal).map .number := by
    rw [Json.read?, show n.text = (Json.number n).compact by rw [compact], read?_compact_written]
    rfl
  rw [ReadsBack, hread]
  cases ofLiteral? n.literal <;> simp

lemma Number.readsBack_integer {value : Int} (hlower : -(2 ^ 63) ≤ value)
    (hupper : value < 2 ^ 64) : (integer value).ReadsBack :=
  readsBack_iff.mpr (ofLiteral?_integer hlower hupper)

mutual

/-- The value of what is written is the value that was written. -/
theorem value?_written : (value : Json) → value.IsOrdered → (∀ n ∈ value.numbers, n.ReadsBack) →
    value.written.value? = some value
  | .null, _, _ | .bool _, _, _ | .string _, _, _ => rfl
  | .number n, _, hnumbers => by
    rw [written, Written.value?, Number.readsBack_iff.mp (hnumbers n (by simp [numbers]))]
    rfl
  | .array items, hordered, hnumbers => by
    rw [written, Written.value?, itemValues?_written items hordered hnumbers]
    rfl
  | .object members, ⟨hsorted, hordered⟩, hnumbers => by
    rw [written, Written.value?, memberValues?_written members hordered hnumbers, Option.map_some,
      ofMembers, SortedKeys.foldl_insertEntry [] hsorted, List.nil_append]

theorem itemValues?_written : (items : List Json) → ItemsOrdered items →
    (∀ n ∈ itemNumbers items, n.ReadsBack) →
    Written.itemValues? (writtenItems items) = some items
  | [], _, _ => rfl
  | item :: rest, ⟨hitem, hrest⟩, hnumbers => by
    rw [writtenItems, Written.itemValues?,
      value?_written item hitem fun n hn => hnumbers n (by simp [itemNumbers, hn]),
      itemValues?_written rest hrest fun n hn => hnumbers n (by simp [itemNumbers, hn])]
    rfl

theorem memberValues?_written : (members : List (String × Json)) → MembersOrdered members →
    (∀ n ∈ memberNumbers members, n.ReadsBack) →
    Written.memberValues? (writtenMembers members) = some members
  | [], _, _ => rfl
  | (key, value) :: rest, ⟨hvalue, hrest⟩, hnumbers => by
    rw [writtenMembers, Written.memberValues?,
      value?_written value hvalue fun n hn => hnumbers n (by simp [memberNumbers, hn]),
      memberValues?_written rest hrest fun n hn => hnumbers n (by simp [memberNumbers, hn])]
    rfl

end

/-- A value that comes back from its text. -/
structure IsKept (value : Json) : Prop where
  ordered : value.IsOrdered
  numbers : ∀ n ∈ value.numbers, n.ReadsBack

/-- A value comes back wherever there is room for its depth. -/
theorem within?_written {value : Json} (h : value.IsKept) (allowance : Nat) :
    value.written.within? allowance = if value.depth ≤ allowance then some value else none := by
  rw [Written.within?, depth_written, value?_written value h.ordered h.numbers]

/-- A value comes back from its text unless it is too deep. -/
theorem read?_compact {value : Json} (h : value.IsKept) :
    read? value.compact = if value.depth ≤ maxDepth then some value else none := by
  rw [read?, read?_compact_written, ← within?_written h]
  rfl

end Json

end PhraseScript
