import PhraseScript.Proofs.WrittenTrees

/-!
# How many words a text can hold

A tree has at most as many words as the text has characters that it is read from
(`Derivation.length_words_le_of_read`).  In brackets every word is a token of its own; in JSON every
word is part of a node, and every node is a value in the text.  Both times a character completes at
most one token, if the token that has begun is counted already.
-/

namespace PhraseScript

namespace Json

/-! ### Tokens of a JSON text -/

namespace Token

variable {state next : State} {tokens : List Token} {c : Char}

/-- The tokens that have begun and are not complete. -/
def State.begun : State → Nat
  | .between => 0
  | _ => 1

lemma length_start (h : start c = some (tokens, next)) : tokens.length + next.begun ≤ 1 := by
  rw [start] at h
  split_ifs at h
  · cases h
    exact Nat.zero_le 1
  · cases h
    exact Nat.le_refl 1
  · cases h
    exact Nat.le_refl 1
  · cases h
    exact Nat.le_refl 1
  · obtain ⟨token, -, h⟩ := Option.map_eq_some_iff.mp h
    cases h
    exact Nat.le_refl 1

lemma begun_le_one (state : State) : state.begun ≤ 1 := by
  cases state <;> simp [State.begun]

/-- A character begins at most one token. -/
lemma length_step (h : step state c = some (tokens, next)) :
    tokens.length + next.begun ≤ state.begun + 1 := by
  have hnext := begun_le_one next
  cases state with
  | between => exact Nat.le_add_left_of_le (length_start h)
  | word read | number read =>
    rw [step] at h
    split_ifs at h
    · cases h
      exact Nat.le_add_left_of_le (by simpa using hnext)
    · obtain ⟨token, -, h⟩ := Option.bind_eq_some_iff.mp h
      obtain ⟨⟨others, state⟩, hstart, h⟩ := Option.bind_eq_some_iff.mp h
      cases h
      have hothers := length_start hstart
      rw [List.length_cons, Nat.add_right_comm]
      exact Nat.succ_le_succ hothers
  | string units =>
    rw [step] at h
    split_ifs at h <;> cases h <;> simp [State.begun]
  | escape units =>
    rw [step] at h
    split_ifs at h
    · cases h
      simp [State.begun]
    · obtain ⟨unit, -, h⟩ := Option.map_eq_some_iff.mp h
      cases h
      simp [State.begun]
  | hex units missing value =>
    obtain ⟨digit, -, h⟩ := Option.map_eq_some_iff.mp h
    cases h
    exact Nat.le_add_left_of_le (by simpa using hnext)

lemma length_cut {text : List Char} (h : cut state text = some tokens) :
    tokens.length ≤ text.length + state.begun := by
  induction text generalizing state tokens with
  | nil =>
    cases state with
    | between =>
      cases h
      exact Nat.zero_le _
    | word | number =>
      obtain ⟨token, -, rfl⟩ := Option.map_eq_some_iff.mp h
      exact Nat.le_refl 1
    | string | escape | hex => cases h
  | cons c text ih =>
    obtain ⟨⟨first, next⟩, hstep, h⟩ := Option.bind_eq_some_iff.mp h
    obtain ⟨others, hothers, h⟩ := Option.bind_eq_some_iff.mp h
    obtain rfl := Option.some.inj h
    have hfirst := length_step hstep
    have hrest := ih hothers
    rw [List.length_append, List.length_cons]
    omega

end Token

/-! ### Values in a JSON text -/

namespace Written

mutual

/-- The number of values that a value consists of, itself among them. -/
def size : Written → Nat
  | .array items => itemsSize items + 1
  | .object members => membersSize members + 1
  | _ => 1

/-- The number of values among items. -/
def itemsSize : List Written → Nat
  | [] => 0
  | item :: rest => size item + itemsSize rest

/-- The number of values among members. -/
def membersSize : List (Option String × Written) → Nat
  | [] => 0
  | (_, value) :: rest => size value + membersSize rest

end

lemma itemsSize_append (items more : List Written) :
    itemsSize (items ++ more) = itemsSize items + itemsSize more := by
  induction items with
  | nil => exact (Nat.zero_add _).symm
  | cons item rest ih => rw [List.cons_append, itemsSize, itemsSize, ih, Nat.add_assoc]

lemma membersSize_append (members more : List (Option String × Written)) :
    membersSize (members ++ more) = membersSize members + membersSize more := by
  induction members with
  | nil => exact (Nat.zero_add _).symm
  | cons member rest ih => rw [List.cons_append, membersSize, membersSize, ih, Nat.add_assoc]

lemma itemsSize_reverse (items : List Written) : itemsSize items.reverse = itemsSize items := by
  induction items with
  | nil => rfl
  | cons item rest ih =>
    rw [List.reverse_cons, itemsSize_append, ih, itemsSize, itemsSize, itemsSize, Nat.add_zero,
      Nat.add_comm]

lemma membersSize_reverse (members : List (Option String × Written)) :
    membersSize members.reverse = membersSize members := by
  induction members with
  | nil => rfl
  | cons member rest ih =>
    rw [List.reverse_cons, membersSize_append, ih, membersSize, membersSize, membersSize,
      Nat.add_zero, Nat.add_comm]

lemma size_pos (written : Written) : 0 < written.size := by
  cases written <;> simp [size]

/-- The number of values in what is open. -/
def Frame.size : Frame → Nat
  | .array items => itemsSize items + 1
  | .object members _ => membersSize members + 1

/-- The number of values in what is not yet put into something open. -/
def Expecting.size : Expecting → Nat
  | .value | .firstItem => 0
  | .firstKey => 1
  | .key members | .colon members _ => membersSize members + 1
  | .separator complete => complete.size

/-- The number of values in all that is open. -/
def openedSize : List Frame → Nat
  | [] => 0
  | frame :: rest => frame.size + openedSize rest

/-- The number of values in what a machine has read. -/
def Machine.size (machine : Machine) : Nat :=
  machine.expecting.size + openedSize machine.opened

lemma size_beginValue {opened : List Frame} {token : Token} {next : Machine}
    (h : beginValue opened token = some next) : next.size ≤ openedSize opened + 1 := by
  cases token <;> cases h <;>
    simp only [Machine.size, Expecting.size, openedSize, Frame.size, size, itemsSize] <;> omega

/-- A token begins at most one value. -/
lemma size_step {machine next : Machine} {token : Token} (h : step machine token = some next) :
    next.size ≤ machine.size + 1 := by
  obtain ⟨expecting, opened⟩ := machine
  dsimp only [step] at h
  split at h
  · simpa [Machine.size, Expecting.size] using size_beginValue h
  · cases h
    simp only [Machine.size, Expecting.size, openedSize, Frame.size, size]
    omega
  · simpa [Machine.size, Expecting.size] using size_beginValue h
  all_goals
    cases h <;>
      simp only [Machine.size, Expecting.size, openedSize, Frame.size, size, itemsSize_reverse,
        membersSize_reverse, itemsSize, membersSize] <;>
      omega

lemma size_steps {machine next : Machine} {tokens : List Token}
    (h : tokens.foldlM step machine = some next) : next.size ≤ machine.size + tokens.length := by
  induction tokens generalizing machine with
  | nil =>
    obtain rfl := Option.some.inj h
    exact Nat.le_refl _
  | cons token rest ih =>
    rw [List.foldlM_cons] at h
    obtain ⟨between, hstep, hrest⟩ := Option.bind_eq_some_iff.mp h
    have hfirst := size_step hstep
    have hothers := ih hrest
    rw [List.length_cons]
    omega

/-- A text has at least as many characters as values. -/
theorem size_le_of_read? {text : String} {written : Written} (h : read? text = some written) :
    written.size ≤ text.length := by
  obtain ⟨tokens, htokens, h⟩ := Option.bind_eq_some_iff.mp h
  obtain ⟨machine, hsteps, hfinished⟩ := Option.bind_eq_some_iff.mp h
  have hcut := Token.length_cut htokens
  have hsize := size_steps hsteps
  have hvalue : written.size ≤ machine.size := by
    rw [finished?] at hfinished
    split at hfinished
    · next value hexpecting hopened =>
      obtain rfl := Option.some.inj hfinished
      rw [Machine.size, hexpecting]
      exact Nat.le_add_right _ _
    · cases hfinished
  calc written.size ≤ machine.size := hvalue
    _ ≤ tokens.length := by simpa [Machine.size, Expecting.size, openedSize] using hsize
    _ ≤ text.length := by simpa [Token.State.begun, String.length_toList] using hcut

/-! ### Nodes of a JSON tree -/

lemma size_le_itemsSize {items : List Written} {item : Written} (h : item ∈ items) :
    item.size ≤ itemsSize items := by
  obtain ⟨before, after, rfl⟩ := List.append_of_mem h
  rw [itemsSize_append, itemsSize]
  omega

lemma size_le_membersSize {members : List (Option String × Written)}
    {member : Option String × Written} (h : member ∈ members) :
    member.2.size ≤ membersSize members := by
  obtain ⟨before, after, rfl⟩ := List.append_of_mem h
  rw [membersSize_append, membersSize]
  omega

lemma size_lt_of_record? {names : List String} {written : Written}
    {fields : List (String × Written)} (h : written.record? names = some fields) :
    ∀ field ∈ fields, field.2.size < written.size := by
  intro field hfield
  cases written with
  | object members =>
    obtain ⟨listed, hlisted, h⟩ := Option.bind_eq_some_iff.mp h
    dsimp only at h
    split_ifs at h
    obtain rfl := Option.some.inj h
    obtain rfl := Derivation.eq_map_of_mapM_key hlisted
    have hmem : (some field.1, field.2) ∈ listed.map fun field => (some field.1, field.2) :=
      List.mem_map.mpr ⟨field, List.mem_of_mem_filter hfield, rfl⟩
    exact Nat.lt_succ_of_le (size_le_membersSize hmem)
  | array items =>
    rw [record?] at h
    split_ifs at h
    obtain rfl := Option.some.inj h
    exact Nat.lt_succ_of_le (size_le_itemsSize (List.of_mem_zip hfield).2)
  | null | bool | number | string => cases h

lemma itemsSize_writtenChildren_le (written : Written) :
    itemsSize (Derivation.writtenChildren written) ≤ written.size := by
  rw [Derivation.writtenChildren]
  split
  · next items hitems =>
    obtain ⟨fields, hfields, hlookup⟩ := Option.bind_eq_some_iff.mp hitems
    obtain ⟨value, -, hfields⟩ := Option.bind_eq_some_iff.mp hfields
    obtain ⟨kind, -, hrecord⟩ := Option.bind_eq_some_iff.mp hfields
    have hsize := size_lt_of_record? hrecord _ (mem_of_lookup hlookup)
    exact Nat.le_of_lt (Nat.lt_of_succ_lt hsize)
  · exact Nat.zero_le _

end Written

end Json

namespace Derivation

open Json (Written)

mutual

lemma length_words_le_size : (tree : Derivation) → (written : Written) →
    ofWritten? written = some tree → tree.words.length ≤ written.size
  | .leaf _ _ _, written, _ => written.size_pos
  | .node _ _ children _, written, h => by
    obtain ⟨-, -, -, hchildren⟩ := exists_fields_of_ofWritten? h
    exact (length_forestWords_le_size children _ hchildren).trans
      (Written.itemsSize_writtenChildren_le written)

lemma length_forestWords_le_size : (trees : List Derivation) → (items : List Written) →
    treesOfWritten? items = some trees →
      (forestWords trees).length ≤ Written.itemsSize items
  | [], _, _ => Nat.zero_le _
  | tree :: rest, items, h => by
    cases items with
    | nil => cases h
    | cons item items =>
      obtain ⟨first, hfirst, h⟩ := Option.bind_eq_some_iff.mp h
      obtain ⟨others, hothers, h⟩ := Option.bind_eq_some_iff.mp h
      obtain ⟨rfl, rfl⟩ := List.cons.inj (Option.some.inj h)
      rw [forestWords, List.length_append, Written.itemsSize]
      exact Nat.add_le_add (length_words_le_size first item hfirst)
        (length_forestWords_le_size others items hothers)

end

end Derivation

/-! ### Words of a tree in brackets -/

namespace Bracketed

lemma Cuts.length_le {text : List Char} {tokens : List Token} (h : Cuts text tokens) :
    tokens.length ≤ text.length := by
  induction h with
  | nil => exact Nat.le_refl 0
  | blank _ _ ih => exact Nat.le_succ_of_le ih
  | @comment text rest _ _ _ _ ih =>
    rw [List.length_cons, List.length_append]
    omega
  | opening _ ih | closing _ ih => exact Nat.succ_le_succ ih
  | word hne _ _ _ ih =>
    have hword := List.length_pos_of_ne_nil hne
    rw [List.length_cons, List.length_append]
    omega

mutual

lemma length_words_le_spelled : (tree : Derivation) →
    tree.words.length ≤ (spelled tree).length
  | .leaf _ _ _ => by simp [Derivation.words, spelled]
  | .node _ _ children _ => by
    have hchildren := length_forestWords_le_spelled children
    rw [Derivation.words, spelled, List.length_cons, List.length_cons, List.length_append]
    omega

lemma length_forestWords_le_spelled : (trees : List Derivation) →
    (Derivation.forestWords trees).length ≤ (forestSpelled trees).length
  | [] => Nat.le_refl 0
  | tree :: rest => by
    rw [Derivation.forestWords, forestSpelled, List.length_append, List.length_append]
    exact Nat.add_le_add (length_words_le_spelled tree) (length_forestWords_le_spelled rest)

end

lemma length_words_le_of_read {text : List Char} {tree : Derivation}
    (h : read text = .ok tree) : tree.words.length ≤ text.length := by
  obtain ⟨bare, hbare, rfl⟩ := read_eq_ok_iff.mp h
  obtain ⟨-, hspelled⟩ := ofTokens_eq_ok_iff.mp hbare
  calc bare.reindexed.words.length = bare.words.length := by
        rw [Derivation.reindexed, Derivation.words_reindexFrom]
    _ ≤ (spelled bare).length := length_words_le_spelled bare
    _ ≤ text.length := (cuts_iff.mpr hspelled).length_le

end Bracketed

/-! ### Both notations -/

/-- A tree has at most as many words as its text has characters. -/
theorem Derivation.length_words_le_of_read {text : String} {tree : Derivation}
    (h : read text = .ok tree) : tree.words.length ≤ text.length := by
  have htrim : (Text.trimStart text.toList).length ≤ text.length := by
    rw [← String.length_toList]
    exact (List.dropWhile_suffix _).length_le
  by_cases hbrace : (Text.trimStart text.toList).head? = some '{'
  · obtain ⟨written, original, hwritten, horiginal, rfl⟩ := exists_of_read_document hbrace h
    have hwords : original.withSpans.words = original.words := by
      rw [withSpans]
      split_ifs
      · exact words_reindexFrom 0 original
      · rfl
    have hsize := Json.Written.size_le_of_read? hwritten
    rw [← String.length_toList, String.toList_ofList] at hsize
    rw [hwords]
    exact ((length_words_le_size original written horiginal).trans hsize).trans htrim
  · rw [read, if_neg hbrace] at h
    exact (Bracketed.length_words_le_of_read h).trans htrim

end PhraseScript
