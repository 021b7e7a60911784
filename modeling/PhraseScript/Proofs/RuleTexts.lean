import Mathlib.Data.List.Induction
import Mathlib.Data.List.Infix
import Mathlib.Data.List.Lex
import Mathlib.Data.List.Nodup
import Mathlib.Data.String.Basic
import Mathlib.Tactic.Lemma
import Mathlib.Tactic.SplitIfs
import PhraseScript.Grammar.Standard
import PhraseScript.Proofs.Bytes

/-!
# The texts of rules

A rule is named by a text, and a text by no more than one rule.  A text is read by its first arrow
and by the blanks around what stands on both sides of it (`RuleKey.parse?_eq_some_iff`); the rules
that can be read are those whose symbols survive that (`RuleKey.WellFormed`), and each of them is
read back from its own text.

A table is filled by texts (`RuleTable.addAll`).  What it has on a rule is what was added last under
any of the texts of the rule, so that texts that are spaced differently replace each other.
-/

namespace PhraseScript

namespace Text

/-- The text is without blanks. -/
def Unbroken (cs : List Char) : Prop := ∀ c ∈ cs, isBlank c = false

/-- The text is one word: a part of a longer text between blanks. -/
def IsWord (cs : List Char) : Prop := cs ≠ [] ∧ Unbroken cs

variable {cs word : List Char}

/-! ### Words -/

/-- The text goes on with the rest of a word. -/
lemma wordsFrom_true_append {rest first : List Char} {others : List (List Char)}
    (hword : Unbroken word) (h : wordsFrom true rest = first :: others) :
    wordsFrom true (word ++ rest) = (word ++ first) :: others := by
  induction word with
  | nil => exact h
  | cons c word ih =>
    have hc : ¬isBlank c = true := by simp [hword c (List.mem_cons_self ..)]
    rw [List.cons_append, wordsFrom, if_neg hc, ih fun x hx => hword x (List.mem_cons_of_mem _ hx),
      consWord, List.cons_append]

lemma words_append {rest first : List Char} {others : List (List Char)} (hword : IsWord word)
    (h : wordsFrom true rest = first :: others) :
    words (word ++ rest) = (word ++ first) :: others := by
  obtain ⟨hne, hunbroken⟩ := hword
  obtain ⟨c, word, rfl⟩ := List.exists_cons_of_ne_nil hne
  have hc : ¬isBlank c = true := by simp [hunbroken c (List.mem_cons_self ..)]
  rw [List.cons_append, words, wordsFrom, if_neg hc,
    wordsFrom_true_append (fun x hx => hunbroken x (List.mem_cons_of_mem _ hx)) h, consWord,
    List.cons_append]

lemma words_space (cs : List Char) : words (' ' :: cs) = words cs := rfl

lemma wordsFrom_true_space (cs : List Char) : wordsFrom true (' ' :: cs) = [] :: words cs := rfl

/-- Words with single spaces between them are read back. -/
theorem words_intercalate {ws : List (List Char)} (h : ∀ word ∈ ws, IsWord word) :
    words ([' '].intercalate ws) = ws := by
  induction ws with
  | nil => rfl
  | cons word rest ih =>
    have hword := h word (List.mem_cons_self ..)
    have hrest := ih fun other hother => h other (List.mem_cons_of_mem _ hother)
    cases rest with
    | nil =>
      rw [List.intercalate_singleton]
      have hwords : words (word ++ []) = (word ++ []) :: [] := words_append hword rfl
      rwa [List.append_nil] at hwords
    | cons next rest =>
      rw [List.intercalate_cons_cons, List.append_assoc, List.singleton_append,
        words_append hword (wordsFrom_true_space _), hrest, List.append_nil]

/-- In the middle of a word, the text first goes on with it, and then come whole words. -/
lemma wordsFrom_spec (cs : List Char) :
    (∀ word ∈ wordsFrom false cs, IsWord word) ∧
      ∃ first others, wordsFrom true cs = first :: others ∧ Unbroken first ∧
        ∀ word ∈ others, IsWord word := by
  induction cs with
  | nil => exact ⟨by simp [wordsFrom], [], [], rfl, by simp [Unbroken], by simp⟩
  | cons c cs ih =>
    obtain ⟨hwords, first, others, hfrom, hfirst, hothers⟩ := ih
    by_cases hc : isBlank c = true
    · simp only [wordsFrom, hc, if_true, Bool.false_eq_true, if_false]
      exact ⟨hwords, [], _, rfl, by simp [Unbroken], hwords⟩
    · have hlonger : Unbroken (c :: first) := by
        simpa [Unbroken, hc] using hfirst
      simp only [wordsFrom, hc, hfrom, consWord]
      exact ⟨List.forall_mem_cons.mpr ⟨⟨List.cons_ne_nil _ _, hlonger⟩, hothers⟩,
        _, _, rfl, hlonger, hothers⟩

theorem isWord_of_mem_words (h : word ∈ words cs) : IsWord word := (wordsFrom_spec cs).1 word h

/-! ### Trimming -/

/-- What is left of a trimmed text stands in it. -/
lemma trim_infix (cs : List Char) : trim cs <:+: cs := by
  have hend : trim cs <+: trimStart cs := by
    have hsuffix : trimStart (trimStart cs).reverse <:+ (trimStart cs).reverse :=
      List.dropWhile_suffix _
    rwa [← List.reverse_prefix, List.reverse_reverse] at hsuffix
  exact hend.isInfix.trans (List.dropWhile_suffix _).isInfix

lemma trimStart_append {rest : List Char} (h : IsWord word) :
    trimStart (word ++ rest) = word ++ rest := by
  obtain ⟨hne, hunbroken⟩ := h
  obtain ⟨c, word, rfl⟩ := List.exists_cons_of_ne_nil hne
  rw [trimStart, List.cons_append, List.dropWhile_cons_of_neg]
  simp [hunbroken c (List.mem_cons_self ..)]

lemma trim_append_space (h : IsWord word) : trim (word ++ [' ']) = word := by
  have hreverse : IsWord word.reverse :=
    ⟨by simpa using h.1, fun c hc => h.2 c (List.mem_reverse.mp hc)⟩
  have hback : trimStart (word.reverse ++ []) = word.reverse ++ [] := trimStart_append hreverse
  rw [List.append_nil] at hback
  have hblank : trimStart (' ' :: word.reverse) = trimStart word.reverse :=
    List.dropWhile_cons_of_pos rfl
  rw [trim, trimStart_append h, List.reverse_append, List.reverse_singleton,
    List.singleton_append, hblank, hback, List.reverse_reverse]

end Text

namespace RuleKey

open Text

/-! ### The first arrow -/

/-- The text is without an arrow. -/
def Arrowless (cs : List Char) : Prop := ¬['-', '>'] <:+: cs

lemma arrowless_cons_iff {c : Char} {cs : List Char} :
    Arrowless (c :: cs) ↔ ¬(c = '-' ∧ ['>'] <+: cs) ∧ Arrowless cs := by
  rw [Arrowless, Arrowless, List.infix_cons_iff, List.cons_prefix_cons, not_or, eq_comm]

/-- A text is split where it has an arrow and nothing before that has one. -/
theorem splitArrow?_eq_some_iff {cs before after : List Char} :
    splitArrow? cs = some (before, after) ↔
      cs = before ++ '-' :: '>' :: after ∧ Arrowless before := by
  fun_induction splitArrow? cs generalizing before with
  | case1 => simp
  | case2 rest =>
    constructor
    · rintro ⟨⟩
      exact ⟨rfl, by simp [Arrowless]⟩
    · rintro ⟨htext, harrow⟩
      cases before with
      | nil => simpa using htext
      | cons c before =>
        obtain ⟨rfl, hrest⟩ := List.cons.inj htext
        cases before with
        | nil => simp at hrest
        | cons d before =>
          obtain ⟨rfl, -⟩ := List.cons.inj hrest
          exact absurd ⟨rfl, by simp⟩ (arrowless_cons_iff.mp harrow).1
  | case3 c rest hnot ih =>
    constructor
    · intro h
      obtain ⟨⟨before', after'⟩, hsplit, heq⟩ := Option.map_eq_some_iff.mp h
      obtain ⟨rfl, rfl⟩ := Prod.mk.inj heq
      obtain ⟨rfl, harrow⟩ := ih.mp hsplit
      refine ⟨rfl, arrowless_cons_iff.mpr ⟨?_, harrow⟩⟩
      rintro ⟨rfl, tail, htail⟩
      cases before' with
      | nil => simp at htail
      | cons d before' =>
        obtain ⟨rfl, -⟩ := List.cons.inj htail
        exact hnot _ rfl rfl
    · rintro ⟨htext, harrow⟩
      cases before with
      | nil =>
        obtain ⟨rfl, rfl⟩ := List.cons.inj htext
        exact (hnot _ rfl rfl).elim
      | cons d before =>
        obtain ⟨rfl, rfl⟩ := List.cons.inj htext
        exact Option.map_eq_some_iff.mpr
          ⟨_, ih.mpr ⟨rfl, (arrowless_cons_iff.mp harrow).2⟩, rfl⟩

/-! ### Rules that have a text -/

/-- The rule can be read from a text: its symbols are words, the derived one is without an arrow,
and it is derived from something. -/
structure WellFormed (key : RuleKey) : Prop where
  lhs_isWord : IsWord key.lhs.toList
  lhs_arrowless : Arrowless key.lhs.toList
  rhs_ne_nil : key.rhs ≠ []
  rhs_areWords : ∀ symbol ∈ key.rhs, IsWord symbol.toList

/-- The symbol consists of letters, digits and underscores, more generally of what comes after the
point in ASCII. -/
def isPlain (symbol : String) : Bool :=
  !(utf8Bytes symbol).isEmpty &&
    (utf8Bytes symbol).all fun byte => Nat.blt 46 byte.toNat && Nat.blt byte.toNat 128

/-- A plain symbol is a word without an arrow. -/
lemma isWord_of_isPlain {symbol : String} (hplain : isPlain symbol = true) :
    IsWord symbol.toList ∧ Arrowless symbol.toList := by
  obtain ⟨hbytes, hall⟩ := Bool.and_eq_true_iff.mp hplain
  have hne : symbol ≠ "" := by
    rintro rfl
    cases hbytes
  have h : ∀ byte ∈ utf8Bytes symbol, 46 < byte.toNat ∧ byte.toNat < 128 := by
    intro byte hbyte
    obtain ⟨hlower, hupper⟩ := Bool.and_eq_true_iff.mp (List.all_eq_true.mp hall byte hbyte)
    exact ⟨Nat.blt_eq.mp hlower, Nat.blt_eq.mp hupper⟩
  have hchars : ∀ c ∈ symbol.toList, 46 < c.toNat ∧ c.toNat < 128 := by
    intro c hc
    obtain ⟨byte, hbyte, heq⟩ := toNat_of_utf8Bytes (fun byte hbyte => (h byte hbyte).2) c hc
    exact heq ▸ h byte hbyte
  refine ⟨⟨by simpa using hne, fun c hc => ?_⟩, fun harrow => ?_⟩
  · have hc := hchars c hc
    simp only [isBlank, Bool.or_eq_false_iff, Bool.and_eq_false_iff, decide_eq_false_iff_not,
      beq_eq_false_iff_ne]
    omega
  · exact absurd (hchars '-' (harrow.subset (by simp))).1 (by decide)

lemma wellFormed_of_mem_standard {rule : Grammar.Rule} (h : rule ∈ Grammar.standard) :
    rule.1.WellFormed := by
  have hall : (Grammar.standard.all fun rule =>
      !rule.1.rhs.isEmpty && rule.1.symbols.all isPlain) = true := by
    decide +kernel
  obtain ⟨hrhs, hsymbols⟩ := Bool.and_eq_true_iff.mp (List.all_eq_true.mp hall rule h)
  have hne : rule.1.rhs ≠ [] := by
    intro hnil
    rw [hnil] at hrhs
    cases hrhs
  have hwords : ∀ symbol ∈ rule.1.symbols, IsWord symbol.toList ∧ Arrowless symbol.toList :=
    fun symbol hsymbol => isWord_of_isPlain (List.all_eq_true.mp hsymbols symbol hsymbol)
  obtain ⟨hlhs, harrow⟩ := hwords rule.1.lhs (List.mem_cons_self ..)
  exact ⟨hlhs, harrow, hne,
    fun symbol hsymbol => (hwords symbol (List.mem_cons_of_mem _ hsymbol)).1⟩

variable {declaration : String} {key : RuleKey}

/-- What is read from a text: before its first arrow one word, after it the words of the rest. -/
theorem parse?_eq_some_iff :
    parse? declaration = some key ↔
      ∃ before after, declaration.toList = before ++ '-' :: '>' :: after ∧ Arrowless before ∧
        trim before = key.lhs.toList ∧ IsWord key.lhs.toList ∧
        words after = key.rhs.map String.toList ∧ key.rhs ≠ [] := by
  have hblank (cs : List Char) : cs.any isBlank = true ↔ ¬Unbroken cs := by
    simp [Unbroken]
  rw [parse?, Option.bind_eq_bind, Option.bind_eq_some_iff]
  constructor
  · rintro ⟨⟨before, after⟩, hsplit, hkey⟩
    obtain ⟨htext, harrow⟩ := splitArrow?_eq_some_iff.mp hsplit
    dsimp only at hkey
    split_ifs at hkey with hproper
    · obtain rfl := Option.some.inj hkey
      simp only [not_or, hblank, not_not] at hproper
      exact ⟨before, after, htext, harrow, by simp,
        String.toList_ofList ▸ ⟨hproper.1, hproper.2.1⟩,
        by simp [Function.comp_def], by simpa using hproper.2.2⟩
  · rintro ⟨before, after, htext, harrow, hlhs, hword, hrhs, hne⟩
    refine ⟨(before, after), splitArrow?_eq_some_iff.mpr ⟨htext, harrow⟩, ?_⟩
    have hproper : ¬(key.lhs.toList = [] ∨ key.lhs.toList.any isBlank = true ∨
        key.rhs.map String.toList = []) := by
      rw [hblank, List.map_eq_nil_iff, not_or, not_or, not_not]
      exact ⟨hword.1, hword.2, hne⟩
    have hsymbols : (key.rhs.map String.toList).map String.ofList = key.rhs := by
      simp [Function.comp_def]
    simp only [hlhs, hrhs, if_neg hproper, hsymbols, String.ofList_toList]

theorem wellFormed_of_parse? (h : parse? declaration = some key) : key.WellFormed := by
  obtain ⟨before, after, -, harrow, hlhs, hword, hrhs, hne⟩ := parse?_eq_some_iff.mp h
  refine ⟨hword, fun hinfix => harrow ?_, hne, fun symbol hsymbol => ?_⟩
  · exact hinfix.trans (hlhs ▸ trim_infix before)
  · exact isWord_of_mem_words (hrhs ▸ List.mem_map_of_mem hsymbol)

lemma toList_text (key : RuleKey) :
    key.text.toList = (key.lhs.toList ++ [' ']) ++
      '-' :: '>' :: ' ' :: [' '].intercalate (key.rhs.map String.toList) := by
  simp [text]

/-- A rule is read back from its text. -/
theorem parse?_text (h : key.WellFormed) : parse? key.text = some key := by
  refine parse?_eq_some_iff.mpr ⟨_, _, toList_text key, ?_, trim_append_space h.lhs_isWord,
    h.lhs_isWord, ?_, h.rhs_ne_nil⟩
  · -- an arrow does not end with the space
    intro hinfix
    rcases List.infix_concat_iff.mp hinfix with hsuffix | hinfix
    · obtain ⟨start, hstart⟩ := hsuffix
      have hlast := congrArg List.getLast? hstart
      simp at hlast
    · exact h.lhs_arrowless hinfix
  · rw [words_space, words_intercalate (List.forall_mem_map.mpr h.rhs_areWords)]

-- only the first arrow divides a rule
example : parse? "A ->-> B->" = some ⟨"A", ["->", "B->"]⟩ := by decide

/-- Rules that can be read have different texts. -/
lemma WellFormed.eq_of_text_eq {other : RuleKey} (h : key.WellFormed) (h' : other.WellFormed)
    (htext : key.text = other.text) : key = other :=
  Option.some.inj ((parse?_text h).symm.trans (htext ▸ parse?_text h'))

/-! ### The order of rules -/

theorem precede_iff_le (as bs : List String) : precede as bs = true ↔ as ≤ bs := by
  induction as, bs using precede.induct with
  | case1 bs => exact iff_of_true rfl (not_lt.mp (List.not_lt_nil bs))
  | case2 a as => simp [precede]
  | case3 a as b bs ih =>
    rw [le_iff_lt_or_eq, List.cons_lt_cons_iff, List.cons.injEq, precede, Bool.or_eq_true,
      Bool.and_eq_true, decide_eq_true_iff, decide_eq_true_iff, ih, le_iff_lt_or_eq]
    tauto

/-- One rule comes before another: by what they derive, and then by what they derive it from. -/
def Before (a b : RuleKey) : Prop := a.lhs < b.lhs ∨ a.lhs = b.lhs ∧ a.rhs < b.rhs

lemma before_of_le_of_ne {a b : RuleKey} (hle : a ≤ b) (hne : a ≠ b) : a.Before b := by
  have hsymbols : a.symbols ≠ b.symbols := by
    intro heq
    obtain ⟨hlhs, hrhs⟩ := List.cons.inj heq
    exact hne (by cases a; cases b; simp_all)
  exact List.cons_lt_cons_iff.mp (lt_of_le_of_ne ((precede_iff_le _ _).mp hle) hsymbols)

end RuleKey

namespace RuleTable

open RuleKey

/-! ### Tables that are filled by texts -/

/-- The table of some declarations, each a text with an action, added one after the other. -/
def addAll (declarations : List (String × Action)) : Except String RuleTable :=
  declarations.foldlM (fun table declaration => table.add declaration.1 declaration.2) ∅

/-- The action that is declared last under any of the texts of a rule. -/
def lastDeclared? (declarations : List (String × Action)) (key : RuleKey) : Option Action :=
  (declarations.reverse.find? fun declaration => parse? declaration.1 = some key).map Prod.snd

variable {declarations : List (String × Action)} {table : RuleTable} {key : RuleKey}

lemma add_eq_ok {declaration : String} {action : Action} (h : parse? declaration = some key) :
    table.add declaration action = .ok (table.insert key action) := by
  rw [add, h]

lemma addAll_concat {declaration : String} {action : Action}
    (hall : addAll declarations = .ok table) (h : parse? declaration = some key) :
    addAll (declarations ++ [(declaration, action)]) = .ok (table.insert key action) := by
  rw [addAll, List.foldlM_append, ← addAll, hall]
  show (table.add declaration action >>= fun table => [].foldlM _ table) = _
  rw [add_eq_ok h]
  rfl

lemma nodup_insert {action : Action} (h : (table.rules.map Prod.fst).Nodup) :
    ((table.insert key action).rules.map Prod.fst).Nodup := by
  rw [insert, List.map_cons, List.nodup_cons]
  refine ⟨?_, h.sublist ((List.filter_sublist).map _)⟩
  simp

/-- Texts of rules fill a table, with one entry for each rule: the one that is declared last. -/
theorem exists_addAll (h : ∀ declaration ∈ declarations, ∃ key, parse? declaration.1 = some key) :
    ∃ table, addAll declarations = .ok table ∧ (table.rules.map Prod.fst).Nodup ∧
      ∀ key, table.lookup? key = lastDeclared? declarations key := by
  induction declarations using List.reverseRecOn with
  | nil => exact ⟨∅, rfl, List.nodup_nil, fun _ => rfl⟩
  | append_singleton declarations declaration ih =>
    obtain ⟨table, hall, hnodup, hlookup⟩ := ih fun other hother =>
      h other (List.mem_append_left _ hother)
    obtain ⟨added, hadded⟩ := h declaration (List.mem_append_right _ (List.mem_singleton_self _))
    refine ⟨_, addAll_concat hall hadded, nodup_insert hnodup, fun key => ?_⟩
    rw [lookup?_insert, hlookup, lastDeclared?, lastDeclared?, List.reverse_concat,
      List.find?_cons]
    by_cases hkey : key = added
    · simp [hadded, hkey]
    · simp [hadded, hkey, Ne.symm hkey]

/-- The declarations of rules by their own texts give the table of the rules. -/
lemma addAll_texts {rules : List (RuleKey × Action)} (h : ∀ rule ∈ rules, rule.1.WellFormed) :
    addAll (rules.map fun rule => (rule.1.text, rule.2)) = .ok (ofList rules) := by
  induction rules using List.reverseRecOn with
  | nil => rfl
  | append_singleton rules rule ih =>
    have hrules := ih fun other hother => h other (List.mem_append_left _ hother)
    have hrule := parse?_text (h rule (List.mem_append_right _ (List.mem_singleton_self _)))
    rw [List.map_append, List.map_singleton, addAll_concat hrules hrule]
    simp [ofList]

lemma mem_keys_iff : key ∈ table.keys ↔ (table.lookup? key).isSome := by
  rw [keys, List.mem_mergeSort, lookup?, List.lookup_isSome_iff]
  simp

lemma size_eq (table : RuleTable) : table.size = table.keys.length := by
  rw [size, keys, List.length_mergeSort, List.length_map]

lemma nodup_keys (h : (table.rules.map Prod.fst).Nodup) : table.keys.Nodup :=
  (List.mergeSort_perm _ _).nodup_iff.mpr h

/-- The keys of a table are in order, and none is listed twice. -/
lemma pairwise_keys (h : (table.rules.map Prod.fst).Nodup) : table.keys.Pairwise Before := by
  have hsorted : table.keys.Pairwise fun a b => decide (a ≤ b) = true := by
    refine List.pairwise_mergeSort (fun a b c hab hbc => ?_) (fun a b => ?_) _
    · rw [decide_eq_true_iff] at hab hbc ⊢
      exact (precede_iff_le _ _).mpr
        (le_trans ((precede_iff_le _ _).mp hab) ((precede_iff_le _ _).mp hbc))
    · rw [Bool.or_eq_true, decide_eq_true_iff, decide_eq_true_iff]
      exact (le_total a.symbols b.symbols).imp (precede_iff_le _ _).mpr (precede_iff_le _ _).mpr
  exact (hsorted.and (nodup_keys h)).imp fun ⟨hle, hne⟩ =>
    before_of_le_of_ne (of_decide_eq_true hle) hne

end RuleTable

/-- Rules and their texts correspond.  A text that is read as a rule can be replaced by the text of
the rule, and the rules that can be read are the well-formed ones.  A table that is filled by texts
lists each rule once, in order and by a text of its own, has the rules that its texts are read as,
and on each of them what was declared last; the standard table is one of these. -/
theorem RuleTable.texts_correspond :
    (∀ declaration key, RuleKey.parse? declaration = some key →
      RuleKey.parse? key.text = some key) ∧
    (∀ key : RuleKey, key.WellFormed → RuleKey.parse? key.text = some key) ∧
    (∀ key : RuleKey, (∃ declaration, RuleKey.parse? declaration = some key) ↔ key.WellFormed) ∧
    (∀ declarations : List (String × Action),
      (∀ declaration ∈ declarations, ∃ key, RuleKey.parse? declaration.1 = some key) →
      ∃ table, addAll declarations = .ok table ∧
        table.keys.Pairwise RuleKey.Before ∧
        (table.keys.map RuleKey.text).Nodup ∧
        (∀ declaration, table.contains declaration = true ↔
          ∃ key ∈ table.keys, RuleKey.parse? declaration = some key) ∧
        table.size = table.keys.length ∧
        (∀ key, key ∈ table.keys ↔
          ∃ declaration ∈ declarations, RuleKey.parse? declaration.1 = some key) ∧
        ∀ key ∈ table.keys, ∃ action, table.lookup? key = some action ∧
          lastDeclared? declarations key = some action) ∧
    addAll (Grammar.standard.map fun rule => (rule.1.text, rule.2.build)) =
      .ok Grammar.standardTable := by
  refine ⟨fun _ _ h => RuleKey.parse?_text (RuleKey.wellFormed_of_parse? h),
    fun _ => RuleKey.parse?_text, fun key => ⟨fun ⟨_, h⟩ => RuleKey.wellFormed_of_parse? h,
      fun h => ⟨_, RuleKey.parse?_text h⟩⟩, fun declarations hvalid => ?_, ?_⟩
  · obtain ⟨table, hall, hnodup, hlookup⟩ := exists_addAll hvalid
    have hkeys (key : RuleKey) : key ∈ table.keys ↔
        ∃ declaration ∈ declarations, RuleKey.parse? declaration.1 = some key := by
      rw [mem_keys_iff, hlookup, lastDeclared?, Option.isSome_map, List.find?_isSome]
      simp
    have htexts : (table.keys.map RuleKey.text).Nodup := by
      refine List.Nodup.map_on (fun key hkey other hother heq => ?_) (nodup_keys hnodup)
      obtain ⟨_, -, hparse⟩ := (hkeys key).mp hkey
      obtain ⟨_, -, hparse'⟩ := (hkeys other).mp hother
      exact (RuleKey.wellFormed_of_parse? hparse).eq_of_text_eq
        (RuleKey.wellFormed_of_parse? hparse') heq
    refine ⟨table, hall, pairwise_keys hnodup, htexts, fun declaration => ?_, table.size_eq, hkeys,
      fun key hkey => ?_⟩
    · rw [contains]
      cases RuleKey.parse? declaration with
      | none => simp
      | some key => simp [mem_keys_iff]
    · obtain ⟨action, haction⟩ := Option.isSome_iff_exists.mp (mem_keys_iff.mp hkey)
      exact ⟨action, haction, hlookup key ▸ haction⟩
  · have hwellFormed : ∀ rule ∈ Grammar.standard.map fun rule => (rule.1, rule.2.build),
        rule.1.WellFormed := by
      intro rule hrule
      obtain ⟨listed, hlisted, rfl⟩ := List.mem_map.mp hrule
      exact RuleKey.wellFormed_of_mem_standard hlisted
    have hall := addAll_texts hwellFormed
    rwa [List.map_map] at hall

end PhraseScript
