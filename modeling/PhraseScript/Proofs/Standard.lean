import PhraseScript.Proofs.Lookups
import PhraseScript.Proofs.Typing

/-!
# The standard language from inside

Where the rules and the words of the standard language come from: what is looked up in its
table is one of the rules of `Grammar.standard` with its construction, and what is looked up in
its lexicon is one of the entries of `Lexicon.standardWords` or `Lexicon.standardOpen`.

`Lexicon.Means` collects what these entries make of words.
-/

namespace PhraseScript

/-! ### Rules -/

/-- The action of a rule of the standard table is that of its construction. -/
theorem Grammar.exists_of_lookup?_standardTable {key : RuleKey} {action : Action}
    (h : standardTable.lookup? key = some action) :
    ∃ construction, (key, construction) ∈ standard ∧ action = construction.build := by
  rw [lookup?_standardTable_eq, Option.map_eq_some_iff] at h
  obtain ⟨construction, hlookup, rfl⟩ := h
  exact ⟨construction, List.mem_reverse.mp (mem_of_lookup hlookup), rfl⟩

/-! ### Words -/

namespace Lexicon

variable {category lower : String} {produce : Producer}

/-- The producer of a word of the standard lexicon is listed for its category, or takes all
words of it. -/
theorem mem_of_producer?_standard {sounds : List String}
    (h : (standard sounds).producer? category lower = some produce) :
    (∃ words, (category, words, produce) ∈ standardWords sounds ∧
        lower ∈ words.map Text.toLower) ∨
      (category, produce) ∈ standardOpen := by
  rw [producer?_standard, Option.or_eq_some_iff] at h
  rcases h with h | ⟨-, h⟩
  · obtain ⟨⟨listed, words, added⟩, hfound, rfl⟩ := Option.map_eq_some_iff.mp h
    have hentry := List.find?_some hfound
    obtain ⟨rfl, hlower⟩ := of_decide_eq_true hentry
    exact .inl ⟨words, List.mem_reverse.mp (List.mem_of_find?_eq_some hfound), hlower⟩
  · exact .inr (List.mem_reverse.mp (mem_of_lookup h))

/-! ### What words mean -/

/-- What a word in lower case can mean in a category of the standard lexicon. -/
inductive Means : String → String → Meaning → Prop where
  | keyword {category lower : String} {words : List String} (h : (category, words) ∈ keywords) :
      Means category lower .null
  | true (lower : String) : Means "BooleanLiteral" lower (.number (.ofInt 1))
  | false (lower : String) : Means "BooleanLiteral" lower (.number (.ofInt 0))
  | affirmation (lower : String) : Means "POS" lower (.modifier (.layer .affirm))
  | negation (lower : String) : Means "NEG" lower (.modifier (.layer .negate))
  | timer (lower : String) : Means "Timer" lower (.expression (.mk Opcode.timer []))
  | forever (lower : String) : Means "Duration" lower (.text forever)
  | name {category lower : String}
      (h : category ∈ ["NAME_OF_SOUND", "MESSAGE_NAME", "KEY_NAME", "BACKDROP_NAME"]) :
      Means category lower (.text lower)
  | ordinal {lower : String} {index : Nat} (h : Ordinal.index lower = .ok index) :
      Means "OrderAdverb" lower (.number (.ofInt index))
  | numeral {lower : String} {value : Double} (h : numeral? lower = some value) :
      Means "Unk" lower (.number value)
  | text {lower : String} (h : numeral? lower = none) : Means "Unk" lower (.text lower)
  | variableName (lower : String) : Means "VARIABLE_NAME" lower (.variableName lower)
  | listName (lower : String) : Means "LIST_NAME" lower (.listName lower)

/-- The faults that a word of the standard lexicon can have. -/
def WordFault (category word : String) (fault : Fault) : Prop :=
  fault = .unknownWord category word ∨
    category = "OrderAdverb" ∧ fault = .unsupportedOrdinal (Text.toLower word)

lemma lookup_of_ordinal {word : String} {index : Nat} (h : Ordinal.index word = .ok index) :
    Ordinal.table.lookup word = some index := by
  rw [Ordinal.index] at h
  split at h
  · next found hfound => rwa [← Except.ok.inj h]
  · cases h

lemma unsupported_of_ordinal {word : String} {fault : Fault}
    (h : Ordinal.index word = .error fault) : fault = .unsupportedOrdinal word := by
  rw [Ordinal.index] at h
  split at h
  · cases h
  · exact (Except.error.inj h).symm

lemma yields_ordinal (lower : String) :
    Yields (Producer.ordinal lower) (Means "OrderAdverb" lower)
      (fun fault => "OrderAdverb" = "OrderAdverb" ∧ fault = .unsupportedOrdinal lower) := by
  have hindex : Yields (Ordinal.index lower) (fun index => Ordinal.index lower = .ok index)
      (fun fault => "OrderAdverb" = "OrderAdverb" ∧ fault = .unsupportedOrdinal lower) :=
    ⟨fun he => he, fun he => ⟨rfl, unsupported_of_ordinal he⟩⟩
  exact hindex.bind fun index hindex => .ok (.ordinal hindex)

/-- What is listed for a category. -/
lemma yields_standardWords {sounds : List String} {category : String} {words : List String}
    {produce : Producer} (h : (category, words, produce) ∈ standardWords sounds)
    (lower : String) :
    Yields (produce lower) (Means category lower)
      (fun fault => category = "OrderAdverb" ∧ fault = .unsupportedOrdinal lower) := by
  rcases List.mem_append.mp h with h | h
  · obtain ⟨⟨keyword, words⟩, hmem, heq⟩ := List.mem_map.mp h
    cases heq
    exact .ok (.keyword hmem)
  · simp only [List.mem_cons, Prod.mk.injEq, List.not_mem_nil, or_false] at h
    rcases h with ⟨rfl, -, rfl⟩ | ⟨rfl, -, rfl⟩ | ⟨rfl, -, rfl⟩ | ⟨rfl, -, rfl⟩ | ⟨rfl, -, rfl⟩ |
      ⟨rfl, -, rfl⟩ | ⟨rfl, -, rfl⟩ | ⟨rfl, -, rfl⟩
    · exact .ok (.true lower)
    · exact .ok (.false lower)
    · exact .ok (.affirmation lower)
    · exact .ok (.negation lower)
    · exact .ok (.timer lower)
    · exact .ok (.forever lower)
    · exact .ok (.name (by decide))
    · exact yields_ordinal lower

/-- What an open category makes of a word. -/
lemma yields_standardOpen {category : String} {produce : Producer}
    (h : (category, produce) ∈ standardOpen) (lower : String) :
    Yields (produce lower) (Means category lower)
      (fun fault => category = "OrderAdverb" ∧ fault = .unsupportedOrdinal lower) := by
  simp only [standardOpen, List.mem_cons, Prod.mk.injEq, List.not_mem_nil, or_false] at h
  rcases h with ⟨rfl, rfl⟩ | ⟨rfl, rfl⟩ | ⟨rfl, rfl⟩ | ⟨rfl, rfl⟩ | ⟨rfl, rfl⟩ | ⟨rfl, rfl⟩ |
    ⟨rfl, rfl⟩
  · rcases hvalue : numeral? lower with _ | value
    · simp only [Producer.numeralOrText, hvalue]
      exact .ok (.text hvalue)
    · simp only [Producer.numeralOrText, hvalue]
      exact .ok (.numeral hvalue)
  · exact .ok (.variableName lower)
  · exact .ok (.listName lower)
  · exact .ok (.name (by decide))
  · exact .ok (.name (by decide))
  · exact .ok (.name (by decide))
  · exact yields_ordinal lower

/-- A word of the standard lexicon means what its category makes of it in lower case, or it is
unknown or an unsupported ordinal. -/
theorem yields_lookup_standard (sounds : List String) (category word : String) :
    Yields ((standard sounds).lookup category word) (Means category (Text.toLower word))
      (WordFault category word) := by
  rw [lookup]
  split
  · next produce hproduce =>
    have hyields : Yields (produce (Text.toLower word)) (Means category (Text.toLower word))
        (fun fault => category = "OrderAdverb" ∧
          fault = .unsupportedOrdinal (Text.toLower word)) := by
      rcases mem_of_producer?_standard hproduce with ⟨words, hlisted, -⟩ | hopen
      · exact yields_standardWords hlisted _
      · exact yields_standardOpen hopen _
    exact ⟨hyields.result, fun he => .inr (hyields.fault he)⟩
  · exact .error (.inl rfl)

/-! ### The senses of words -/

section Senses

variable {admissible : Double → Prop}

lemma isFinite_of_numeral? {word : String} {value : Double} (h : numeral? word = some value) :
    value.IsFinite := by
  obtain ⟨literal, -, hliteral⟩ := Option.bind_eq_some_iff.mp h
  obtain ⟨hfinite, heq⟩ := Option.ite_none_right_eq_some.mp hliteral
  exact Option.some.inj heq ▸ hfinite

lemma ofCategory_of_mem_keywords {category : String} {words : List String}
    (h : (category, words) ∈ keywords) : Sense.ofCategory category = .nothing := by
  have hall : ∀ entry ∈ keywords, Sense.ofCategory entry.1 = .nothing := by decide +kernel
  exact hall _ h

lemma lt_of_ordinal {word : String} {index : Nat} (h : Ordinal.index word = .ok index) :
    index < twoTo 53 := by
  have hall : ∀ entry ∈ Ordinal.table, entry.2 < twoTo 53 := by decide
  exact hall (word, index) (mem_of_lookup (lookup_of_ordinal h))

/-- What a word means has the sense of its category. -/
theorem Means.admits (hfinite : ∀ x : Double, x.IsFinite → admissible x) {category lower : String}
    {meaning : Meaning} (h : Means category lower meaning) :
    (Sense.ofCategory category).Admits admissible meaning := by
  cases h with
  | keyword h =>
    rw [ofCategory_of_mem_keywords h]
    trivial
  | true => exact ⟨Double.ofInt_of_isFinite hfinite (by decide), .inr rfl⟩
  | false => exact ⟨Double.ofInt_of_isFinite hfinite (by decide), .inl rfl⟩
  | timer => exact IsBlock.nullary (by decide)
  | forever => rfl
  | name h =>
    simp only [List.mem_cons, List.not_mem_nil, or_false] at h
    rcases h with rfl | rfl | rfl | rfl <;> trivial
  | @ordinal _ index h =>
    have hindex : admissible (.ofInt index) := Double.ofInt_of_isFinite hfinite (lt_of_ordinal h)
    exact hindex
  | numeral h => exact hfinite _ (isFinite_of_numeral? h)
  | _ => trivial

end Senses

/-! ### Words that are understood -/

section Understood

variable {sounds : List String} {category word : String}

/-- The standard lexicon has a producer for every word that is listed, and for all words of the
open categories. -/
lemma isSome_producer?_standard {lower : String}
    (h : (∃ words produce, (category, words, produce) ∈ standardWords sounds ∧
        lower ∈ words.map Text.toLower) ∨
      ∃ produce, (category, produce) ∈ standardOpen) :
    ((standard sounds).producer? category lower).isSome := by
  rw [producer?_standard, Option.isSome_or, Bool.or_eq_true]
  refine h.imp ?_ ?_
  · rintro ⟨words, produce, hmem, hlower⟩
    rw [lastListed?, Option.isSome_map, List.find?_isSome]
    exact ⟨_, List.mem_reverse.mpr hmem, decide_eq_true ⟨rfl, hlower⟩⟩
  · rintro ⟨produce, hmem⟩
    rw [List.lookup_isSome_iff]
    exact ⟨_, List.mem_reverse.mpr hmem, beq_self_eq_true category⟩

/-- What is listed or open is understood, unless it is to be an ordinal. -/
lemma exists_lookup_standard (sounds : List String) (word : String)
    (hordinal : category ≠ "OrderAdverb")
    (h : (∃ words produce, (category, words, produce) ∈ standardWords sounds ∧
        Text.toLower word ∈ words.map Text.toLower) ∨
      ∃ produce, (category, produce) ∈ standardOpen) :
    ∃ meaning, (standard sounds).lookup category word = .ok meaning ∧
      Means category (Text.toLower word) meaning := by
  obtain ⟨produce, hproduce⟩ := Option.isSome_iff_exists.mp (isSome_producer?_standard h)
  have hlookup : (standard sounds).lookup category word = produce (Text.toLower word) := by
    rw [lookup]
    simp only [hproduce]
  have hyields : Yields (produce (Text.toLower word)) (Means category (Text.toLower word))
      (fun fault => category = "OrderAdverb" ∧
        fault = .unsupportedOrdinal (Text.toLower word)) := by
    rcases mem_of_producer?_standard hproduce with ⟨words, hlisted, -⟩ | hopen
    · exact yields_standardWords hlisted _
    · exact yields_standardOpen hopen _
  cases hresult : produce (Text.toLower word) with
  | ok meaning => exact ⟨meaning, hlookup.trans hresult, hyields.result hresult⟩
  | error fault => exact absurd (hyields.fault hresult).1 hordinal

/-- Every keyword is understood, as nothing, in whatever case it is written. -/
theorem lookup_keyword_of_toLower {words : List String} (h : (category, words) ∈ keywords)
    (hword : Text.toLower word ∈ words.map Text.toLower) :
    (standard sounds).lookup category word = .ok .null := by
  have hsense := ofCategory_of_mem_keywords h
  obtain ⟨meaning, hlookup, hmeans⟩ := exists_lookup_standard sounds word
    (by rintro rfl; exact absurd hsense (by decide))
    (.inl ⟨words, .constant .null, List.mem_append_left _ (List.mem_map.mpr ⟨_, h, rfl⟩), hword⟩)
  have hadmits : (Sense.ofCategory category).Admits (fun _ => True) meaning :=
    hmeans.admits fun _ _ => trivial
  have hcovers := hadmits.covers
  rw [hsense] at hcovers
  cases meaning with
  | null => exact hlookup
  | _ => exact hcovers.elim

theorem lookup_keyword {words : List String} (h : (category, words) ∈ keywords)
    (hword : word ∈ words) : (standard sounds).lookup category word = .ok .null :=
  lookup_keyword_of_toLower h (List.mem_map_of_mem hword)

/-- Every word can name a variable. -/
theorem lookup_variableName (sounds : List String) (word : String) :
    (standard sounds).lookup "VARIABLE_NAME" word = .ok (.variableName (Text.toLower word)) := by
  obtain ⟨meaning, hlookup, hmeans⟩ := exists_lookup_standard sounds word
    (by decide : "VARIABLE_NAME" ≠ "OrderAdverb")
    (.inr ⟨Producer.variableName, by simp [standardOpen]⟩)
  generalize hcategory : "VARIABLE_NAME" = category at hmeans
  cases hmeans with
  | variableName => exact hlookup
  | keyword h => exact absurd (ofCategory_of_mem_keywords (hcategory ▸ h)) (by decide)
  | name h => exact absurd (hcategory ▸ h) (by decide)
  | _ => exact absurd hcategory (by decide)

end Understood

end Lexicon

end PhraseScript
