import Mathlib.Data.List.Induction
import Mathlib.Tactic.Lemma
import PhraseScript.Lexicon.Standard
import PhraseScript.Proofs.LetterCase

/-!
# Lexicons by their registrations

A lexicon is made by listing words in categories and by opening categories, in any order and as
often as one likes.  A word is looked up by what was registered last: for the word itself, or else
for its category (`Lexicon.vocabulary_describes_lookup`).  The vocabulary lists just the words that
are found in the first way, and as they are listed in lower case, which is put on once, they can be
looked up again.
-/

namespace PhraseScript.Lexicon

/-- A thing done to a lexicon. -/
inductive Registration where
  /-- Words are listed in a category. -/
  | listing (category : String) (words : List String) (produce : Producer)
  /-- A category is opened to all words. -/
  | opening (category : String) (produce : Producer)

namespace Registration

/-- The lexicon with the registration. -/
def addTo (lexicon : Lexicon) : Registration → Lexicon
  | .listing category words produce => lexicon.addWords category words produce
  | .opening category produce => lexicon.addOpen category produce

/-- What a registration gives to a word in lower case, if it lists it in the category. -/
def listed? (category lower : String) : Registration → Option Producer
  | .listing other words produce =>
    if other = category ∧ lower ∈ words.map Text.toLower then some produce else none
  | .opening _ _ => none

/-- What a registration gives to the words that are not listed, if it opens the category. -/
def opened? (category : String) : Registration → Option Producer
  | .listing _ _ _ => none
  | .opening other produce => if other = category then some produce else none

/-- The registration says something of a category: it lists a word in it, or opens it. -/
def Concerns (category : String) : Registration → Prop
  | .listing other words _ => other = category ∧ words ≠ []
  | .opening other _ => other = category

end Registration

/-- The lexicon that some registrations make, one after the other. -/
def registered (history : List Registration) : Lexicon := history.foldl Registration.addTo ∅

/-- What was registered last for a word in lower case. -/
def latestListing? (history : List Registration) (category lower : String) : Option Producer :=
  history.reverse.findSome? (·.listed? category lower)

/-- What was registered last for the words of a category that are not listed. -/
def latestOpening? (history : List Registration) (category : String) : Option Producer :=
  history.reverse.findSome? (·.opened? category)

/-- The words that the vocabulary has for a category: none, if it does not have the category. -/
def vocabularyOf (lexicon : Lexicon) (category : String) : List String :=
  (lexicon.vocabulary.get? category).getD []

/-- A look-up fails in the lexicon itself: there is nothing that could be asked for a meaning. -/
def Misses (lexicon : Lexicon) (category word : String) : Prop :=
  lexicon.producer? category (Text.toLower word) = none

/-! ### The standard lexicon -/

/-- The registrations of the standard lexicon. -/
def standardRegistrations (sounds : List String) : List Registration :=
  (standardWords sounds).map (fun (category, words, produce) =>
    .listing category words produce) ++
  standardOpen.map fun (category, produce) => .opening category produce

lemma registered_standardRegistrations (sounds : List String) :
    registered (standardRegistrations sounds) = standard sounds := by
  rw [registered, standardRegistrations, List.foldl_append, List.foldl_map, List.foldl_map]
  rfl

lemma registered_append (history later : List Registration) :
    registered (history ++ later) = later.foldl Registration.addTo (registered history) :=
  List.foldl_append

/-! ### What one registration does -/

variable {lexicon : Lexicon} {history : List Registration} {category lower word : String}

lemma get?_words_addWords (lexicon : Lexicon) (listed : String) (words : List String)
    (produce : Producer) :
    ((lexicon.addWords listed words produce).wordClass category).words.get? lower =
      if listed = category ∧ lower ∈ words.map Text.toLower then some produce
      else (lexicon.wordClass category).words.get? lower := by
  induction words generalizing lexicon with
  | nil => simp [addWords]
  | cons word rest ih =>
    show (((lexicon.addWord listed word produce).addWords listed rest produce).wordClass
      category).words.get? lower = _
    rw [ih, wordClass_addWord]
    by_cases hcategory : category = listed
    · by_cases hword : lower = Text.toLower word <;>
        simp [hcategory, hword, Dictionary.get?_insert]
    · simp [hcategory, Ne.symm hcategory]

lemma others_addWords (lexicon : Lexicon) (listed : String) (words : List String)
    (produce : Producer) :
    ((lexicon.addWords listed words produce).wordClass category).others =
      (lexicon.wordClass category).others := by
  refine List.foldlRecOn (motive := fun changed : Lexicon =>
    (changed.wordClass category).others = (lexicon.wordClass category).others) words _ rfl ?_
  intro changed h word _
  rw [wordClass_addWord]
  split
  · next heq => exact heq ▸ h
  · exact h

lemma contains_addWords (lexicon : Lexicon) (listed : String) (words : List String)
    (produce : Producer) :
    (lexicon.addWords listed words produce).classes.contains category = true ↔
      (listed = category ∧ words ≠ []) ∨ lexicon.classes.contains category = true := by
  induction words generalizing lexicon with
  | nil => simp [addWords]
  | cons word rest ih =>
    show ((lexicon.addWord listed word produce).addWords listed rest produce).classes.contains
      category = true ↔ _
    rw [ih, addWord, Dictionary.contains_insert]
    by_cases hcategory : category = listed
    · simp [hcategory]
    · simp [hcategory, Ne.symm hcategory]

lemma get?_words_addTo (registration : Registration) :
    ((registration.addTo lexicon).wordClass category).words.get? lower =
      (registration.listed? category lower).or
        ((lexicon.wordClass category).words.get? lower) := by
  cases registration with
  | listing listed words produce =>
    rw [Registration.addTo, get?_words_addWords, Registration.listed?]
    split <;> rfl
  | opening opened produce =>
    rw [Registration.addTo, wordClass_addOpen, Registration.listed?, Option.none_or]
    split
    · next heq => rw [heq]
    · rfl

lemma others_addTo (registration : Registration) :
    ((registration.addTo lexicon).wordClass category).others =
      (registration.opened? category).or (lexicon.wordClass category).others := by
  cases registration with
  | listing listed words produce =>
    rw [Registration.addTo, others_addWords, Registration.opened?, Option.none_or]
  | opening opened produce =>
    rw [Registration.addTo, wordClass_addOpen, Registration.opened?]
    by_cases hcategory : category = opened
    · simp [hcategory]
    · simp [hcategory, Ne.symm hcategory]

lemma contains_addTo (registration : Registration) :
    (registration.addTo lexicon).classes.contains category = true ↔
      registration.Concerns category ∨ lexicon.classes.contains category = true := by
  cases registration with
  | listing listed words produce => exact contains_addWords lexicon listed words produce
  | opening opened produce =>
    rw [Registration.addTo, addOpen, Dictionary.contains_insert, Registration.Concerns,
      Bool.or_eq_true, decide_eq_true_iff, eq_comm]

/-! ### What all of them do -/

/-- The listed words are found as they were registered last. -/
lemma get?_words_registered (history : List Registration) (category lower : String) :
    ((registered history).wordClass category).words.get? lower =
      latestListing? history category lower := by
  induction history using List.reverseRecOn with
  | nil => rfl
  | append_singleton history registration ih =>
    rw [registered_append, List.foldl_cons, List.foldl_nil, get?_words_addTo, ih, latestListing?,
      latestListing?, List.reverse_concat, List.findSome?_cons]
    cases registration.listed? category lower <;> rfl

/-- The other words are taken by what opened their category last. -/
lemma others_registered (history : List Registration) (category : String) :
    ((registered history).wordClass category).others = latestOpening? history category := by
  induction history using List.reverseRecOn with
  | nil => rfl
  | append_singleton history registration ih =>
    rw [registered_append, List.foldl_cons, List.foldl_nil, others_addTo, ih, latestOpening?,
      latestOpening?, List.reverse_concat, List.findSome?_cons]
    cases registration.opened? category <;> rfl

lemma contains_registered (history : List Registration) (category : String) :
    (registered history).classes.contains category = true ↔
      ∃ registration ∈ history, registration.Concerns category := by
  induction history using List.reverseRecOn with
  | nil => exact iff_of_false Bool.false_ne_true (by simp)
  | append_singleton history registration ih =>
    rw [registered_append, List.foldl_cons, List.foldl_nil, contains_addTo, ih]
    simp [or_and_right, exists_or, or_comm]

lemma producer?_registered (history : List Registration) (category lower : String) :
    (registered history).producer? category lower =
      (latestListing? history category lower).or (latestOpening? history category) := by
  rw [producer?, get?_words_registered, others_registered]

/-! ### The vocabulary -/

lemma vocabularyOf_eq (lexicon : Lexicon) (category : String) :
    lexicon.vocabularyOf category = (lexicon.wordClass category).words.keys := by
  rw [vocabularyOf, vocabulary, Dictionary.get?_map, wordClass]
  cases lexicon.classes.get? category <;> rfl

lemma mem_vocabularyOf_iff :
    lower ∈ (registered history).vocabularyOf category ↔
      (latestListing? history category lower).isSome := by
  rw [vocabularyOf_eq, ← Dictionary.contains_iff_mem_keys, Dictionary.contains,
    get?_words_registered]

/-- What is listed is in lower case. -/
lemma toLower_of_mem_vocabularyOf (h : lower ∈ (registered history).vocabularyOf category) :
    Text.toLower lower = lower := by
  obtain ⟨produce, hproduce⟩ := Option.isSome_iff_exists.mp (mem_vocabularyOf_iff.mp h)
  obtain ⟨registration, -, hlisted⟩ := List.exists_of_findSome?_eq_some hproduce
  cases registration with
  | opening => cases hlisted
  | listing listed words produce =>
    rw [Registration.listed?] at hlisted
    split at hlisted
    · next hmem =>
      obtain ⟨word, -, rfl⟩ := List.mem_map.mp hmem.2
      exact Text.toLower_toLower word
    · cases hlisted

/-- A word is looked up by what was registered last for it in lower case, or else for its category;
where there is neither, the look-up fails with the word as it is given.  The vocabulary tells when
that is: it has the categories of which something was registered, and with them the words that are
listed, each of which is looked up by its own entry.  The standard lexicon, and what is made of it,
are lexicons of this kind. -/
theorem vocabulary_describes_lookup (history : List Registration) :
    (∀ sounds, history.foldl Registration.addTo (standard sounds) =
      registered (standardRegistrations sounds ++ history)) ∧
    (∀ category word, (registered history).Misses category word ↔
      latestOpening? history category = none ∧
        Text.toLower word ∉ (registered history).vocabularyOf category) ∧
    (∀ category word, (registered history).Misses category word →
      (registered history).lookup category word = .error (.unknownWord category word)) ∧
    (∀ category word, ¬(registered history).Misses category word →
      ∃ produce, (latestListing? history category (Text.toLower word)).or
          (latestOpening? history category) = some produce ∧
        (registered history).lookup category word = produce (Text.toLower word)) ∧
    (∀ category, ((registered history).vocabulary.get? category).isSome ↔
      ∃ registration ∈ history, registration.Concerns category) ∧
    ∀ category, ∀ listed ∈ (registered history).vocabularyOf category,
      ∃ produce, latestListing? history category listed = some produce ∧
        (registered history).lookup category listed = produce listed := by
  refine ⟨fun sounds => ?_, fun category word => ?_, fun category word hmisses => ?_,
    fun category word hmisses => ?_, fun category => ?_, fun category listed hlisted => ?_⟩
  · rw [registered_append, registered_standardRegistrations]
  · rw [Misses, producer?_registered, Option.or_eq_none_iff, mem_vocabularyOf_iff,
      Option.not_isSome_iff_eq_none, and_comm]
  · have hnone : (registered history).producer? category (Text.toLower word) = none := hmisses
    rw [lookup, hnone]
  · obtain ⟨produce, hproduce⟩ := Option.ne_none_iff_exists'.mp hmisses
    exact ⟨produce, producer?_registered history .. ▸ hproduce, by rw [lookup, hproduce]⟩
  · rw [vocabulary, Dictionary.get?_map, Option.isSome_map]
    exact contains_registered history category
  · obtain ⟨produce, hproduce⟩ := Option.isSome_iff_exists.mp (mem_vocabularyOf_iff.mp hlisted)
    refine ⟨produce, hproduce, ?_⟩
    rw [lookup, toLower_of_mem_vocabularyOf hlisted, producer?_registered, hproduce]
    rfl

/-- Words in upper case are listed and looked up in lower case, also with a sigma at the end.  One
that is missed is reported as it is given. -/
theorem vocabulary_describes_lookup_upperCase :
    let lexicon := registered [.listing "Color" ["Red", "ΦΩΣ"] fun word => .ok (.text word)]
    lexicon.vocabularyOf "Color" = ["red", "φως"] ∧
      lexicon.lookup "Color" "RED" = .ok (.text "red") ∧
      lexicon.lookup "Color" "ΦΩΣ" = .ok (.text "φως") ∧
      lexicon.lookup "Color" "BLUE" = .error (.unknownWord "Color" "BLUE") := by
  intro lexicon
  obtain ⟨-, hmisses, hmissed, hfound, -, -⟩ := vocabulary_describes_lookup
    [.listing "Color" ["Red", "ΦΩΣ"] fun word => .ok (.text word)]
  obtain ⟨hred, hfos, hblue, hlisted⟩ : Text.toLower "RED" = "red" ∧ Text.toLower "ΦΩΣ" = "φως" ∧
      Text.toLower "BLUE" = "blue" ∧ lexicon.vocabularyOf "Color" = ["red", "φως"] := by
    decide +kernel
  have hlookup (word : String) (h : Text.toLower word ∈ ["red", "φως"]) :
      lexicon.lookup "Color" word = .ok (.text (Text.toLower word)) := by
    obtain ⟨produce, hproduce, hlookup⟩ := hfound "Color" word fun hmiss =>
      ((hmisses _ _).mp hmiss).2 (hlisted ▸ h)
    simp only [latestListing?, latestOpening?, List.reverse_singleton, List.findSome?_singleton,
      Registration.listed?, Registration.opened?, Option.or_none, Option.ite_none_right_eq_some,
      Option.some.injEq] at hproduce
    obtain ⟨-, rfl⟩ := hproduce
    exact hlookup
  refine ⟨hlisted, ?_, ?_, ?_⟩
  · rw [hlookup _ (by simp [hred]), hred]
  · rw [hlookup _ (by simp [hfos]), hfos]
  · exact hmissed _ _ ((hmisses _ _).mpr ⟨rfl, by rw [hlisted, hblue]; decide⟩)

end PhraseScript.Lexicon
