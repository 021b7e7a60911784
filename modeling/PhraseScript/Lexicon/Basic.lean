import PhraseScript.Dictionary
import PhraseScript.Fault
import PhraseScript.Meaning.Basic
import PhraseScript.Text.LowerCase

/-!
# Lexicons

A lexicon gives the words of each category their meanings.  A category lists words, and may
be open to all others besides.  Words are looked up in lower case.
-/

namespace PhraseScript

/-- What gives a word, in lower case, its meaning. -/
abbrev Producer := String → Except Fault Meaning

/-- A category of a lexicon. -/
structure WordClass where
  /-- The listed words. -/
  words : Dictionary Producer := ∅
  /-- What takes the words that are not listed. -/
  others : Option Producer := none

/-- The categories of a lexicon, by name. -/
structure Lexicon where
  classes : Dictionary WordClass := ∅

namespace Lexicon

instance : EmptyCollection Lexicon := ⟨{}⟩

/-- What a lexicon has on a category. -/
def wordClass (lexicon : Lexicon) (category : String) : WordClass :=
  (lexicon.classes.get? category).getD {}

/-- Lists a word in a category. -/
def addWord (lexicon : Lexicon) (category word : String) (produce : Producer) : Lexicon :=
  let wordClass := lexicon.wordClass category
  ⟨lexicon.classes.insert category
    { wordClass with words := wordClass.words.insert (Text.toLower word) produce }⟩

/-- Lists several words in a category. -/
def addWords (lexicon : Lexicon) (category : String) (words : List String)
    (produce : Producer) : Lexicon :=
  words.foldl (fun lexicon word => lexicon.addWord category word produce) lexicon

/-- Opens a category to all words that it does not list. -/
def addOpen (lexicon : Lexicon) (category : String) (produce : Producer) : Lexicon :=
  ⟨lexicon.classes.insert category
    { lexicon.wordClass category with others := some produce }⟩

/-- What gives a word in lower case its meaning in a category, if the word is in it. -/
def producer? (lexicon : Lexicon) (category word : String) : Option Producer :=
  let wordClass := lexicon.wordClass category
  (wordClass.words.get? word).or wordClass.others

/-- The meaning of a word of a category. -/
def lookup (lexicon : Lexicon) (category word : String) : Except Fault Meaning :=
  let lower := Text.toLower word
  match lexicon.producer? category lower with
  | some produce => produce lower
  | none => .error (.unknownWord category word)

/-- The listed words of each category.  Categories that are only open have none. -/
def vocabulary (lexicon : Lexicon) : Dictionary (List String) :=
  lexicon.classes.map (·.words.keys)

theorem wordClass_addWord (lexicon : Lexicon) (category word other : String)
    (produce : Producer) :
    (lexicon.addWord category word produce).wordClass other =
      if other = category then
        { lexicon.wordClass category with
          words := (lexicon.wordClass category).words.insert (Text.toLower word) produce }
      else lexicon.wordClass other := by
  rw [wordClass, addWord, Dictionary.get?_insert]
  split <;> rfl

theorem wordClass_addOpen (lexicon : Lexicon) (category other : String) (produce : Producer) :
    (lexicon.addOpen category produce).wordClass other =
      if other = category then { lexicon.wordClass category with others := some produce }
      else lexicon.wordClass other := by
  rw [wordClass, addOpen, Dictionary.get?_insert]
  split <;> rfl

/-- A word that has just been listed is found, and nothing else is found differently. -/
theorem producer?_addWord (lexicon : Lexicon) (category word other lower : String)
    (produce : Producer) :
    (lexicon.addWord category word produce).producer? other lower =
      if other = category ∧ lower = Text.toLower word then some produce
      else lexicon.producer? other lower := by
  rw [producer?, wordClass_addWord]
  by_cases hc : other = category
  · subst hc
    by_cases hl : lower = Text.toLower word
    · simp [hl, Dictionary.get?_insert]
    · simp [hl, Dictionary.get?_insert, producer?]
  · simp [hc, producer?]

/-- A category that has just been opened gives words that it does not list to the producer. -/
theorem producer?_addOpen (lexicon : Lexicon) (category other lower : String)
    (produce : Producer) :
    (lexicon.addOpen category produce).producer? other lower =
      if other = category then ((lexicon.wordClass category).words.get? lower).or (some produce)
      else lexicon.producer? other lower := by
  rw [producer?, wordClass_addOpen]
  by_cases hc : other = category <;> simp [hc, producer?]

end Lexicon

end PhraseScript
