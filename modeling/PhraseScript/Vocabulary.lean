import PhraseScript.Evaluation
import PhraseScript.Json.Writer

/-!
# Vocabularies

What a language can be told in: the listed words of each category, and its rules.
-/

namespace PhraseScript

/-- The words and rules of a language. -/
structure Vocabulary where
  categories : Dictionary (List String)
  /-- The texts of the rules. -/
  rules : List String

namespace Vocabulary

/-- The vocabulary of a language. -/
def ofLanguage (language : Language) : Vocabulary :=
  ⟨language.lexicon.vocabulary, language.rules.keys.map RuleKey.text⟩

/-- The categories as an object of arrays. -/
def categoriesJson (vocabulary : Vocabulary) : Json :=
  .object (vocabulary.categories.map fun words => .array (words.map .string)).entries

/-- The rules as an array. -/
def rulesJson (vocabulary : Vocabulary) : Json := .array (vocabulary.rules.map .string)

/-- A vocabulary as an object. -/
def toJson (vocabulary : Vocabulary) : Json :=
  .ofMembers [("categories", vocabulary.categoriesJson), ("rules", vocabulary.rulesJson)]

/-- The text of a vocabulary, the categories first. -/
def text (vocabulary : Vocabulary) : String :=
  Json.record [("categories", vocabulary.categoriesJson.compact),
    ("rules", vocabulary.rulesJson.compact)]

end Vocabulary

end PhraseScript
