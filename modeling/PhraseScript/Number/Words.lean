import PhraseScript.Number.Literal
import PhraseScript.Text.Blank

/-!
# Words that name numbers

A resolver turns the word in a number slot into a number.  The one that is always there
reads numerals (`numeral?`); others may know more words.
-/

namespace PhraseScript

/-- Turns a word into the number it names, if it names one. -/
abbrev NumberWords := String → Option Double

/-- The finite number that a numeral denotes, blanks around it aside. -/
def numeral? (word : String) : Option Double :=
  (Literal.read? (Text.trim word.toList)).bind fun literal =>
    if literal.toDouble.IsFinite then some literal.toDouble else none

namespace NumberWords

/-- The resolver that reads numerals and knows no other words. -/
def numerals : NumberWords := numeral?

/-- A resolver that knows some words by heart and asks another one for the rest. -/
def extending (known : List (String × Double)) (fallback : NumberWords) : NumberWords :=
  fun word => (known.lookup word).or (fallback word)

end NumberWords

end PhraseScript
