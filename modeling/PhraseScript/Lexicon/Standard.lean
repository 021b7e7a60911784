import PhraseScript.Lexicon.Basic
import PhraseScript.Lexicon.Keywords
import PhraseScript.Lexicon.Ordinal
import PhraseScript.Number.Words

/-!
# The standard lexicon

Keywords without meaning, the few words that have one, and the categories that are open: names
and numbers can be any word.  Which sounds there are is left to the caller.
-/

namespace PhraseScript

namespace Producer

/-- Every word means the same. -/
def constant (meaning : Meaning) : Producer := fun _ => .ok meaning

/-- A word means itself. -/
def text : Producer := fun word => .ok (.text word)

/-- A word is the name of a variable. -/
def variableName : Producer := fun word => .ok (.variableName word)

/-- A word is the name of a list. -/
def listName : Producer := fun word => .ok (.listName word)

/-- A word means the number that it counts. -/
def ordinal : Producer := fun word => do return .number (.ofInt (← Ordinal.index word))

/-- A numeral means its number, any other word itself. -/
def numeralOrText : Producer := fun word =>
  .ok (match numeral? word with
    | some value => .number value
    | none => .text word)

end Producer

namespace Lexicon

/-- The duration without an end, which is also the word for it. -/
def forever : String := "forever"

/-- The sounds that are there when the caller names none. -/
def defaultSounds : List String := ["meow", "pop"]

/-- The listed words of the standard lexicon, with what gives them their meanings. -/
def standardWords (sounds : List String) : List (String × List String × Producer) :=
  keywords.map (fun (category, words) => (category, words, .constant .null)) ++
    [("BooleanLiteral", ["true"], .constant (.number (.ofInt 1))),
      ("BooleanLiteral", ["false"], .constant (.number (.ofInt 0))),
      ("POS", ["is"], .constant (.modifier (.layer .affirm))),
      ("NEG", ["not", "isn't"], .constant (.modifier (.layer .negate))),
      ("Timer", ["timer"], .constant (.expression (.mk Opcode.timer []))),
      ("Duration", [forever], .constant (.text forever)),
      ("NAME_OF_SOUND", sounds, .text),
      ("OrderAdverb", Ordinal.table.map Prod.fst, .ordinal)]

/-- The open categories of the standard lexicon.  An ordinal that is not listed is still looked
up as an ordinal, and fails there. -/
def standardOpen : List (String × Producer) :=
  [("Unk", .numeralOrText), ("VARIABLE_NAME", .variableName), ("LIST_NAME", .listName),
    ("MESSAGE_NAME", .text), ("KEY_NAME", .text), ("BACKDROP_NAME", .text),
    ("OrderAdverb", .ordinal)]

/-- The standard lexicon with those sounds. -/
def standard (sounds : List String) : Lexicon :=
  let listed := (standardWords sounds).foldl
    (fun lexicon (category, words, produce) => lexicon.addWords category words produce) ∅
  standardOpen.foldl (fun lexicon (category, produce) => lexicon.addOpen category produce) listed

end Lexicon

end PhraseScript
