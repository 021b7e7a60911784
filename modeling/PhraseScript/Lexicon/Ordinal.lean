import PhraseScript.Fault

/-!
# Ordinal numbers

The words that count the steps of a sentence, from "first" to "seventh".
-/

namespace PhraseScript.Ordinal

/-- The ordinals and the numbers they stand for. -/
def table : List (String × Nat) :=
  [("first", 1), ("firstly", 1), ("second", 2), ("secondly", 2), ("third", 3), ("thirdly", 3),
    ("fourth", 4), ("fourthly", 4), ("fifth", 5), ("fifthly", 5), ("sixth", 6), ("sixthly", 6),
    ("seventh", 7)]

/-- The number that an ordinal stands for. -/
def index (word : String) : Except Fault Nat :=
  match table.lookup word with
  | some index => .ok index
  | none => .error (.unsupportedOrdinal word)

end PhraseScript.Ordinal
