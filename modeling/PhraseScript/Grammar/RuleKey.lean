import PhraseScript.Text.Blank

/-!
# Rules and their texts

A rule of the grammar is named by its two sides.  Its text has an arrow between them, and
single spaces between the symbols of the right-hand side; any text of that form, however it
is spaced, is read as a rule (`RuleKey.parse?`).
-/

namespace PhraseScript

/-- A rule of the grammar: what it derives, and from what. -/
structure RuleKey where
  lhs : String
  rhs : List String
deriving DecidableEq, Repr

namespace RuleKey

/-- All symbols of a rule, the derived one first.  Rules are ordered by this list. -/
def symbols (key : RuleKey) : List String := key.lhs :: key.rhs

/-- One list of symbols does not come after another: the first symbols in which they differ
decide, and the beginning of a list comes before the whole. -/
def precede : List String → List String → Bool
  | [], _ => true
  | _ :: _, [] => false
  | a :: as, b :: bs => a < b || (a = b && precede as bs)

instance : LE RuleKey := ⟨fun a b => precede a.symbols b.symbols = true⟩

instance (a b : RuleKey) : Decidable (a ≤ b) :=
  inferInstanceAs (Decidable (precede a.symbols b.symbols = true))

/-- The text of a rule. -/
def text (key : RuleKey) : String := key.lhs ++ " -> " ++ " ".intercalate key.rhs

/-- The parts of a text before and after its first arrow. -/
def splitArrow? : List Char → Option (List Char × List Char)
  | [] => none
  | '-' :: '>' :: rest => some ([], rest)
  | c :: rest => (splitArrow? rest).map fun (before, after) => (c :: before, after)

/-- Reads the text of a rule.  There has to be one symbol before the first arrow and at least
one after it. -/
def parse? (declaration : String) : Option RuleKey := do
  let (before, after) ← splitArrow? declaration.toList
  let lhs := Text.trim before
  let rhs := Text.words after
  if lhs = [] ∨ lhs.any Text.isBlank ∨ rhs = [] then none
  else some ⟨String.ofList lhs, rhs.map String.ofList⟩

end RuleKey

end PhraseScript
