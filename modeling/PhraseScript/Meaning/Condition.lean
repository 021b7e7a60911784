import PhraseScript.Meaning.Basic

/-!
# Conditions

How modifiers and comparators turn into expressions once the values they wait for are there.
A negation is a `not` around what it negates; an affirmation leaves no trace.
-/

namespace PhraseScript

/-- A `not` around a meaning. -/
def Meaning.negated (meaning : Meaning) : Meaning := .expression (.mk Opcode.not [meaning])

/-- Puts one layer around a meaning. -/
def Polarity.around (polarity : Polarity) (meaning : Meaning) : Meaning :=
  match polarity with
  | .affirm => meaning
  | .negate => meaning.negated

/-- Puts the layers of a modifier around a meaning, the last one innermost. -/
def Modifier.around (modifier : Modifier) (meaning : Meaning) : Meaning :=
  modifier.layers.foldr Polarity.around meaning

/-- The expression that compares two values.  The two relations that allow equality are a
choice between the strict relation and equality. -/
def Relation.between (relation : Relation) (left right : Meaning) : Meaning :=
  let compare (opcode : String) : Meaning := .expression (.mk opcode [left, right])
  let either (opcode : String) : Meaning :=
    .expression (.mk Opcode.or [compare opcode, compare Opcode.equal])
  match relation with
  | .less => compare Opcode.less
  | .greater => compare Opcode.greater
  | .equal => compare Opcode.equal
  | .greaterOrEqual => either Opcode.greater
  | .lessOrEqual => either Opcode.less

/-- The condition that a comparator makes of two values. -/
def Comparator.between (comparator : Comparator) (left right : Meaning) : Meaning :=
  let base := comparator.relation.between left right
  match comparator.modifier with
  | some modifier => modifier.around base
  | none => base

end PhraseScript
