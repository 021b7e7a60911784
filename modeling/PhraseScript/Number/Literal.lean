import PhraseScript.Number.Double

/-!
# Decimal literals

The written form of a number: a sign, digits before and after a point, and a power of ten.
Reading one off a text loses nothing that its value depends on, so the several ways to give
a literal a value (`Magnitude.ofDecimal?` for one) start from the same structure.
-/

namespace PhraseScript

/-- A number as written. -/
structure Literal where
  negative : Bool
  /-- The digits before the point. -/
  whole : List Char
  /-- The digits after the point, when there is a point. -/
  fraction : Option (List Char)
  /-- The power of ten, when one is written. -/
  exponent : Option Int
deriving DecidableEq

namespace Literal

/-- The number that digits stand for, after the digits already read. -/
def digitsValue : Nat → List Char → Nat
  | read, [] => read
  | read, c :: rest => digitsValue (10 * read + (c.toNat - '0'.toNat)) rest

/-- Takes a sign off the front: whether it is a minus, and what follows. -/
def splitSign : List Char → Bool × List Char
  | '-' :: rest => (true, rest)
  | '+' :: rest => (false, rest)
  | cs => (false, cs)

/-- Takes a point and the digits after it off the front. -/
def splitFraction : List Char → Option (List Char) × List Char
  | '.' :: rest => (some (rest.takeWhile Char.isDigit), rest.dropWhile Char.isDigit)
  | cs => (none, cs)

/-- An exponent that extends to the end: nothing, or an `e` followed by an integer.  `none`
when there is anything else. -/
def exponent? : List Char → Option (Option Int)
  | [] => some none
  | c :: rest =>
    let (negative, digits) := splitSign rest
    if (c = 'e' ∨ c = 'E') ∧ digits ≠ [] ∧ digits.all Char.isDigit then
      let size : Int := digitsValue 0 digits
      some (some (if negative then -size else size))
    else none

/-- Reads a whole text as a literal: a sign may be missing, the digits on one side of the
point may be missing, the power of ten may be missing. -/
def read? (cs : List Char) : Option Literal :=
  let (negative, unsigned) := splitSign cs
  let whole := unsigned.takeWhile Char.isDigit
  let (fraction, rest) := splitFraction (unsigned.dropWhile Char.isDigit)
  if whole = [] ∧ fraction.getD [] = [] then none
  else (exponent? rest).map fun exponent => ⟨negative, whole, fraction, exponent⟩

end Literal

/-- The magnitude nearest to `digits * 10 ^ exponent`; `none` when it is too large.  Outside
the range of doubles the answer is known from the number of places alone. -/
def Magnitude.ofDecimal? (digits : Nat) (exponent : Int) : Option Magnitude :=
  let places := ((Nat.toDigits 10 digits).length : Int) + exponent
  if digits = 0 ∨ places < -330 then some .zero
  else if 310 < places then none
  else nearest? (digits * tenTo exponent.toNat) (tenTo (-exponent).toNat)

/-- The double nearest to a literal. -/
def Literal.toDouble (l : Literal) : Double :=
  let fraction := l.fraction.getD []
  .signed l.negative
    (Magnitude.ofDecimal? (digitsValue 0 (l.whole ++ fraction))
      (l.exponent.getD 0 - fraction.length))

end PhraseScript
