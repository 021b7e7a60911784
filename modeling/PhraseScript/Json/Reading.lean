import PhraseScript.Json.Basic
import PhraseScript.Json.Written

/-!
# Values of JSON texts

Turning a value as written into a `Json`: strings must have contents, numbers must be in
range, and of several members with one key the last counts.

An integer that fits into 64 bits stays an integer.  Every other number becomes a double in
steps: the leading digits that fit into 64 bits are rounded to a double, which is then
multiplied or divided by a rounded power of ten.  Most numbers come out as the nearest double;
some with many digits or a large exponent are one place off.
-/

namespace PhraseScript

namespace Magnitude

/-- The magnitude nearest to `10 ^ n`, for exponents up to 308. -/
def powerOfTen? (n : Nat) : Option Magnitude := nearest? (tenTo n) 1

/-- Multiplies by a power of ten, in one rounded step, or in two for the smallest results;
`none` when the result is too large. -/
def scaleByTen? (m : Magnitude) (exponent : Int) : Option Magnitude :=
  if m.quanta = 0 then some .zero
  else if 308 < exponent then none
  else if 0 ≤ exponent then do m.mul? (← powerOfTen? exponent.toNat)
  else if -308 ≤ exponent then do m.div? (← powerOfTen? (-exponent).toNat)
  else if -616 ≤ exponent then do
    (← m.div? (← powerOfTen? 308)).div? (← powerOfTen? (-exponent - 308).toNat)
  else some .zero

end Magnitude

namespace Json

/-- Goes on reading digits as long as the number fits into 64 bits: the number, and the
digits that are left over. -/
def takeDigits (read : Nat) : List Char → Nat × List Char
  | [] => (read, [])
  | c :: rest =>
    let next := 10 * read + (c.toNat - '0'.toNat)
    if next < twoTo 64 then takeDigits next rest else (read, c :: rest)

/-- The number of a literal, if it is in range. -/
def Number.ofLiteral? (l : Literal) : Option Number :=
  let (whole, left) := takeDigits 0 l.whole
  let real (significand : Nat) (exponent : Int) : Option Number := do
    let rounded ← Magnitude.nearest? significand 1
    return .real l.negative (← rounded.scaleByTen? exponent)
  match l.fraction, l.exponent with
  | none, none =>
    if left ≠ [] then real whole left.length
    else if !l.negative then some (.integer whole)
    else if 0 < whole ∧ whole ≤ twoTo 63 then some (.integer (-(whole : Int)))
    else real whole 0
  | fraction, exponent =>
    let fraction := fraction.getD []
    let (significand, unread) := takeDigits whole fraction
    let used : Int := fraction.length - unread.length
    real significand (left.length - used + exponent.getD 0)

namespace Written

mutual

/-- The JSON value of a value as written. -/
def value? : Written → Option Json
  | .null => some .null
  | .bool value => some (.bool value)
  | .number literal => (Number.ofLiteral? literal).map .number
  | .string contents => contents.map .string
  | .array items => (itemValues? items).map .array
  | .object members => (memberValues? members).map ofMembers

/-- The JSON values of items. -/
def itemValues? : List Written → Option (List Json)
  | [] => some []
  | item :: rest => do return (← value? item) :: (← itemValues? rest)

/-- The keys and JSON values of members, in order, repetitions included. -/
def memberValues? : List (Option String × Written) → Option (List (String × Json))
  | [] => some []
  | (key, value) :: rest => do return (← key, ← value? value) :: (← memberValues? rest)

end

/-- The JSON value of a value as written in which at most so many arrays and objects are open
at once. -/
def within? (allowance : Nat) (written : Written) : Option Json :=
  if written.depth ≤ allowance then written.value? else none

end Written

/-- How many arrays and objects may be open at once in a text that is read. -/
def maxDepth : Nat := 127

/-- Reads a text as a JSON value. -/
def read? (text : String) : Option Json := do (← Written.read? text).within? maxDepth

end Json

end PhraseScript
