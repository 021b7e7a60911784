import PhraseScript.Number.Double

/-!
# Decimal texts of magnitudes

A magnitude is written with the fewest decimal digits that read back to it; of several such
decimals the one nearest to the magnitude is taken.  Two decimals can be equally near, and
which of them is written is a choice of the output format (`Tie`).

A decimal can then be laid out without an exponent (`Decimal.positional`) or with one
(`Decimal.scientific`).
-/

namespace PhraseScript

/-- A natural number in decimal. -/
def naturalText (n : Nat) : String := String.ofList (Nat.toDigits 10 n)

/-- The decimal `digits * 10 ^ exponent`. -/
structure Decimal where
  /-- The significant digits, read as one number. -/
  digits : Nat
  exponent : Int
deriving DecidableEq, Repr

/-- Which of two equally near decimals is written. -/
inductive Tie where
  /-- The one whose last digit is even. -/
  | even
  /-- The larger one. -/
  | up
deriving DecidableEq

/-- The nearer of the decimals on both sides of a number, by how the point halfway between them
compares with the number. -/
def Tie.nearer (tie : Tie) (below above : Decimal) : Ordering → Decimal
  | .lt => above
  | .gt => below
  | .eq => if tie = .even ∧ below.digits % 2 = 0 then below else above

namespace Decimal

/-- Compares a decimal with `n` half quanta, that is with `n * 2 ^ (-1075)`. -/
def compareHalves (d : Decimal) (n : Nat) : Ordering :=
  compare (d.digits * tenTo d.exponent.toNat * (2 * Magnitude.unit))
    (n * tenTo (-d.exponent).toNat)

/-- The significant digits as text. -/
def digitText (d : Decimal) : List Char := Nat.toDigits 10 d.digits

/-- The exponent of the leading digit: the decimal lies between that power of ten and the
next one. -/
def leadingExponent (d : Decimal) : Int := d.digitText.length + d.exponent - 1

end Decimal

namespace Magnitude

/-- A decimal reads back to a magnitude when it lies between the points halfway to the two
neighbouring magnitudes.  Those points themselves round to the even significand. -/
def ReadsBack (m : Magnitude) (d : Decimal) : Prop :=
  let lower := d.compareHalves (2 * m.quanta - spacing (m.quanta - 1))
  let upper := d.compareHalves (2 * m.quanta + spacing m.quanta)
  let even := m.quanta / spacing m.quanta % 2 = 0
  (lower = .gt ∨ (lower = .eq ∧ even)) ∧ (upper = .lt ∨ (upper = .eq ∧ even))

instance (m : Magnitude) (d : Decimal) : Decidable (m.ReadsBack d) :=
  inferInstanceAs (Decidable ((_ ∨ (_ ∧ _ = _)) ∧ (_ ∨ (_ ∧ _ = _))))

/-- For a positive magnitude, the least `k` with `m < 10 ^ k`.  Scaled by `10 ^ 324` every
positive magnitude is at least one, so that its whole part shows all places. -/
def decimalPlaces (m : Magnitude) : Int :=
  ((Nat.toDigits 10 (m.quanta * tenTo 324 / unit)).length : Int) - 324

/-- The largest decimal with that exponent that does not exceed the magnitude. -/
def decimalBelow (m : Magnitude) (exponent : Int) : Decimal :=
  ⟨m.quanta * tenTo (-exponent).toNat / (unit * tenTo exponent.toNat), exponent⟩

/-- The next decimal after `decimalBelow`, written with a single digit when it is a power
of ten. -/
def decimalAbove (m : Magnitude) (count : Nat) : Decimal :=
  let exponent := m.decimalPlaces - count
  let digits := (m.decimalBelow exponent).digits + 1
  if digits = tenTo count then ⟨1, m.decimalPlaces⟩ else ⟨digits, exponent⟩

/-- The nearer of the two decimals with `count` digits around a magnitude. -/
def nearestDecimal (tie : Tie) (m : Magnitude) (count : Nat) : Decimal :=
  let below := m.decimalBelow (m.decimalPlaces - count)
  tie.nearer below (m.decimalAbove count)
    (Decimal.compareHalves ⟨2 * below.digits + 1, below.exponent⟩ (4 * m.quanta))

/-- A decimal with `count` digits that reads back, if there is one. -/
def shortDecimal? (tie : Tie) (m : Magnitude) (count : Nat) : Option Decimal :=
  let below := m.decimalBelow (m.decimalPlaces - count)
  let above := m.decimalAbove count
  if m.ReadsBack below then
    if m.ReadsBack above then some (m.nearestDecimal tie count) else some below
  else if m.ReadsBack above then some above else none

/-- The shortest decimal that reads back to a magnitude, the nearest one of that length.
Seventeen digits always read back. -/
def shortest (tie : Tie) (m : Magnitude) : Decimal :=
  if m.quanta = 0 then ⟨0, 0⟩
  else
    ((List.range' 1 16).findSome? (m.shortDecimal? tie)).getD (m.nearestDecimal tie 17)

end Magnitude

namespace Decimal

/-- A decimal without an exponent: only as many digits as it has, filled up with zeros
towards the point. -/
def positional (d : Decimal) : String :=
  let digits := d.digitText
  if 0 ≤ d.exponent then
    String.ofList (digits ++ List.replicate d.exponent.toNat '0')
  else
    let places := (-d.exponent).toNat
    if digits.length ≤ places then
      String.ofList ('0' :: '.' :: (List.replicate (places - digits.length) '0' ++ digits))
    else
      String.ofList (digits.take (digits.length - places) ++
        '.' :: digits.drop (digits.length - places))

/-- A decimal with one digit before the point and a signed exponent; a single digit has no
point. -/
def scientific (d : Decimal) : String :=
  let mantissa := match d.digitText with
    | [] => []
    | [digit] => [digit]
    | digit :: rest => digit :: '.' :: rest
  let exponent := d.leadingExponent
  let sign := if 0 ≤ exponent then '+' else '-'
  String.ofList (mantissa ++ 'e' :: sign :: Nat.toDigits 10 exponent.natAbs)

end Decimal

/-- A double as plain text: never an exponent, no point in a whole number, and the sign of
zero is kept.  Of two equally near decimals the larger is written. -/
def Double.plainText : Double → String
  | .nan => "NaN"
  | .infinite negative => if negative then "-inf" else "inf"
  | .finite negative magnitude =>
    (if negative then "-" else "") ++ (magnitude.shortest .up).positional

end PhraseScript
