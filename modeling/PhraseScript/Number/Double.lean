/-!
# Double-precision numbers as exact values

Every finite double is a whole number of *quanta* of size `2 ^ (-1074)`.  A magnitude is such
a whole number, restricted to those that a significand of 53 bits can hold; a double is a
signed magnitude, an infinity, or no number at all.  With this reading comparison, wholeness
and rounding are questions about natural numbers.
-/

namespace PhraseScript

/-- A power of two. -/
def twoTo (n : Nat) : Nat := Nat.pow 2 n

/-- A power of ten. -/
def tenTo (n : Nat) : Nat := Nat.pow 10 n

theorem twoTo_pos (n : Nat) : 0 < twoTo n := Nat.pow_pos Nat.two_pos

theorem tenTo_pos (n : Nat) : 0 < tenTo n := Nat.pow_pos (Nat.zero_lt_succ 9)

/-- `num / den` rounded to a whole number; a tie goes to the even neighbour. -/
def roundHalfEven (num den : Nat) : Nat :=
  let floor := num / den
  match compare (2 * (num % den)) den with
  | .lt => floor
  | .gt => floor + 1
  | .eq => if floor % 2 = 0 then floor else floor + 1

namespace Magnitude

/-- The quanta in the number one. -/
def unit : Nat := twoTo 1074

/-- The distance, in quanta, between a magnitude of `n` quanta and the next larger one. -/
def spacing (n : Nat) : Nat := twoTo (n.log2 - 52)

/-- A count of quanta is a magnitude when its significand fits into 53 bits and it lies below
`2 ^ 1024`. -/
def Representable (n : Nat) : Prop := n < twoTo 2098 ∧ n % spacing n = 0

instance (n : Nat) : Decidable (Representable n) := inferInstanceAs (Decidable (_ ∧ _))

end Magnitude

/-- The absolute value of a finite double. -/
structure Magnitude where
  /-- How many times `2 ^ (-1074)` the magnitude is. -/
  quanta : Nat
  representable : Magnitude.Representable quanta
deriving DecidableEq

namespace Magnitude

@[ext] theorem ext {a b : Magnitude} (h : a.quanta = b.quanta) : a = b := by
  cases a
  cases b
  simp_all

/-- The magnitude of that many quanta, if there is one. -/
def ofQuanta? (n : Nat) : Option Magnitude :=
  if h : Representable n then some ⟨n, h⟩ else none

/-- The magnitude nearest to `num / den`, a tie going to the even significand; `none` when
the quotient rounds to `2 ^ 1024` or more. -/
def nearest? (num den : Nat) : Option Magnitude :=
  let step := spacing (num * unit / den)
  ofQuanta? (roundHalfEven (num * unit) (den * step) * step)

theorem representable_zero : Representable 0 :=
  ⟨twoTo_pos 2098, Nat.zero_mod _⟩

/-- Zero. -/
def zero : Magnitude := ⟨0, representable_zero⟩

instance : Inhabited Magnitude := ⟨zero⟩

/-- The product of two magnitudes, rounded; `none` when it is too large. -/
def mul? (a b : Magnitude) : Option Magnitude :=
  nearest? (a.quanta * b.quanta) (unit * unit)

/-- The quotient of two magnitudes, rounded; `none` when it is too large. -/
def div? (a b : Magnitude) : Option Magnitude :=
  nearest? a.quanta b.quanta

/-- The magnitude has no fractional part. -/
def IsWhole (m : Magnitude) : Prop := m.quanta % unit = 0

instance (m : Magnitude) : Decidable m.IsWhole := inferInstanceAs (Decidable (_ = _))

/-- The part before the point. -/
def floor (m : Magnitude) : Nat := m.quanta / unit

end Magnitude

/-- A double-precision number. -/
inductive Double where
  /-- Not a number. -/
  | nan
  /-- Infinitely large or, when negative, infinitely small. -/
  | infinite (negative : Bool)
  /-- A signed magnitude; zero comes with both signs. -/
  | finite (negative : Bool) (magnitude : Magnitude)
deriving DecidableEq

namespace Double

instance : Inhabited Double := ⟨.finite false .zero⟩

/-- A magnitude with a sign, or the infinity of that sign in place of a missing one. -/
def signed (negative : Bool) : Option Magnitude → Double
  | some magnitude => .finite negative magnitude
  | none => .infinite negative

/-- The double nearest to an integer. -/
def ofInt (n : Int) : Double :=
  signed (n < 0) (Magnitude.nearest? n.natAbs 1)

/-- Neither an infinity nor `nan`. -/
def IsFinite : Double → Prop
  | .finite _ _ => True
  | _ => False

instance : DecidablePred IsFinite
  | .finite _ _ => .isTrue trivial
  | .infinite _ => .isFalse id
  | .nan => .isFalse id

/-- A finite number without a fractional part. -/
def IsWhole : Double → Prop
  | .finite _ magnitude => magnitude.IsWhole
  | _ => False

instance : DecidablePred IsWhole
  | .finite _ magnitude => inferInstanceAs (Decidable magnitude.IsWhole)
  | .infinite _ => .isFalse id
  | .nan => .isFalse id

/-- Less than zero.  Negative zero is not. -/
def IsNegative : Double → Prop
  | .finite negative magnitude => negative = true ∧ magnitude.quanta ≠ 0
  | .infinite negative => negative = true
  | .nan => False

instance : DecidablePred IsNegative
  | .finite _ _ => inferInstanceAs (Decidable (_ ∧ _))
  | .infinite _ => inferInstanceAs (Decidable (_ = _))
  | .nan => .isFalse id

/-- One or more. -/
def AtLeastOne : Double → Prop
  | .finite negative magnitude => negative = false ∧ Magnitude.unit ≤ magnitude.quanta
  | .infinite negative => negative = false
  | .nan => False

instance : DecidablePred AtLeastOne
  | .finite _ _ => inferInstanceAs (Decidable (_ ∧ _))
  | .infinite _ => inferInstanceAs (Decidable (_ = _))
  | .nan => .isFalse id

/-- The integer a number stands for, given for the whole numbers below `2 ^ 53` in magnitude:
up to there every integer is a double. -/
def toInt? : Double → Option Int
  | .finite negative magnitude =>
    if magnitude.IsWhole ∧ magnitude.floor < twoTo 53 then
      some (if negative then -(magnitude.floor : Int) else magnitude.floor)
    else none
  | _ => none

end Double

end PhraseScript
