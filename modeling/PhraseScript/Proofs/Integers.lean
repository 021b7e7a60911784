import Mathlib.Tactic.Lemma
import PhraseScript.Number.Double

/-!
# Integers among the doubles

An integer below `2 ^ 53` in magnitude is a double: in quanta it is a multiple of the unit, its
significand fits, and so it is not rounded (`Double.ofInt_eq`).  It is therefore a finite number,
and the integer that this number stands for.
-/

namespace PhraseScript

/-- A whole number stays what it is. -/
lemma roundHalfEven_mul_self {n den : Nat} (hden : 0 < den) : roundHalfEven (n * den) den = n := by
  have hbelow : compare (2 * 0) den = .lt := Nat.compare_eq_lt.mpr hden
  simp only [roundHalfEven, Nat.mul_mod_left, Nat.mul_div_cancel n hden, hbelow]

lemma twoTo_le_twoTo {a b : Nat} (h : a ≤ b) : twoTo a ≤ twoTo b :=
  Nat.pow_le_pow_right Nat.two_pos h

namespace Magnitude

variable {n : Nat}

lemma mul_twoTo_lt {places : Nat} (h : n < twoTo 53) :
    n * twoTo places < twoTo (53 + places) := by
  have hsum : twoTo (53 + places) = twoTo 53 * twoTo places := Nat.pow_add 2 53 places
  rw [hsum]
  exact Nat.mul_lt_mul_of_pos_right h (twoTo_pos places)

lemma spacing_dvd_mul_twoTo {places : Nat} (h : n < twoTo 53) :
    spacing (n * twoTo places) ∣ n * twoTo places := by
  have hlog : (n * twoTo places).log2 - 52 ≤ places := by
    rcases Nat.eq_zero_or_pos (n * twoTo places) with hzero | hpos
    · rw [hzero]
      exact Nat.zero_le _
    · have hle := (Nat.log2_lt (Nat.pos_iff_ne_zero.mp hpos)).mpr (mul_twoTo_lt h)
      omega
  exact Nat.dvd_trans (Nat.pow_dvd_pow 2 hlog) (Nat.dvd_mul_left _ n)

/-- The significand of an integer below `2 ^ 53` fits. -/
lemma representable_mul_unit (h : n < twoTo 53) : Representable (n * unit) :=
  ⟨Nat.lt_of_lt_of_le (mul_twoTo_lt h) (twoTo_le_twoTo (by decide)),
    Nat.mod_eq_zero_of_dvd (spacing_dvd_mul_twoTo h)⟩

lemma nearest?_one (h : Representable (n * unit)) : nearest? n 1 = some ⟨n * unit, h⟩ := by
  obtain ⟨steps, hsteps⟩ : ∃ steps, n * unit = steps * spacing (n * unit) :=
    ⟨_, (Nat.div_mul_cancel (Nat.dvd_of_mod_eq_zero h.2)).symm⟩
  have hround : roundHalfEven (n * unit) (1 * spacing (n * unit)) * spacing (n * unit) =
      n * unit := by
    have hpos : 0 < spacing (n * unit) := twoTo_pos _
    generalize spacing (n * unit) = step at hsteps hpos
    rw [hsteps, Nat.one_mul, roundHalfEven_mul_self hpos]
  rw [nearest?, Nat.div_one]
  simp only [hround, ofQuanta?, dif_pos h]

end Magnitude

namespace Double

variable {n : Int}

/-- An integer below `2 ^ 53` in magnitude is not rounded. -/
theorem ofInt_eq (h : n.natAbs < twoTo 53) :
    ofInt n = .finite (n < 0) ⟨n.natAbs * Magnitude.unit, Magnitude.representable_mul_unit h⟩ := by
  rw [ofInt, Magnitude.nearest?_one (Magnitude.representable_mul_unit h)]
  rfl

/-- What holds of all finite numbers holds of these integers.  Where the integer is known, this
says that its double is finite without computing it. -/
lemma ofInt_of_isFinite {P : Double → Prop} (hfinite : ∀ x : Double, x.IsFinite → P x)
    (h : n.natAbs < twoTo 53) : P (ofInt n) := by
  refine hfinite _ ?_
  rw [ofInt_eq h]
  trivial

lemma toInt?_ofInt (h : n.natAbs < twoTo 53) : (ofInt n).toInt? = some n := by
  obtain ⟨m, hquanta, heq⟩ : ∃ m : Magnitude, m.quanta = n.natAbs * Magnitude.unit ∧
      ofInt n = .finite (n < 0) m := ⟨⟨_, Magnitude.representable_mul_unit h⟩, rfl, ofInt_eq h⟩
  have hwhole : m.IsWhole := by
    rw [Magnitude.IsWhole, hquanta]
    exact Nat.mul_mod_left _ _
  have hunit : 0 < Magnitude.unit := twoTo_pos 1074
  have hfloor : m.floor = n.natAbs :=
    (congrArg (· / Magnitude.unit) hquanta).trans (Nat.mul_div_cancel n.natAbs hunit)
  rw [heq, toInt?, if_pos ⟨hwhole, hfloor ▸ h⟩, hfloor]
  by_cases hsign : n < 0
  · rw [if_pos (decide_eq_true hsign), Int.ofNat_natAbs_of_nonpos (Int.le_of_lt hsign), Int.neg_neg]
  · rw [if_neg (by simpa using hsign), Int.natAbs_of_nonneg (Int.not_lt.mp hsign)]

end Double

end PhraseScript
