import Mathlib.Algebra.Order.Field.Power
import Mathlib.Algebra.Order.Floor.Semifield
import Mathlib.Data.Nat.Cast.Order.Field
import Mathlib.Data.Rat.Floor
import Mathlib.Tactic.NormNum
import Mathlib.Tactic.Positivity
import PhraseScript.Proofs.NumberTexts
import PhraseScript.Proofs.Rounding

/-!
# Decimals that read back

The shortest decimal of a magnitude is caught by the magnitude
(`Magnitude.catches_shortest`): one that is found with up to sixteen digits was tested for that, and
with seventeen digits decimals lie closer together than magnitudes do.  What a magnitude catches
reads back to it (`Magnitude.ofDecimal?_eq_some`).  So reading the text of a number gives the
double of which the text was made (`Json.Number.toDouble_literal_real`,
`Json.Number.toDouble_literal_integer`).
-/

namespace PhraseScript

/-! ### The numbers that decimals are -/

lemma lt_pow_length_toDigits (n : Nat) : n < 10 ^ (Nat.toDigits 10 n).length :=
  (Nat.length_toDigits_le_iff (by omega) (List.length_pos_iff.mpr Nat.toDigits_ne_nil)).mp
    (Nat.le_refl _)

lemma pow_le_of_length_toDigits {n : Nat} (h : n ≠ 0) :
    10 ^ ((Nat.toDigits 10 n).length - 1) ≤ n := by
  obtain ⟨length, hlength⟩ : ∃ length, (Nat.toDigits 10 n).length - 1 = length := ⟨_, rfl⟩
  rw [hlength]
  rcases Nat.eq_zero_or_pos length with rfl | hpos
  · exact Nat.pos_of_ne_zero h
  · by_contra hlt
    have hle := (Nat.length_toDigits_le_iff (by omega) hpos).mpr (Nat.not_le.mp hlt)
    omega

lemma cast_tenTo (n : Nat) : (tenTo n : ℚ) = 10 ^ (n : Int) := by
  rw [zpow_natCast]
  exact Nat.cast_pow 10 n

/-- A power of ten, made of natural numbers. -/
lemma tenTo_div_tenTo (e : Int) : (tenTo e.toNat : ℚ) / tenTo (-e).toNat = 10 ^ e := by
  rw [cast_tenTo, cast_tenTo, ← zpow_sub₀ (by norm_num), Int.toNat_sub_toNat_neg]

namespace Decimal

/-- The number that a decimal is. -/
def toRat (d : Decimal) : ℚ := d.digits * 10 ^ d.exponent

variable {d : Decimal}

lemma toRat_eq_div :
    d.toRat = (d.digits * tenTo d.exponent.toNat : Nat) / tenTo (-d.exponent).toNat := by
  rw [toRat, ← tenTo_div_tenTo, Nat.cast_mul, mul_div_assoc]

lemma toRat_eq_of_same {d' : Decimal} (h : d.Same d') : d.toRat = d'.toRat := by
  have hcast : (d.digits : ℚ) * tenTo (d.exponent - d'.exponent).toNat =
      d'.digits * tenTo (d'.exponent - d.exponent).toNat := by exact_mod_cast h
  have hpower := tenTo_div_tenTo (d.exponent - d'.exponent)
  have hpos : (tenTo (d'.exponent - d.exponent).toNat : ℚ) ≠ 0 :=
    Nat.cast_ne_zero.mpr (Nat.pos_iff_ne_zero.mp (tenTo_pos _))
  rw [neg_sub, div_eq_iff hpos] at hpower
  rw [hpower, ← mul_assoc] at hcast
  have hdigits := mul_right_cancel₀ hpos hcast
  rw [toRat, toRat, ← hdigits, mul_assoc, ← zpow_add₀ (by norm_num), sub_add_cancel]

/-- A decimal lies below the power of ten that follows its leading digit. -/
lemma toRat_lt : d.toRat < 10 ^ (d.leadingExponent + 1) := by
  have hlt : (d.digits : ℚ) < 10 ^ d.digitText.length := by
    exact_mod_cast lt_pow_length_toDigits d.digits
  have hexponent : d.leadingExponent + 1 = d.digitText.length + d.exponent := by
    rw [leadingExponent]
    omega
  rw [hexponent, zpow_add₀ (by norm_num), zpow_natCast]
  exact mul_lt_mul_of_pos_right hlt (by positivity)

/-- A positive decimal is at least the power of ten of its leading digit. -/
lemma le_toRat (h : d.digits ≠ 0) : 10 ^ d.leadingExponent ≤ d.toRat := by
  have hle : ((10 : ℚ) ^ (d.digitText.length - 1)) ≤ d.digits := by
    exact_mod_cast pow_le_of_length_toDigits h
  have hlength : 0 < d.digitText.length := List.length_pos_iff.mpr digitText_ne_nil
  have hexponent : d.leadingExponent = ((d.digitText.length - 1 : Nat) : Int) + d.exponent := by
    rw [leadingExponent]
    omega
  rw [hexponent, zpow_add₀ (by norm_num), zpow_natCast]
  exact mul_le_mul_of_nonneg_right hle (by positivity)

/-- Comparing with half quanta is comparing numbers. -/
lemma compareHalves_eq (n : Nat) :
    d.compareHalves n = compare d.toRat (n / (2 * Magnitude.unit)) := by
  obtain ⟨num, hnum⟩ : ∃ num, d.digits * tenTo d.exponent.toNat = num := ⟨_, rfl⟩
  have hden : (0 : ℚ) < tenTo (-d.exponent).toNat := Nat.cast_pos.mpr (tenTo_pos _)
  have hhalf : (0 : ℚ) < 2 * Magnitude.unit :=
    mul_pos two_pos (Nat.cast_pos.mpr (twoTo_pos 1074))
  rw [compareHalves, toRat_eq_div, hnum]
  rcases Nat.lt_trichotomy (num * (2 * Magnitude.unit)) (n * tenTo (-d.exponent).toNat) with
    h | h | h
  · rw [Nat.compare_eq_lt.mpr h, eq_comm, compare_lt_iff_lt, div_lt_div_iff₀ hden hhalf]
    exact_mod_cast h
  · rw [Nat.compare_eq_eq.mpr h, eq_comm, compare_eq_iff_eq, div_eq_div_iff hden.ne' hhalf.ne']
    exact_mod_cast h
  · rw [Nat.compare_eq_gt.mpr h, eq_comm, compare_gt_iff_gt, div_lt_div_iff₀ hhalf hden]
    exact_mod_cast h

end Decimal

/-! ### The shortest decimal -/

namespace Tie

variable {below above : Decimal}

lemma nearer_eq (tie : Tie) (side : Ordering) :
    tie.nearer below above side = below ∨ tie.nearer below above side = above := by
  cases side with
  | lt => exact .inr rfl
  | gt => exact .inl rfl
  | eq =>
    rw [nearer]
    split
    · exact .inl rfl
    · exact .inr rfl

/-- The nearer of two decimals is off by at most half the distance between them. -/
lemma abs_nearer_sub_le (tie : Tie) {x width : ℚ} {side : Ordering} (hlower : below.toRat ≤ x)
    (hupper : x < below.toRat + width) (habove : above.toRat = below.toRat + width)
    (hside : side = compare (2 * below.toRat + width) (2 * x)) :
    |(tie.nearer below above side).toRat - x| ≤ width / 2 := by
  have hbelow (h : 2 * x ≤ 2 * below.toRat + width) : |below.toRat - x| ≤ width / 2 := by
    rw [abs_sub_comm, abs_of_nonneg (sub_nonneg.mpr hlower)]
    linarith
  have habove' (h : 2 * below.toRat + width ≤ 2 * x) : |above.toRat - x| ≤ width / 2 := by
    rw [habove, abs_of_pos (sub_pos.mpr hupper)]
    linarith
  cases side with
  | lt => exact habove' (compare_lt_iff_lt.mp hside.symm).le
  | gt => exact hbelow (compare_gt_iff_gt.mp hside.symm).le
  | eq =>
    have hmiddle := compare_eq_iff_eq.mp hside.symm
    rcases tie.nearer_eq .eq with heq | heq <;> rw [heq]
    · exact hbelow hmiddle.ge
    · exact habove' hmiddle.le

end Tie

namespace Magnitude

variable {m : Magnitude} {d : Decimal}

/-- The number that a magnitude is. -/
def toRat (m : Magnitude) : ℚ := m.quanta / unit

lemma unit_pos : (0 : ℚ) < unit := Nat.cast_pos.mpr (twoTo_pos 1074)

lemma toRat_mul_unit : m.toRat * unit = m.quanta := div_mul_cancel₀ _ unit_pos.ne'

/-- What has been tested is caught. -/
lemma ReadsBack.catches (h : m.ReadsBack d) : m.Catches (d.toRat * unit) := by
  have hhalf : (0 : ℚ) < 2 * unit := mul_pos two_pos unit_pos
  have hleft : (2 * m.quanta : ℚ) ≤
      (2 * m.quanta - spacing (m.quanta - 1) : Nat) + spacing (m.quanta - 1) := by
    exact_mod_cast Nat.le_add_of_sub_le (Nat.le_refl _)
  have hright : ((2 * m.quanta + spacing m.quanta : Nat) : ℚ) =
      2 * m.quanta + spacing m.quanta := by
    push_cast
    rfl
  obtain ⟨hlower, hupper⟩ := h
  rw [Decimal.compareHalves_eq, compare_gt_iff_gt, compare_eq_iff_eq, div_lt_iff₀ hhalf,
    eq_div_iff hhalf.ne'] at hlower
  rw [Decimal.compareHalves_eq, compare_lt_iff_lt, compare_eq_iff_eq, lt_div_iff₀ hhalf,
    eq_div_iff hhalf.ne', hright] at hupper
  refine ⟨?_, ?_, ?_⟩
  · rcases hlower with hlt | ⟨heq, -⟩ <;> linarith
  · rcases hupper with hlt | ⟨heq, -⟩ <;> linarith
  · rintro (htie | htie)
    · exact hlower.elim (fun hlt => by linarith) And.right
    · exact hupper.elim (fun hlt => by linarith) And.right

/-- The magnitude lies between two decimals next to each other. -/
lemma toRat_mem_decimalBelow (exponent : Int) :
    (m.decimalBelow exponent).toRat ≤ m.toRat ∧
      m.toRat < (m.decimalBelow exponent).toRat + 10 ^ exponent := by
  obtain ⟨num, hnum⟩ : ∃ num, m.quanta * tenTo (-exponent).toNat = num := ⟨_, rfl⟩
  obtain ⟨den, hden⟩ : ∃ den, unit * tenTo exponent.toNat = den := ⟨_, rfl⟩
  have hpower : (0 : ℚ) < 10 ^ exponent := by positivity
  have hbelow : (m.decimalBelow exponent).toRat = (num / den : Nat) * 10 ^ exponent := by
    rw [Decimal.toRat, decimalBelow, hnum, hden]
  have hquotient : (num : ℚ) / den * 10 ^ exponent = m.toRat := by
    have hless : (tenTo (-exponent).toNat : ℚ) ≠ 0 := Nat.cast_ne_zero.mpr (tenTo_pos _).ne'
    have hmore : (tenTo exponent.toNat : ℚ) ≠ 0 := Nat.cast_ne_zero.mpr (tenTo_pos _).ne'
    rw [← tenTo_div_tenTo, ← hnum, ← hden, toRat, Nat.cast_mul, Nat.cast_mul, div_mul_div_comm,
      mul_right_comm, mul_div_mul_right _ _ hless, mul_div_mul_right _ _ hmore]
  have hfloor : ((num / den : Nat) : ℚ) ≤ num / den := Nat.cast_div_le
  have hnext : (num : ℚ) / den < (num / den : Nat) + 1 := by
    rw [← @Nat.floor_div_eq_div ℚ]
    exact Nat.lt_floor_add_one _
  rw [hbelow, ← hquotient, ← add_one_mul]
  exact ⟨mul_le_mul_of_nonneg_right hfloor hpower.le, mul_lt_mul_of_pos_right hnext hpower⟩

/-- The next decimal is larger by one in the last digit. -/
lemma toRat_decimalAbove (count : Nat) :
    (m.decimalAbove count).toRat =
      (m.decimalBelow (m.decimalPlaces - count)).toRat + 10 ^ (m.decimalPlaces - count) := by
  obtain ⟨digits, hdigits⟩ : ∃ digits, (m.decimalBelow (m.decimalPlaces - count)).digits = digits :=
    ⟨_, rfl⟩
  have hbelow : (m.decimalBelow (m.decimalPlaces - count)).toRat =
      digits * 10 ^ (m.decimalPlaces - count) := by rw [← hdigits]; rfl
  rw [hbelow, ← add_one_mul, decimalAbove]
  simp only [hdigits]
  split
  · next hpower =>
    have hcast : (digits + 1 : ℚ) = 10 ^ (count : Int) := by
      rw [← cast_tenTo]
      exact_mod_cast hpower
    rw [hcast, ← zpow_add₀ (by norm_num), Decimal.toRat, Nat.cast_one, one_mul]
    exact congrArg ((10 : ℚ) ^ ·) (add_sub_cancel (count : Int) m.decimalPlaces).symm
  · rw [Decimal.toRat, Nat.cast_add, Nat.cast_one]

lemma nearestDecimal_eq (tie : Tie) (count : Nat) :
    m.nearestDecimal tie count = m.decimalBelow (m.decimalPlaces - count) ∨
      m.nearestDecimal tie count = m.decimalAbove count :=
  tie.nearer_eq _

/-- The nearer decimal is off by at most half a unit of the last digit. -/
lemma abs_nearestDecimal_sub_le (tie : Tie) (count : Nat) :
    |(m.nearestDecimal tie count).toRat - m.toRat| ≤ 10 ^ (m.decimalPlaces - count) / 2 := by
  obtain ⟨hlower, hupper⟩ := toRat_mem_decimalBelow (m := m) (m.decimalPlaces - count)
  rw [nearestDecimal]
  refine tie.abs_nearer_sub_le hlower hupper (toRat_decimalAbove count) ?_
  have hquanta : ((4 * m.quanta : Nat) : ℚ) / (2 * unit) = 2 * m.toRat := by
    have htwo : ((4 : Nat) : ℚ) / 2 = 2 := by norm_num
    rw [Nat.cast_mul, mul_div_mul_comm, htwo, toRat]
  have hexponent : (m.decimalBelow (m.decimalPlaces - count)).exponent = m.decimalPlaces - count :=
    rfl
  rw [Decimal.compareHalves_eq, hquanta, Decimal.toRat, Decimal.toRat, hexponent]
  congr 1
  push_cast
  ring

/-- A positive magnitude is at least the power of ten of its first place. -/
lemma le_toRat_of_decimalPlaces (hm : m.quanta ≠ 0) : 10 ^ (m.decimalPlaces - 1) ≤ m.toRat := by
  have hscale : unit ≤ tenTo 324 := by decide +kernel
  have hdigits : (m.decimalBelow (-324)).digits = m.quanta * tenTo 324 / unit := by
    have hless : tenTo (-324 : Int).toNat = 1 := rfl
    have hmore : (-(-324) : Int).toNat = 324 := rfl
    rw [decimalBelow, hless, hmore, Nat.mul_one]
  have hpositive : (m.decimalBelow (-324)).digits ≠ 0 := by
    rw [hdigits]
    refine Nat.ne_of_gt (Nat.div_pos ?_ (twoTo_pos 1074))
    exact Nat.le_trans hscale (Nat.le_mul_of_pos_left _ (Nat.pos_of_ne_zero hm))
  have hplaces : m.decimalPlaces - 1 = (m.decimalBelow (-324)).leadingExponent := by
    rw [Decimal.leadingExponent, Decimal.digitText, hdigits, decimalPlaces]
    rfl
  rw [hplaces]
  exact (Decimal.le_toRat hpositive).trans (toRat_mem_decimalBelow (-324)).1

/-- With seventeen digits decimals are so close together that the nearest one is caught. -/
lemma catches_nearestDecimal (tie : Tie) (hm : m.quanta ≠ 0) :
    m.Catches ((m.nearestDecimal tie 17).toRat * unit) := by
  have hquanta : (m.quanta : ℚ) ≤ 2 ^ 53 * spacing (m.quanta - 1) := by
    have hlt := lt_mul_spacing (m.quanta - 1)
    exact_mod_cast (show m.quanta ≤ 2 ^ 53 * spacing (m.quanta - 1) by omega)
  have hspacing : (0 : ℚ) < spacing (m.quanta - 1) := Nat.cast_pos.mpr (spacing_pos _)
  have hdigit : (10 : ℚ) ^ (m.decimalPlaces - (17 : Nat)) * 10 ^ 16 ≤ m.toRat := by
    have hplaces := le_toRat_of_decimalPlaces hm
    rwa [show m.decimalPlaces - 1 = m.decimalPlaces - (17 : Nat) + (16 : Nat) by omega,
      zpow_add₀ (by norm_num), zpow_natCast] at hplaces
  apply catches_of_abs_lt
  calc |(m.nearestDecimal tie 17).toRat * unit - m.quanta|
      = |(m.nearestDecimal tie 17).toRat - m.toRat| * unit := by
        rw [← toRat_mul_unit, ← sub_mul, abs_mul, abs_of_pos unit_pos]
    _ ≤ 10 ^ (m.decimalPlaces - (17 : Nat)) / 2 * unit :=
        mul_le_mul_of_nonneg_right (abs_nearestDecimal_sub_le tie 17) unit_pos.le
    _ ≤ m.toRat / 10 ^ 16 / 2 * unit :=
        mul_le_mul_of_nonneg_right
          (div_le_div_of_nonneg_right ((le_div_iff₀ (by positivity)).mpr hdigit) two_pos.le)
          unit_pos.le
    _ = m.quanta / 10 ^ 16 / 2 := by
        rw [← toRat_mul_unit, div_div, div_div, div_mul_eq_mul_div]
    _ < spacing (m.quanta - 1) / 2 := by linarith

lemma readsBack_of_shortDecimal? {tie : Tie} {count : Nat}
    (h : m.shortDecimal? tie count = some d) : m.ReadsBack d := by
  rw [shortDecimal?] at h
  split at h
  · next hbelow =>
    split at h
    · next habove =>
      obtain rfl := Option.some.inj h
      rcases nearestDecimal_eq tie count with heq | heq
      · exact heq ▸ hbelow
      · exact heq ▸ habove
    · exact Option.some.inj h ▸ hbelow
  · split at h
    · next habove => exact Option.some.inj h ▸ habove
    · cases h

/-- The shortest decimal of a positive magnitude is caught by it. -/
theorem catches_shortest (tie : Tie) (hm : m.quanta ≠ 0) :
    m.Catches ((m.shortest tie).toRat * unit) := by
  rw [shortest, if_neg hm]
  cases hshort : (List.range' 1 16).findSome? (m.shortDecimal? tie) with
  | none =>
    rw [Option.getD_none]
    exact catches_nearestDecimal tie hm
  | some d =>
    rw [Option.getD_some]
    obtain ⟨count, -, hcount⟩ := List.exists_of_findSome?_eq_some hshort
    exact (readsBack_of_shortDecimal? hcount).catches

/-! ### Reading -/

/-- A decimal that is caught has its leading digit within the range of doubles. -/
lemma Catches.places {m : Magnitude} {d : Decimal} (h : m.Catches (d.toRat * unit))
    (hm : m.quanta ≠ 0) :
    d.digits ≠ 0 ∧ -330 ≤ d.leadingExponent + 1 ∧ d.leadingExponent + 1 ≤ 310 := by
  have hpositive : (1 : ℚ) ≤ m.quanta := Nat.one_le_cast.mpr (Nat.pos_of_ne_zero hm)
  have hbefore : (spacing (m.quanta - 1) : ℚ) ≤ m.quanta := by
    exact_mod_cast (spacing_le _).trans (Nat.sub_add_cancel (Nat.pos_of_ne_zero hm)).le
  have hnext : (spacing m.quanta : ℚ) ≤ m.quanta + 1 := by exact_mod_cast spacing_le m.quanta
  have hmagnitude : (m.quanta : ℚ) ≤ twoTo 2098 := Nat.cast_le.mpr m.representable.1.le
  have hlower : 1 / 2 ≤ d.toRat * unit := by linarith [h.le_left]
  have hupper : d.toRat * unit ≤ 2 * twoTo 2098 := by linarith [h.le_right]
  have hdigits : d.digits ≠ 0 := by
    intro hzero
    rw [Decimal.toRat, hzero, Nat.cast_zero, zero_mul, zero_mul] at hlower
    norm_num at hlower
  have hpower : 10 ^ d.leadingExponent ≤ d.toRat := Decimal.le_toRat hdigits
  have hnonneg : 0 ≤ d.toRat := (by positivity : (0 : ℚ) ≤ 10 ^ d.leadingExponent).trans hpower
  refine ⟨hdigits, ?_, ?_⟩ <;> by_contra hplace
  · -- half a quantum is more than the decimal
    have hunit : ((2 * unit : Nat) : ℚ) ≤ (tenTo 331 : Nat) := Nat.cast_le.mpr (by decide +kernel)
    have hless : d.toRat < 1 / tenTo 331 :=
      calc d.toRat < 10 ^ (d.leadingExponent + 1) := Decimal.toRat_lt
        _ ≤ 10 ^ (-(331 : Nat) : Int) := zpow_le_zpow_right₀ (by norm_num) (by omega)
        _ = 1 / tenTo 331 := by rw [zpow_neg, ← cast_tenTo, one_div]
    rw [lt_div_iff₀ (Nat.cast_pos.mpr (tenTo_pos _))] at hless
    have hle := mul_le_mul_of_nonneg_left hunit hnonneg
    rw [Nat.cast_mul, Nat.cast_two] at hle
    linarith
  · -- the decimal is more than all magnitudes
    have hunit : ((2 * twoTo 2098 : Nat) : ℚ) < (tenTo 310 * unit : Nat) :=
      Nat.cast_lt.mpr (by decide +kernel)
    have hmore : (tenTo 310 : ℚ) ≤ d.toRat := by
      rw [cast_tenTo]
      exact (zpow_le_zpow_right₀ (by norm_num) (by omega)).trans hpower
    have hle := mul_le_mul_of_nonneg_right hmore unit_pos.le
    rw [Nat.cast_mul, Nat.cast_two, Nat.cast_mul] at hunit
    linarith

/-- What a positive magnitude catches reads back to it. -/
theorem ofDecimal?_eq_some {m : Magnitude} {d : Decimal} (h : m.Catches (d.toRat * unit))
    (hm : m.quanta ≠ 0) : ofDecimal? d.digits d.exponent = some m := by
  obtain ⟨hdigits, hsmall, hlarge⟩ := h.places hm
  have hplaces :
      ((Nat.toDigits 10 d.digits).length : Int) + d.exponent = d.leadingExponent + 1 := by
    rw [Decimal.leadingExponent, Decimal.digitText]
    omega
  rw [ofDecimal?]
  simp only [hplaces]
  rw [if_neg (by omega), if_neg (by omega)]
  apply nearest?_eq_some (tenTo_pos _)
  rwa [Nat.cast_mul, mul_div_right_comm, ← Decimal.toRat_eq_div]

end Magnitude

/-- A literal of a magnitude is read as the double with that magnitude. -/
lemma Literal.toDouble_eq {l : Literal} {m : Magnitude} {d : Decimal} (hl : l.decimal.Same d)
    (hm : m.quanta ≠ 0) (h : m.Catches (d.toRat * Magnitude.unit)) :
    l.toDouble = .finite l.negative m := by
  rw [← Decimal.toRat_eq_of_same hl] at h
  show Double.signed l.negative (Magnitude.ofDecimal? l.decimal.digits l.decimal.exponent) = _
  rw [Magnitude.ofDecimal?_eq_some h hm, Double.signed]

/-- A literal without digits other than zero is read as zero. -/
lemma Literal.toDouble_eq_zero {l : Literal} (hl : l.decimal.digits = 0) :
    l.toDouble = .finite l.negative .zero := by
  show Double.signed l.negative (Magnitude.ofDecimal? l.decimal.digits l.decimal.exponent) = _
  rw [hl, Magnitude.ofDecimal?, if_pos (.inl rfl), Double.signed]

namespace Json.Number

/-- Reading the text of a real gives that real. -/
theorem toDouble_literal_real (negative : Bool) (m : Magnitude) :
    (real negative m).literal.toDouble = .finite negative m := by
  obtain ⟨l, hl, -, htext, hsame⟩ := isNumberText_realText m
  have hsigned : ({ l with negative } : Literal).IsJson := ⟨hl.1, hl.2, hl.3, hl.4, hl.5⟩
  have hliteral : (real negative m).literal = { l with negative } := by
    apply literal_eq hsigned
    cases negative <;> simpa [text, Literal.text, Literal.unsignedText] using htext
  rw [hliteral]
  by_cases hm : m.quanta = 0
  · have hdigits : l.decimal.digits = 0 := by
      rw [Magnitude.shortest, if_pos hm, Decimal.Same, Nat.zero_mul] at hsame
      exact (Nat.mul_eq_zero.mp hsame).resolve_right (tenTo_pos _).ne'
    rw [show m = .zero from Magnitude.ext hm]
    exact Literal.toDouble_eq_zero hdigits
  · exact Literal.toDouble_eq hsame hm (Magnitude.catches_shortest .even hm)

/-- Reading the text of an integer gives that integer, if it is a double. -/
theorem toDouble_literal_integer {n : Int} {m : Magnitude}
    (h : m.quanta = n.natAbs * Magnitude.unit) :
    (integer n).literal.toDouble = .finite (n < 0) m := by
  have hdigits : (integerLiteral n).decimal.digits = n.natAbs := by
    show Literal.digitsValue 0 (Nat.toDigits 10 n.natAbs ++ []) = _
    rw [List.append_nil, Literal.digitsValue_toDigits]
  rw [literal_eq (isJson_integerLiteral n) (text_integer n)]
  by_cases hn : n.natAbs = 0
  · rw [hn, Nat.zero_mul] at h
    rw [show m = .zero from Magnitude.ext h]
    exact Literal.toDouble_eq_zero (hdigits.trans hn)
  · have hsame : (integerLiteral n).decimal.Same ⟨n.natAbs, 0⟩ :=
      Decimal.same_of_zeros 0 (hdigits.trans (Nat.mul_one _).symm) rfl
    have hvalue : (⟨n.natAbs, 0⟩ : Decimal).toRat = n.natAbs := by
      rw [Decimal.toRat, zpow_zero, mul_one]
    have hcatches : m.Catches ((⟨n.natAbs, 0⟩ : Decimal).toRat * Magnitude.unit) := by
      rw [hvalue, ← Nat.cast_mul, ← h]
      exact Magnitude.catches_quanta
    have hm : m.quanta ≠ 0 := by
      rw [h]
      exact Nat.mul_ne_zero hn (twoTo_pos 1074).ne'
    exact Literal.toDouble_eq hsame hm hcatches

end Json.Number

end PhraseScript
