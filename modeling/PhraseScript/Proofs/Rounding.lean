import Mathlib.Algebra.Order.Field.Rat
import Mathlib.Tactic.Linarith
import Mathlib.Tactic.Ring
import PhraseScript.Number.Double

/-!
# Rounding to a magnitude

A positive magnitude catches the numbers around it, up to the points halfway to its neighbours,
and those points themselves when its significand is even (`Magnitude.Catches`).  What it catches
rounds to it (`Magnitude.nearest?_eq_some`).

Below a power of two magnitudes lie closer together than above it.  The distance to the next
smaller magnitude is therefore the spacing one quantum further down.
-/

namespace PhraseScript

/-! ### Whole numbers -/

/-- A quotient rounds to a whole number that is at most half away from it; where it is just half
away, the whole number has to be even. -/
lemma roundHalfEven_eq {num den n : Nat} (hden : 0 < den) (hlower : 2 * (n * den) ≤ 2 * num + den)
    (hupper : 2 * num ≤ 2 * (n * den) + den)
    (heven : 2 * num + den = 2 * (n * den) ∨ 2 * num = 2 * (n * den) + den → n % 2 = 0) :
    roundHalfEven num den = n := by
  have hsplit := Nat.div_add_mod' num den
  have hrest := Nat.mod_lt num hden
  obtain ⟨floor, hfloor⟩ : ∃ floor, num / den = floor := ⟨_, rfl⟩
  obtain ⟨rest, hmod⟩ : ∃ rest, num % den = rest := ⟨_, rfl⟩
  rw [hfloor, hmod] at hsplit
  rw [hmod] at hrest
  have hfirst : n < floor + 2 := by
    by_contra hlarge
    have hle : (floor + 2) * den ≤ n * den := Nat.mul_le_mul_right den (Nat.not_lt.mp hlarge)
    rw [Nat.add_mul] at hle
    omega
  have hlast : floor ≤ n := by
    by_contra hsmall
    have hle : (n + 1) * den ≤ floor * den := Nat.mul_le_mul_right den (Nat.not_le.mp hsmall)
    rw [Nat.add_mul] at hle
    omega
  have hn : n = floor ∨ n = floor + 1 := by omega
  simp only [roundHalfEven, hfloor, hmod]
  rcases hn with rfl | rfl
  · split
    · rfl
    · next hgt =>
      have hhalf := Nat.compare_eq_gt.mp hgt
      omega
    · next heq =>
      have hhalf := Nat.compare_eq_eq.mp heq
      rw [if_pos (heven (by omega))]
  · rw [Nat.add_mul, Nat.one_mul] at hlower hupper heven
    split
    · next hlt =>
      have hhalf := Nat.compare_eq_lt.mp hlt
      omega
    · rfl
    · next heq =>
      have hhalf := Nat.compare_eq_eq.mp heq
      have hodd := heven (by omega)
      rw [if_neg (by omega)]

namespace Magnitude

/-! ### Spacings -/

lemma spacing_pos (n : Nat) : 0 < spacing n := twoTo_pos _

lemma spacing_dvd_spacing {a b : Nat} (h : a ≤ b) : spacing a ∣ spacing b := by
  have hlog : a.log2 ≤ b.log2 := by
    rcases Nat.eq_zero_or_pos a with rfl | ha
    · simp
    · exact (Nat.le_log2 (by omega)).mpr (Nat.le_trans (Nat.log2_self_le (by omega)) h)
  exact Nat.pow_dvd_pow 2 (by omega)

lemma spacing_le (n : Nat) : spacing n ≤ n + 1 := by
  rcases Nat.eq_zero_or_pos n with rfl | hn
  · decide
  · have hpower : (2 : Nat) ^ (n.log2 - 52) ≤ 2 ^ n.log2 :=
      Nat.pow_le_pow_right Nat.two_pos (Nat.sub_le _ _)
    exact Nat.le_succ_of_le (Nat.le_trans hpower (Nat.log2_self_le (by omega)))

/-- A significand has 53 bits. -/
lemma lt_mul_spacing (n : Nat) : n < 2 ^ 53 * spacing n :=
  calc n < 2 ^ (n.log2 + 1) := Nat.lt_log2_self
    _ ≤ 2 ^ (53 + (n.log2 - 52)) := Nat.pow_le_pow_right Nat.two_pos (by omega)
    _ = 2 ^ 53 * spacing n := Nat.pow_add 2 53 _

lemma spacing_eq_one {n : Nat} (h : n.log2 ≤ 52) : spacing n = 1 := by
  rw [spacing, Nat.sub_eq_zero_of_le h]
  rfl

lemma spacing_eq_of_log2 {a b : Nat} (h : a.log2 = b.log2) : spacing a = spacing b := by
  rw [spacing, spacing, h]

lemma add_le_of_dvd {step a b : Nat} (ha : step ∣ a) (hb : step ∣ b) (h : a < b) :
    a + step ≤ b := by
  have hle : step ≤ b - a := Nat.le_of_dvd (by omega) (Nat.dvd_sub hb ha)
  omega

/-- The spacing stays the same up to the next magnitude. -/
lemma spacing_of_lt_add {q n : Nat} (hq : spacing q ∣ q) (hle : q ≤ n) (hlt : n < q + spacing q) :
    spacing n = spacing q := by
  rcases Nat.le_total q.log2 52 with hlog | hlog
  · rw [spacing_eq_one hlog] at hlt
    rw [show n = q by omega]
  · have hq0 : q ≠ 0 := by
      rintro rfl
      simp at hlog
    have hnext : q + spacing q ≤ 2 ^ (q.log2 + 1) :=
      add_le_of_dvd hq (Nat.pow_dvd_pow 2 (by omega)) Nat.lt_log2_self
    refine spacing_eq_of_log2 ((Nat.log2_eq_iff (by omega)).mpr ⟨?_, by omega⟩)
    exact Nat.le_trans (Nat.log2_self_le hq0) hle

/-- The spacing stays the same down to the point halfway to the magnitude before. -/
lemma spacing_of_lt {q n : Nat} (hq : spacing q ∣ q) (hlt : n < q)
    (hhalf : 2 * q < 2 * (n + 1) + spacing (q - 1)) : spacing n = spacing (q - 1) := by
  rcases Nat.le_total (q - 1).log2 52 with hlog | hlog
  · rw [spacing_eq_one hlog] at hhalf
    rw [show n = q - 1 by omega]
  · have hq0 : q - 1 ≠ 0 := by
      intro hzero
      rw [hzero] at hlog
      simp at hlog
    have hpower : 2 ^ (q - 1).log2 ≤ q - 1 := Nat.log2_self_le hq0
    have hbefore : 2 ^ (q - 1).log2 + spacing (q - 1) ≤ q :=
      add_le_of_dvd (Nat.pow_dvd_pow 2 (by omega))
        (Nat.dvd_trans (spacing_dvd_spacing (by omega)) hq) (by omega)
    have hsame : q - 1 < 2 ^ ((q - 1).log2 + 1) := Nat.lt_log2_self
    exact spacing_eq_of_log2 ((Nat.log2_eq_iff (by omega)).mpr ⟨by omega, by omega⟩)

/-! ### What rounds to a magnitude -/

/-- A number of quanta is so close to a positive magnitude that it rounds to it. -/
structure Catches (m : Magnitude) (x : ℚ) : Prop where
  le_left : (m.quanta : ℚ) - (spacing (m.quanta - 1) : ℚ) / 2 ≤ x
  le_right : x ≤ m.quanta + (spacing m.quanta : ℚ) / 2
  /-- The points just halfway belong to the even significand. -/
  even :
    x = m.quanta - (spacing (m.quanta - 1) : ℚ) / 2 ∨ x = m.quanta + (spacing m.quanta : ℚ) / 2 →
      m.quanta / spacing m.quanta % 2 = 0

variable {m : Magnitude} {num den : Nat}

/-- On both sides a magnitude catches at least what is closer than half the distance to the one
before. -/
lemma catches_of_abs_lt {x : ℚ} (h : |x - m.quanta| < (spacing (m.quanta - 1) : ℚ) / 2) :
    m.Catches x := by
  have hle : (spacing (m.quanta - 1) : ℚ) ≤ spacing m.quanta :=
    Nat.cast_le.mpr (Nat.le_of_dvd (spacing_pos _) (spacing_dvd_spacing (Nat.sub_le _ _)))
  obtain ⟨hleft, hright⟩ := abs_lt.mp h
  exact ⟨by linarith, by linarith, fun htie => by rcases htie with htie | htie <;> linarith⟩

/-- A magnitude catches itself. -/
lemma catches_quanta : m.Catches m.quanta := by
  have hstep : (0 : ℚ) < spacing (m.quanta - 1) := Nat.cast_pos.mpr (spacing_pos _)
  apply catches_of_abs_lt
  rw [sub_self, abs_zero]
  linarith

/-- What is caught, in whole numbers. -/
lemma catches_div_iff (hden : 0 < den) :
    m.Catches (num / den) ↔
      2 * (m.quanta * den) ≤ 2 * num + spacing (m.quanta - 1) * den ∧
      2 * num ≤ 2 * (m.quanta * den) + spacing m.quanta * den ∧
      (2 * num + spacing (m.quanta - 1) * den = 2 * (m.quanta * den) ∨
        2 * num = 2 * (m.quanta * den) + spacing m.quanta * den →
          m.quanta / spacing m.quanta % 2 = 0) := by
  have hpos : (0 : ℚ) < den := Nat.cast_pos.mpr hden
  have hle_left : (m.quanta : ℚ) - (spacing (m.quanta - 1) : ℚ) / 2 ≤ num / den ↔
      2 * (m.quanta * den) ≤ 2 * num + spacing (m.quanta - 1) * den := by
    rw [le_div_iff₀ hpos, ← @Nat.cast_le ℚ]
    push_cast
    constructor <;> intro h <;> linarith
  have hle_right : (num : ℚ) / den ≤ m.quanta + (spacing m.quanta : ℚ) / 2 ↔
      2 * num ≤ 2 * (m.quanta * den) + spacing m.quanta * den := by
    rw [div_le_iff₀ hpos, ← @Nat.cast_le ℚ]
    push_cast
    constructor <;> intro h <;> linarith
  have heq_left : (num : ℚ) / den = m.quanta - (spacing (m.quanta - 1) : ℚ) / 2 ↔
      2 * num + spacing (m.quanta - 1) * den = 2 * (m.quanta * den) := by
    rw [div_eq_iff hpos.ne', ← @Nat.cast_inj ℚ]
    push_cast
    constructor <;> intro h <;> linarith
  have heq_right : (num : ℚ) / den = m.quanta + (spacing m.quanta : ℚ) / 2 ↔
      2 * num = 2 * (m.quanta * den) + spacing m.quanta * den := by
    rw [div_eq_iff hpos.ne', ← @Nat.cast_inj ℚ]
    push_cast
    constructor <;> intro h <;> linarith
  constructor
  · rintro ⟨h, h', heven⟩
    exact ⟨hle_left.mp h, hle_right.mp h',
      fun htie => heven (htie.imp heq_left.mpr heq_right.mpr)⟩
  · rintro ⟨h, h', heven⟩
    exact ⟨hle_left.mpr h, hle_right.mpr h',
      fun htie => heven (htie.imp heq_left.mp heq_right.mp)⟩

/-- The multiple of a step that is nearest to a quotient. -/
lemma roundHalfEven_mul_eq {q step : Nat} (hden : 0 < den) (hstep : 0 < step) (hq : step ∣ q)
    (hlower : 2 * (q * den) ≤ 2 * num + step * den) (hupper : 2 * num ≤ 2 * (q * den) + step * den)
    (heven : 2 * num + step * den = 2 * (q * den) ∨ 2 * num = 2 * (q * den) + step * den →
      q / step % 2 = 0) :
    roundHalfEven num (den * step) * step = q := by
  obtain ⟨n, rfl⟩ := hq
  rw [Nat.mul_div_cancel_left n hstep] at heven
  have hproduct : n * (den * step) = step * n * den := by ring
  rw [roundHalfEven_eq (n := n) (Nat.mul_pos hden hstep), Nat.mul_comm]
  all_goals rw [hproduct, Nat.mul_comm den step]
  · exact hlower
  · exact hupper
  · exact heven

/-- What is even in some steps is even in smaller steps. -/
lemma even_of_dvd {q step less : Nat} (hstep : 0 < step) (hless : less ∣ step) (hq : step ∣ q)
    (heven : q / step % 2 = 0) : q / less % 2 = 0 := by
  have hsteps : q / step ∣ q / less := by
    refine ⟨step / less, ?_⟩
    rw [Nat.div_mul_div_comm hq hless, Nat.mul_comm, Nat.mul_div_mul_left _ _ hstep]
  exact Nat.mod_eq_zero_of_dvd (Nat.dvd_trans (Nat.dvd_of_mod_eq_zero heven) hsteps)

/-- What a magnitude catches rounds to it. -/
theorem nearest?_eq_some (hden : 0 < den) (h : m.Catches ((num * unit : Nat) / den)) :
    nearest? num den = some m := by
  obtain ⟨hlower, hupper, heven⟩ := (catches_div_iff hden).mp h
  have hdvd : spacing m.quanta ∣ m.quanta := Nat.dvd_of_mod_eq_zero m.representable.2
  obtain ⟨n, hn⟩ : ∃ n, num * unit / den = n := ⟨_, rfl⟩
  have hfloor : n * den ≤ num * unit := hn ▸ Nat.div_mul_le_self _ den
  have hnext : num * unit < (n + 1) * den := by
    rw [← hn, Nat.mul_comm _ den]
    exact Nat.lt_mul_div_succ _ hden
  have hround : roundHalfEven (num * unit) (den * spacing n) * spacing n = m.quanta := by
    rcases Nat.lt_or_ge n m.quanta with hlt | hge
    · -- from below, with the distance to the magnitude before
      have hbelow : (n + 1) * den ≤ m.quanta * den := Nat.mul_le_mul_right den hlt
      have hspacing : spacing n = spacing (m.quanta - 1) := by
        refine spacing_of_lt hdvd hlt ?_
        by_contra hfar
        have hle := Nat.mul_le_mul_right den (Nat.not_lt.mp hfar)
        rw [Nat.add_mul, Nat.mul_assoc, Nat.mul_assoc] at hle
        omega
      rw [hspacing]
      have hless : spacing (m.quanta - 1) ∣ spacing m.quanta := spacing_dvd_spacing (by omega)
      refine roundHalfEven_mul_eq hden (spacing_pos _) (Nat.dvd_trans hless hdvd) hlower (by omega)
        fun htie => ?_
      exact even_of_dvd (spacing_pos _) hless hdvd (heven (htie.elim .inl fun _ => by omega))
    · -- from above, with the distance to the next magnitude
      have habove : m.quanta * den ≤ n * den := Nat.mul_le_mul_right den hge
      have hstep : 0 < spacing m.quanta * den := Nat.mul_pos (spacing_pos _) hden
      have hspacing : spacing n = spacing m.quanta := by
        refine spacing_of_lt_add hdvd hge ?_
        by_contra hfar
        have hle := Nat.mul_le_mul_right den (Nat.not_lt.mp hfar)
        rw [Nat.add_mul] at hle
        omega
      rw [hspacing]
      refine roundHalfEven_mul_eq hden (spacing_pos _) hdvd (by omega) hupper fun htie => ?_
      exact heven (htie.elim (fun _ => by omega) .inr)
  rw [nearest?, hn]
  simp only [hround, ofQuanta?, dif_pos m.representable]

end Magnitude

end PhraseScript
