import Mathlib.Tactic.Lemma
import Mathlib.Tactic.SplitIfs
import PhraseScript.Text.LowerCase

/-!
# Lower case is put on once

A text that is in lower case stays as it is when it is put into lower case (`Text.toLower_toLower`).
The two letters that depend on their neighbours or become two characters are no exception: what they
become are small letters, which are left alone whatever stands beside them.

That the table of letters never has to be applied twice is read off its ranges, two at a time
(`CaseRange.apart`), and not off the letters in them.
-/

namespace PhraseScript.Text

/-! ### The table -/

namespace CaseRange

/-- The lower case forms of the letters of a range, as a range. -/
def small (range : CaseRange) : CaseRange :=
  ⟨(range.first + range.shift).toNat, (range.last + range.shift).toNat, range.step, 0⟩

/-- The letters of the first range are none of the second: they lie before it or after it, or else
in the gaps of a range that has only every other letter. -/
def apart (range other : CaseRange) : Bool :=
  Nat.blt range.last other.first || Nat.blt other.last range.first ||
    other.step == 2 && (range.step == 2 || range.first == range.last) &&
      (range.first + other.first) % 2 == 1

variable {range other : CaseRange} {n : Nat}

lemma contains_iff :
    range.contains n = true ↔
      range.first ≤ n ∧ n ≤ range.last ∧ (n - range.first) % range.step = 0 := by
  simp [contains, and_assoc]

lemma contains_small (hn : range.contains n = true) (hle : 0 ≤ range.first + range.shift) :
    range.small.contains (n + range.shift).toNat = true := by
  obtain ⟨hfirst, hlast, hstep⟩ := contains_iff.mp hn
  have hdiff : (n + range.shift).toNat - (range.first + range.shift).toNat = n - range.first := by
    omega
  refine contains_iff.mpr ⟨?_, ?_, ?_⟩
  · show (range.first + range.shift).toNat ≤ _
    omega
  · show _ ≤ (range.last + range.shift).toNat
    omega
  · rw [small, hdiff, hstep]

lemma not_contains_of_apart (h : range.apart other = true) (hn : range.contains n = true) :
    other.contains n = false := by
  obtain ⟨hfirst, hlast, hstep⟩ := contains_iff.mp hn
  rw [← Bool.not_eq_true, contains_iff]
  rintro ⟨hfirst', hlast', hstep'⟩
  simp only [apart, Bool.or_eq_true, Bool.and_eq_true, Nat.blt_eq, beq_iff_eq] at h
  rcases h with (hbefore | hafter) | ⟨⟨hother, hrange | hsingle⟩, hodd⟩
  · omega
  · omega
  · rw [hrange] at hstep
    rw [hother] at hstep'
    omega
  · rw [hother] at hstep'
    omega

end CaseRange

/-- The letters that are not in lower case: those of the table, and the capital I with a dot. -/
def capitalRanges : List CaseRange := ⟨0x130, 0x130, 1, 0⟩ :: lowerRanges

lemma small_apart :
    (lowerRanges.all fun range =>
      capitalRanges.all fun other => range.small.apart other) = true := by
  decide +kernel

lemma zero_le_first_add_shift : ∀ range ∈ lowerRanges, 0 ≤ range.first + range.shift := by
  decide +kernel

lemma not_contains_zero : ∀ range ∈ capitalRanges, range.contains 0 = false := by
  decide +kernel

/-- The table has the capital letters of ASCII in one range, and none other of its characters. -/
lemma ascii_of_first_lt : ∀ range ∈ capitalRanges, range.first < 0x80 →
    range.first = 0x41 ∧ range.last = 0x5A := by
  decide +kernel

/-! ### Small letters -/

/-- The character is not a letter that has another lower case form. -/
def IsSmall (c : Char) : Prop := ∀ range ∈ capitalRanges, range.contains c.toNat = false

instance (c : Char) : Decidable (IsSmall c) :=
  inferInstanceAs (Decidable (∀ range ∈ capitalRanges, range.contains c.toNat = false))

variable {c : Char}

lemma isUpper_iff : c.isUpper = true ↔ 0x41 ≤ c.toNat ∧ c.toNat ≤ 0x5A := by
  have hupper : c.isUpper = decide ('A'.val ≤ c.val ∧ c.val ≤ 'Z'.val) := rfl
  rw [hupper, decide_eq_true_iff, UInt32.le_iff_toNat_le, UInt32.le_iff_toNat_le]
  exact Iff.rfl

lemma isSmall_of_not_isUpper (hc : c.toNat < 0x80) (hupper : ¬c.isUpper = true) : IsSmall c := by
  intro range hrange
  rw [← Bool.not_eq_true]
  intro hcontains
  obtain ⟨hfirst, hlast, -⟩ := CaseRange.contains_iff.mp hcontains
  obtain ⟨hfirst', hlast'⟩ := ascii_of_first_lt range hrange (by omega)
  exact hupper (isUpper_iff.mpr (by omega))

lemma toNat_ofNat_eq_or (n : Nat) : (Char.ofNat n).toNat = n ∨ (Char.ofNat n).toNat = 0 := by
  by_cases h : n.isValidChar
  · exact .inl (by rw [Char.ofNat, dif_pos h]; rfl)
  · exact .inr (by rw [Char.ofNat, dif_neg h]; rfl)

/-- What a range of the table makes of a letter is small. -/
lemma isSmall_ofNat {range : CaseRange} (hrange : range ∈ lowerRanges)
    (hc : range.contains c.toNat = true) : IsSmall (Char.ofNat (c.toNat + range.shift).toNat) := by
  intro other hother
  rcases toNat_ofNat_eq_or (c.toNat + range.shift).toNat with heq | heq
  · have hapart := List.all_eq_true.mp (List.all_eq_true.mp small_apart range hrange) other hother
    rw [heq]
    exact CaseRange.not_contains_of_apart hapart
      (CaseRange.contains_small hc (zero_le_first_add_shift range hrange))
  · rw [heq]
    exact not_contains_zero other hother

lemma IsSmall.find?_eq_none (h : IsSmall c) : lowerRanges.find? (·.contains c.toNat) = none :=
  List.find?_eq_none.mpr fun range hrange => by simp [h range (List.mem_cons_of_mem _ hrange)]

lemma IsSmall.lowerChar_eq (h : IsSmall c) : lowerChar c = c := by
  have hupper : ¬c.isUpper = true := by
    intro hupper
    have hrange : (⟨0x41, 0x5A, 1, 32⟩ : CaseRange) ∈ capitalRanges :=
      List.mem_cons_of_mem _ (List.mem_cons_self ..)
    have hnot := h _ hrange
    rw [CaseRange.contains_iff.mpr] at hnot
    · cases hnot
    · exact ⟨(isUpper_iff.mp hupper).1, (isUpper_iff.mp hupper).2, Nat.mod_one _⟩
  rw [lowerChar, if_neg hupper, h.find?_eq_none]
  exact ite_self c

lemma isSmall_lowerChar (hc : c ≠ 'İ') : IsSmall (lowerChar c) := by
  rw [lowerChar]
  split_ifs with hascii hupper
  · have hrange : (⟨0x41, 0x5A, 1, 32⟩ : CaseRange) ∈ lowerRanges := List.mem_cons_self ..
    have hshifted := isSmall_ofNat hrange (CaseRange.contains_iff.mpr
      ⟨(isUpper_iff.mp hupper).1, (isUpper_iff.mp hupper).2, Nat.mod_one _⟩)
    have hcode : ((c.toNat : Int) + 32).toNat = c.toNat + 0x20 := by omega
    rwa [hcode] at hshifted
  · exact isSmall_of_not_isUpper hascii hupper
  · cases hfind : lowerRanges.find? (·.contains c.toNat) with
    | some range =>
      exact isSmall_ofNat (List.mem_of_find?_eq_some hfind) (by simpa using List.find?_some hfind)
    | none =>
      intro range hrange
      rcases List.mem_cons.mp hrange with rfl | hrange
      · rw [← Bool.not_eq_true, CaseRange.contains_iff]
        rintro ⟨hfirst, hlast, -⟩
        have hdotted : c.toNat = 'İ'.toNat := Nat.le_antisymm hlast hfirst
        exact hc (Char.toNat_inj.mp hdotted)
      · simpa using List.find?_eq_none.mp hfind range hrange

/-- A small letter stays as it is, whatever stands beside it. -/
lemma IsSmall.lowerAt_eq (h : IsSmall c) (before after : List Char) :
    lowerAt before c after = [c] := by
  have hsigma : ¬IsSmall 'Σ' := by decide +kernel
  have hdotted : ¬IsSmall 'İ' := by decide
  rw [lowerAt, if_neg fun hc : c = 'Σ' => hsigma (hc ▸ h),
    if_neg fun hc : c = 'İ' => hdotted (hc ▸ h), h.lowerChar_eq]

lemma isSmall_of_mem_lowerAt {d : Char} {before after : List Char}
    (h : d ∈ lowerAt before c after) : IsSmall d := by
  obtain ⟨hfinalSigma, hsigma, hi, hdot⟩ :
      IsSmall 'ς' ∧ IsSmall 'σ' ∧ IsSmall 'i' ∧ IsSmall '\u0307' := by
    decide +kernel
  rw [lowerAt] at h
  split_ifs at h with _ _ hdotted
  · rwa [List.mem_singleton.mp h]
  · rwa [List.mem_singleton.mp h]
  · rcases List.mem_cons.mp h with rfl | h
    · exact hi
    · rwa [List.mem_singleton.mp h]
  · rw [List.mem_singleton.mp h]
    exact isSmall_lowerChar hdotted

/-! ### Texts -/

lemma isSmall_of_mem_lowerFrom {d : Char} {before cs : List Char}
    (h : d ∈ lowerFrom before cs) : IsSmall d := by
  induction cs generalizing before with
  | nil => cases h
  | cons c cs ih =>
    rcases List.mem_append.mp h with h | h
    · exact isSmall_of_mem_lowerAt h
    · exact ih h

lemma lowerFrom_of_isSmall {cs : List Char} (h : ∀ c ∈ cs, IsSmall c) (before : List Char) :
    lowerFrom before cs = cs := by
  induction cs generalizing before with
  | nil => rfl
  | cons c cs ih =>
    rw [lowerFrom, (h c (List.mem_cons_self ..)).lowerAt_eq,
      ih fun d hd => h d (List.mem_cons_of_mem _ hd), List.singleton_append]

/-- A text in lower case stays as it is. -/
theorem toLower_toLower (s : String) : toLower (toLower s) = toLower s := by
  rw [toLower, toLower, String.toList_ofList,
    lowerFrom_of_isSmall fun _ => isSmall_of_mem_lowerFrom]

end PhraseScript.Text
