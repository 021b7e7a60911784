import Mathlib.Algebra.Group.Int.Defs
import Mathlib.Tactic.Lemma
import PhraseScript.Json.Reading
import PhraseScript.Json.Writer

/-!
# Texts of numbers

Whatever number is written, its text is a number for the reader, too: it has digits on both
sides of its point and no idle zero in front (`Json.Token.number?_text`).  The text of a real is
that of the decimal chosen for it (`Json.isNumberText_realText`).  Integers of at most 64 bits
come back as integers (`Json.Number.ofLiteral?_integer`).
-/

namespace PhraseScript

/-! ### Digits -/

lemma isDigit_of_mem_toDigits {n : Nat} : ∀ c ∈ Nat.toDigits 10 n, c.isDigit = true :=
  fun _ hc => Nat.isDigit_of_mem_toDigits (by omega) (by omega) hc

/-- Only zero is written with a zero in front. -/
lemma head?_toDigits_ne_zero {n : Nat} (h : n ≠ 0) : (Nat.toDigits 10 n).head? ≠ some '0' := by
  induction n using Nat.strongRecOn with
  | ind n ih =>
    by_cases hlt : n < 10
    · have hdigit : ∀ n < 10, n ≠ 0 → Nat.digitChar n ≠ '0' := by decide
      rw [Nat.toDigits_of_lt_base hlt, List.head?_singleton]
      exact fun heq => hdigit n hlt h (Option.some.inj heq)
    · -- the last digit is cut off
      have hrest := ih (n / 10) (by omega) (by omega)
      rw [Nat.toDigits_of_base_le (by omega) (by omega), List.head?_append]
      obtain ⟨c, cs, hdigits⟩ :=
        List.exists_cons_of_ne_nil (Nat.toDigits_ne_nil : Nat.toDigits 10 (n / 10) ≠ [])
      simpa [hdigits] using hrest

namespace Literal

lemma digitsValue_eq (read : Nat) (cs : List Char) :
    digitsValue read cs = Nat.ofDigitChars 10 cs read := by
  induction cs generalizing read with
  | nil => rfl
  | cons c cs ih => rw [digitsValue.eq_def, Nat.ofDigitChars_cons, ← ih]

lemma le_digitsValue (read : Nat) (cs : List Char) : read ≤ digitsValue read cs := by
  induction cs generalizing read with
  | nil => exact Nat.le_refl read
  | cons c cs ih =>
    rw [digitsValue.eq_def]
    exact Nat.le_trans (by omega) (ih _)

lemma digitsValue_toDigits (n : Nat) : digitsValue 0 (Nat.toDigits 10 n) = n := by
  rw [digitsValue_eq, Nat.ofDigitChars_toDigits (by omega) (by omega)]

/-! ### Texts of literals -/

/-- A point with the digits after it. -/
def fractionText : Option (List Char) → List Char
  | none => []
  | some digits => '.' :: digits

/-- The letter for a power of ten with the signed exponent. -/
def exponentText : Option Int → List Char
  | none => []
  | some exponent =>
    'e' :: (if 0 ≤ exponent then '+' else '-') :: Nat.toDigits 10 exponent.natAbs

/-- A literal without a sign as text. -/
def unsignedText (l : Literal) : List Char :=
  l.whole ++ (fractionText l.fraction ++ exponentText l.exponent)

/-- A literal as text. -/
def text (l : Literal) : List Char :=
  if l.negative then '-' :: l.unsignedText else l.unsignedText

/-- The decimal that a literal is, its sign aside. -/
def decimal (l : Literal) : Decimal :=
  ⟨digitsValue 0 (l.whole ++ l.fraction.getD []),
    l.exponent.getD 0 - (l.fraction.getD []).length⟩

/-- A literal has the form of a JSON number. -/
structure IsJson (l : Literal) : Prop where
  whole_ne_nil : l.whole ≠ []
  isDigit_whole : ∀ c ∈ l.whole, c.isDigit = true
  length_whole : l.whole.head? = some '0' → l.whole.length = 1
  fraction_ne_nil : l.fraction ≠ some []
  isDigit_fraction : ∀ digits, l.fraction = some digits → ∀ c ∈ digits, c.isDigit = true

variable {l : Literal}

lemma splitSign_of_isDigit {c : Char} (h : c.isDigit = true) (cs : List Char) :
    splitSign (c :: cs) = (false, c :: cs) := by
  have hminus : c ≠ '-' := fun he => absurd (he ▸ h) (by decide)
  have hplus : c ≠ '+' := fun he => absurd (he ▸ h) (by decide)
  rw [splitSign] <;> simp_all

lemma takeWhile_digits {cs rest : List Char} (h : ∀ c ∈ cs, c.isDigit = true)
    (hrest : ∀ c ∈ rest.head?, c.isDigit = false) :
    (cs ++ rest).takeWhile Char.isDigit = cs ∧ (cs ++ rest).dropWhile Char.isDigit = rest := by
  rw [List.takeWhile_append_of_pos h, List.dropWhile_append_of_pos h]
  cases rest with
  | nil => simp
  | cons c rest =>
    have hc : c.isDigit = false := hrest c rfl
    simp [hc]

lemma exponent?_exponentText (exponent : Option Int) :
    exponent? (exponentText exponent) = some exponent := by
  cases exponent with
  | none => rfl
  | some exponent =>
    obtain ⟨size, hsize⟩ : ∃ size, exponent.natAbs = size := ⟨_, rfl⟩
    have hdigits : (Nat.toDigits 10 size).all Char.isDigit = true :=
      List.all_eq_true.mpr isDigit_of_mem_toDigits
    by_cases h : 0 ≤ exponent
    · have hexponent : (size : Int) = exponent := by omega
      simp [exponentText, exponent?, h, splitSign, Nat.toDigits_ne_nil, hsize, hdigits,
        digitsValue_toDigits, hexponent]
    · have hexponent : -(size : Int) = exponent := by omega
      simp [exponentText, exponent?, h, splitSign, Nat.toDigits_ne_nil, hsize, hdigits,
        digitsValue_toDigits, hexponent]

lemma isDigit_head?_exponentText (exponent : Option Int) :
    ∀ c ∈ (exponentText exponent).head?, c.isDigit = false := by
  cases exponent with
  | none => simp [exponentText]
  | some exponent =>
    rintro c hc
    obtain rfl := Option.some.inj hc
    decide

lemma splitFraction_text (h : l.IsJson) :
    splitFraction (fractionText l.fraction ++ exponentText l.exponent) =
      (l.fraction, exponentText l.exponent) := by
  cases hfraction : l.fraction with
  | none =>
    cases l.exponent with
    | none => rfl
    | some exponent => simp [fractionText, exponentText, splitFraction]
  | some digits =>
    have hsplit := takeWhile_digits (h.isDigit_fraction digits hfraction)
      (isDigit_head?_exponentText l.exponent)
    simp [fractionText, splitFraction, hsplit]

lemma isDigit_head?_fractionText (l : Literal) :
    ∀ c ∈ (fractionText l.fraction ++ exponentText l.exponent).head?, c.isDigit = false := by
  cases l.fraction with
  | none => exact isDigit_head?_exponentText l.exponent
  | some digits =>
    rintro c hc
    obtain rfl := Option.some.inj hc
    decide

/-- The first character after the sign is a digit. -/
lemma IsJson.exists_unsignedText (h : l.IsJson) :
    ∃ c cs, l.unsignedText = c :: cs ∧ c.isDigit = true := by
  obtain ⟨c, cs, hwhole⟩ := List.exists_cons_of_ne_nil h.whole_ne_nil
  exact ⟨c, _, by rw [unsignedText, hwhole, List.cons_append],
    h.isDigit_whole c (by simp [hwhole])⟩

lemma splitSign_text (h : l.IsJson) : splitSign l.text = (l.negative, l.unsignedText) := by
  cases hnegative : l.negative with
  | true => rw [text, if_pos hnegative, splitSign]
  | false =>
    obtain ⟨c, cs, htext, hc⟩ := h.exists_unsignedText
    rw [text, hnegative, if_neg Bool.false_ne_true, htext, splitSign_of_isDigit hc]

/-- A literal is read off its text. -/
lemma read?_text (h : l.IsJson) : read? l.text = some l := by
  have hwhole := takeWhile_digits h.isDigit_whole (isDigit_head?_fractionText l)
  have hne : ¬(l.whole = [] ∧ l.fraction.getD [] = []) := fun hnil => h.whole_ne_nil hnil.1
  rw [read?, splitSign_text h]
  simp only [unsignedText, hwhole, splitFraction_text h, if_neg hne, exponent?_exponentText,
    Option.map_some]

end Literal

namespace Json

variable {l : Literal}

lemma Token.number?_text (h : l.IsJson) : Token.number? l.text = some (.number l) := by
  have hplus : l.text.head? ≠ some '+' := by
    obtain ⟨c, cs, htext, hc⟩ := h.exists_unsignedText
    rw [Literal.text]
    split
    · simp
    · rw [htext]
      rintro heq
      obtain rfl := Option.some.inj heq
      exact absurd hc (by decide)
  have hleading : ¬(l.whole.head? = some '0' ∧ l.whole.length ≠ 1) :=
    fun hzero => hzero.2 (h.length_whole hzero.1)
  simp [Token.number?, Literal.read?_text h, hplus, h.whole_ne_nil, h.fraction_ne_nil, hleading]

lemma isNumberChar_of_isDigit {c : Char} (h : c.isDigit = true) :
    Token.isNumberChar c = true := by
  simp [Token.isNumberChar, h]

/-- All characters of a literal belong to numbers. -/
lemma isNumberChar_of_mem_text (h : l.IsJson) : ∀ c ∈ l.text, Token.isNumberChar c = true := by
  have hfraction : ∀ c ∈ Literal.fractionText l.fraction, Token.isNumberChar c = true := by
    cases hdigits : l.fraction with
    | none => simp [Literal.fractionText]
    | some digits =>
      rintro c (_ | ⟨_, hc⟩)
      · decide
      · exact isNumberChar_of_isDigit (h.isDigit_fraction digits hdigits c hc)
  have hexponent : ∀ c ∈ Literal.exponentText l.exponent, Token.isNumberChar c = true := by
    cases l.exponent with
    | none => simp [Literal.exponentText]
    | some exponent =>
      rintro c (_ | ⟨_, _ | ⟨_, hc⟩⟩)
      · decide
      · split <;> decide
      · exact isNumberChar_of_isDigit (isDigit_of_mem_toDigits c hc)
  have hunsigned : ∀ c ∈ l.unsignedText, Token.isNumberChar c = true := by
    intro c hc
    rcases List.mem_append.mp hc with hc | hc
    · exact isNumberChar_of_isDigit (h.isDigit_whole c hc)
    · exact (List.mem_append.mp hc).elim (hfraction c) (hexponent c)
  intro c hc
  rw [Literal.text] at hc
  split at hc
  · rcases List.mem_cons.mp hc with rfl | hc
    · decide
    · exact hunsigned c hc
  · exact hunsigned c hc

end Json

/-! ### Texts of decimals -/

/-- A zero in front stands alone. -/
lemma length_toDigits_of_head? {n : Nat} (h : (Nat.toDigits 10 n).head? = some '0') :
    (Nat.toDigits 10 n).length = 1 := by
  by_cases hn : n = 0
  · subst hn
    rfl
  · exact absurd h (head?_toDigits_ne_zero hn)

namespace Decimal

variable {d : Decimal}

lemma isDigit_of_mem_digitText : ∀ c ∈ d.digitText, c.isDigit = true := isDigit_of_mem_toDigits

lemma digitText_ne_nil : d.digitText ≠ [] := Nat.toDigits_ne_nil

lemma digitsValue_digitText : Literal.digitsValue 0 d.digitText = d.digits :=
  Literal.digitsValue_toDigits d.digits

/-- Two decimals are the same number. -/
def Same (d d' : Decimal) : Prop :=
  d.digits * tenTo (d.exponent - d'.exponent).toNat =
    d'.digits * tenTo (d'.exponent - d.exponent).toNat

/-- Zeros behind the digits do not change a decimal. -/
lemma same_of_zeros {d' : Decimal} (zeros : Nat) (hdigits : d'.digits = d.digits * tenTo zeros)
    (hexponent : d'.exponent = d.exponent - zeros) : d'.Same d := by
  have hless : (d'.exponent - d.exponent).toNat = 0 := by omega
  have hmore : (d.exponent - d'.exponent).toNat = zeros := by omega
  rw [Same, hless, hmore, hdigits]
  exact Nat.mul_one _

/-- A text is that of a decimal as an unsigned JSON number. -/
def IsNumberText (d : Decimal) (text : String) : Prop :=
  ∃ l : Literal, l.IsJson ∧ l.negative = false ∧ text.toList = l.unsignedText ∧ l.decimal.Same d

lemma isNumberText_scientific : IsNumberText d d.scientific := by
  obtain ⟨c, cs, htext⟩ := List.exists_cons_of_ne_nil (digitText_ne_nil (d := d))
  have hdigits : ∀ x ∈ c :: cs, x.isDigit = true := htext ▸ isDigit_of_mem_digitText
  have hfraction : (if cs = [] then none else some cs).getD [] = cs := by cases cs <;> rfl
  refine ⟨⟨false, [c], if cs = [] then none else some cs, some d.leadingExponent⟩, ?_, rfl, ?_,
    same_of_zeros 0 ?_ ?_⟩
  · constructor <;> simp_all
  · cases cs <;>
      simp [scientific, htext, Literal.unsignedText, Literal.fractionText, Literal.exponentText]
  · show Literal.digitsValue 0 ([c] ++ (if cs = [] then none else some cs).getD []) = _
    rw [hfraction, List.singleton_append, ← htext, digitsValue_digitText]
    exact (Nat.mul_one _).symm
  · show d.leadingExponent - ((if cs = [] then none else some cs).getD []).length = _
    rw [hfraction, leadingExponent, htext, List.length_cons]
    omega

/-- Digits around a point are a decimal when its digits are theirs, up to zeros at the end, and
its exponent counts the places after the point. -/
lemma isNumberText_of_point (whole fraction : List Char) (zeros : Nat) {text : String}
    (htext : text.toList = whole ++ '.' :: fraction) (hwhole : whole ≠ [])
    (hfraction : fraction ≠ []) (hdigit : ∀ c ∈ whole ++ fraction, c.isDigit = true)
    (hzero : whole.head? = some '0' → whole.length = 1)
    (hvalue : Literal.digitsValue 0 (whole ++ fraction) = d.digits * tenTo zeros)
    (hplaces : (fraction.length : Int) = zeros - d.exponent) : IsNumberText d text := by
  refine ⟨⟨false, whole, some fraction, none⟩, ?_, rfl, ?_, same_of_zeros zeros hvalue ?_⟩
  · exact ⟨hwhole, fun c hc => hdigit c (List.mem_append_left _ hc), hzero,
      fun hnil => hfraction (Option.some.inj hnil),
      fun _ heq c hc => hdigit c (List.mem_append_right _ (Option.some.inj heq ▸ hc))⟩
  · simp [htext, Literal.unsignedText, Literal.fractionText, Literal.exponentText]
  · show (0 : Int) - fraction.length = _
    omega

lemma isDigit_of_mem_zeros {count : Nat} : ∀ c ∈ List.replicate count '0', c.isDigit = true :=
  fun _ hc => List.eq_of_mem_replicate hc ▸ rfl

lemma digitsValue_digitText_append (zeros : Nat) :
    Literal.digitsValue 0 (d.digitText ++ List.replicate zeros '0') = d.digits * tenTo zeros := by
  rw [Literal.digitsValue_eq, Nat.ofDigitChars_append, Nat.ofDigitChars_replicate_zero,
    ← Literal.digitsValue_eq, digitsValue_digitText, Nat.mul_comm]
  rfl

lemma digitsValue_append_digitText (zeros : Nat) :
    Literal.digitsValue 0 (List.replicate zeros '0' ++ d.digitText) = d.digits := by
  rw [Literal.digitsValue_eq, Nat.ofDigitChars_append, Nat.ofDigitChars_replicate_zero,
    Nat.mul_zero, ← Literal.digitsValue_eq, digitsValue_digitText]

lemma isNumberText_positional_of_nonneg (hdigits : d.digits ≠ 0) (h : 0 ≤ d.exponent) :
    IsNumberText d (d.positional ++ ".0") := by
  have hhead : d.digitText.head? ≠ some '0' := head?_toDigits_ne_zero hdigits
  have hzeros : d.digitText ++ List.replicate d.exponent.toNat '0' ++ ['0'] =
      d.digitText ++ List.replicate (d.exponent.toNat + 1) '0' := by
    rw [List.append_assoc, ← List.replicate_succ']
  refine isNumberText_of_point (d.digitText ++ List.replicate d.exponent.toNat '0') ['0']
    (d.exponent.toNat + 1) (by simp [positional, h]) (by simp [digitText_ne_nil]) (by simp) ?_ ?_
    (hzeros ▸ digitsValue_digitText_append _) ?_
  · rw [hzeros]
    exact fun c hc => (List.mem_append.mp hc).elim (isDigit_of_mem_digitText c)
      (isDigit_of_mem_zeros c)
  · obtain ⟨c, cs, htext⟩ := List.exists_cons_of_ne_nil (digitText_ne_nil (d := d))
    rw [htext] at hhead ⊢
    exact fun hzero => absurd hzero hhead
  · rw [List.length_singleton]
    omega

/-- All digits stand after the point. -/
lemma isNumberText_positional_of_length_le (h : ¬0 ≤ d.exponent)
    (hlength : d.digitText.length ≤ (-d.exponent).toNat) : IsNumberText d d.positional := by
  obtain ⟨zeros, hzeros⟩ := Nat.exists_eq_add_of_le' hlength
  have hcount : (-d.exponent).toNat - d.digitText.length = zeros := by omega
  refine isNumberText_of_point ['0'] (List.replicate zeros '0' ++ d.digitText) 0
    (by simp [positional, h, hlength, hcount]) (by simp) (by simp [digitText_ne_nil]) ?_
    (fun _ => rfl) ?_ ?_
  · rw [← List.append_assoc, List.singleton_append, ← List.replicate_succ]
    exact fun c hc => (List.mem_append.mp hc).elim (isDigit_of_mem_zeros c)
      (isDigit_of_mem_digitText c)
  · rw [← List.append_assoc, List.singleton_append, ← List.replicate_succ,
      digitsValue_append_digitText]
    exact (Nat.mul_one _).symm
  · rw [List.length_append, List.length_replicate]
    omega

/-- The point stands among the digits. -/
lemma isNumberText_positional_of_lt_length (hdigits : d.digits ≠ 0) (h : ¬0 ≤ d.exponent)
    (hlength : ¬d.digitText.length ≤ (-d.exponent).toNat) : IsNumberText d d.positional := by
  have hhead : d.digitText.head? ≠ some '0' := head?_toDigits_ne_zero hdigits
  obtain ⟨before, hbefore⟩ : ∃ before, d.digitText.length - (-d.exponent).toNat = before :=
    ⟨_, rfl⟩
  refine isNumberText_of_point (d.digitText.take before) (d.digitText.drop before) 0
    (by simp [positional, h, hlength, hbefore]) ?_ ?_ ?_ ?_ ?_ ?_
  · rw [Ne, List.take_eq_nil_iff]
    exact fun hnil => hnil.elim (by omega) digitText_ne_nil
  · rw [Ne, List.drop_eq_nil_iff]
    omega
  · rw [List.take_append_drop]
    exact isDigit_of_mem_digitText
  · rw [List.head?_take, if_neg (by omega)]
    exact fun hzero => absurd hzero hhead
  · rw [List.take_append_drop, digitsValue_digitText]
    exact (Nat.mul_one _).symm
  · rw [List.length_drop]
    omega

end Decimal

namespace Json

lemma isNumberText_realText (magnitude : Magnitude) :
    (magnitude.shortest .even).IsNumberText (realText magnitude) := by
  simp only [realText]
  split
  · next hdigits =>
    refine ⟨⟨false, ['0'], some ['0'], none⟩, ?_, rfl, rfl, ?_⟩
    · constructor <;> simp
    · rw [Decimal.Same, hdigits, Nat.zero_mul]
      exact Nat.zero_mul _
  · next hdigits =>
    split
    · exact Decimal.isNumberText_scientific
    · split
      · next h => exact Decimal.isNumberText_positional_of_nonneg hdigits h
      · next h =>
        by_cases hlength : (magnitude.shortest .even).digitText.length ≤
            (-(magnitude.shortest .even).exponent).toNat
        · exact Decimal.isNumberText_positional_of_length_le h hlength
        · exact Decimal.isNumberText_positional_of_lt_length hdigits h hlength

namespace Number

/-- The literal of an integer. -/
def integerLiteral (value : Int) : Literal :=
  ⟨value < 0, Nat.toDigits 10 value.natAbs, none, none⟩

lemma isJson_integerLiteral (value : Int) : (integerLiteral value).IsJson where
  whole_ne_nil := Nat.toDigits_ne_nil
  isDigit_whole := isDigit_of_mem_toDigits
  length_whole := length_toDigits_of_head?
  fraction_ne_nil := by simp [integerLiteral]
  isDigit_fraction := by simp [integerLiteral]

lemma text_integer (value : Int) :
    (integer value).text.toList = (integerLiteral value).text := by
  by_cases h : value < 0 <;>
    simp [text, h, integerLiteral, naturalText, Literal.text, Literal.unsignedText,
      Literal.fractionText, Literal.exponentText]

/-- Every number is written as a literal in the form of JSON. -/
lemma exists_literal (n : Number) : ∃ l : Literal, l.IsJson ∧ n.text.toList = l.text := by
  cases n with
  | integer value => exact ⟨_, isJson_integerLiteral value, text_integer value⟩
  | real negative magnitude =>
    obtain ⟨l, hl, -, htext, -⟩ := isNumberText_realText magnitude
    refine ⟨{ l with negative }, ⟨hl.1, hl.2, hl.3, hl.4, hl.5⟩, ?_⟩
    cases negative <;> simpa [text, Literal.text, Literal.unsignedText] using htext

/-- The literal that the text of a number is. -/
def literal (n : Number) : Literal := (Literal.read? n.text.toList).getD ⟨false, [], none, none⟩

lemma literal_eq {n : Number} {l : Literal} (hl : l.IsJson) (htext : n.text.toList = l.text) :
    n.literal = l := by
  rw [literal, htext, Literal.read?_text hl, Option.getD_some]

lemma isJson_literal (n : Number) : n.literal.IsJson := by
  obtain ⟨l, hl, htext⟩ := n.exists_literal
  rwa [literal_eq hl htext]

lemma text_literal (n : Number) : n.literal.text = n.text.toList := by
  obtain ⟨l, hl, htext⟩ := n.exists_literal
  rw [literal_eq hl htext, htext]

/-! ### Integers come back -/

lemma takeDigits_eq {read : Nat} {digits : List Char}
    (h : Literal.digitsValue read digits < twoTo 64) :
    takeDigits read digits = (Literal.digitsValue read digits, []) := by
  induction digits generalizing read with
  | nil => rfl
  | cons c digits ih =>
    rw [Literal.digitsValue.eq_def] at h ⊢
    rw [takeDigits, if_pos (Nat.lt_of_le_of_lt (Literal.le_digitsValue _ digits) h), ih h]

/-- An integer of at most 64 bits comes back from its literal. -/
lemma ofLiteral?_integer {value : Int} (hlower : -(2 ^ 63) ≤ value) (hupper : value < 2 ^ 64) :
    ofLiteral? (integer value).literal = some (.integer value) := by
  have htwoTo : twoTo 63 = 2 ^ 63 ∧ twoTo 64 = 2 ^ 64 := ⟨rfl, rfl⟩
  obtain ⟨size, hsize⟩ : ∃ size, value.natAbs = size := ⟨_, rfl⟩
  have hdigits : takeDigits 0 (Nat.toDigits 10 size) = (size, []) := by
    have hvalue := Literal.digitsValue_toDigits size
    rw [takeDigits_eq (by rw [hvalue]; omega), hvalue]
  rw [literal_eq (isJson_integerLiteral value) (text_integer value)]
  by_cases hnegative : value < 0
  · have hrange : 0 < size ∧ size ≤ twoTo 63 := by omega
    simp [ofLiteral?, integerLiteral, hsize, hdigits, hnegative, hrange]
    omega
  · simp [ofLiteral?, integerLiteral, hsize, hdigits, hnegative]
    omega

end Number

end Json

end PhraseScript
