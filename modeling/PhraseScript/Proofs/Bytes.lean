import Mathlib.Data.List.Lex
import Mathlib.Data.String.Basic
import Mathlib.Tactic.Lemma
import Mathlib.Tactic.SplitIfs

/-!
# The bytes of texts

Texts are compared by their characters; `utf8Bytes_lt` shows that this is the order of their bytes.
A byte below 128 is a character by itself (`toNat_of_utf8Bytes`), so that what is to be known of the
characters of a plain text can be read off its bytes, which takes no decoding.
-/

namespace PhraseScript

/-- The bytes of a name in UTF-8. -/
def utf8Bytes (name : String) : List UInt8 := name.toUTF8.data.toList

lemma utf8Bytes_eq (name : String) :
    utf8Bytes name = name.toList.flatMap String.utf8EncodeChar := by
  rw [utf8Bytes, ← String.ofList_toList (s := name), String.toUTF8, String.toByteArray_ofList,
    List.utf8Encode, List.toList_data_toByteArray, String.ofList_toList]

lemma ofNat_cons_lt_of_le {a b : Nat} {rest rest' : List UInt8} (hb : b < 256) (hle : a ≤ b)
    (hrest : a = b → rest < rest') : UInt8.ofNat a :: rest < UInt8.ofNat b :: rest' := by
  rcases Nat.lt_or_eq_of_le hle with hlt | heq
  · have ha : a < 256 := Nat.lt_trans hlt hb
    exact List.cons_lt_cons_iff.mpr (.inl ((UInt8.ofNat_lt_iff_lt ha hb).mpr hlt))
  · exact List.cons_lt_cons_iff.mpr (.inr ⟨congrArg _ heq, hrest heq⟩)

/-- The bytes of a smaller character come first, whatever follows. -/
lemma utf8EncodeChar_append_lt {a b : Char} (h : a < b) (rest rest' : List UInt8) :
    String.utf8EncodeChar a ++ rest < String.utf8EncodeChar b ++ rest' := by
  have hlt : a.val.toNat < b.val.toNat := h
  have hb : b.val.toNat < 0x110000 := by
    have := b.valid
    simp only [UInt32.isValidChar, Nat.isValidChar] at this
    omega
  simp only [String.utf8EncodeChar]
  generalize a.val.toNat = v, b.val.toNat = w at *
  split_ifs
  -- byte by byte: if all bytes were equal, so would the characters be
  all_goals repeat refine ofNat_cons_lt_of_le (by omega) (by omega) fun _ => ?_
  all_goals omega

/-- Names in order are in the order of their bytes. -/
theorem utf8Bytes_lt {a b : String} (h : a < b) : utf8Bytes a < utf8Bytes b := by
  have hlists : ∀ chars chars' : List Char, chars < chars' →
      chars.flatMap String.utf8EncodeChar < chars'.flatMap String.utf8EncodeChar := by
    intro chars chars' h
    induction h with
    | @nil char rest =>
      rw [List.flatMap_nil, List.flatMap_cons]
      cases hbytes : String.utf8EncodeChar char with
      | nil => exact (String.utf8EncodeChar_ne_nil hbytes).elim
      | cons _ _ => exact List.nil_lt_cons _ _
    | rel hlt => exact utf8EncodeChar_append_lt hlt _ _
    | cons _ ih => exact List.Lex.append_left _ ih _
  rw [utf8Bytes_eq, utf8Bytes_eq]
  exact hlists _ _ (String.lt_iff_toList_lt.mp h)

/-- A text whose bytes are all below 128 has them for characters. -/
theorem toNat_of_utf8Bytes {name : String} (h : ∀ byte ∈ utf8Bytes name, byte.toNat < 128) :
    ∀ c ∈ name.toList, ∃ byte ∈ utf8Bytes name, c.toNat = byte.toNat := by
  intro c hc
  rw [utf8Bytes_eq] at h ⊢
  have hbytes : ∀ byte ∈ String.utf8EncodeChar c, byte.toNat < 128 := fun byte hbyte =>
    h byte (List.mem_flatMap.mpr ⟨c, hc, hbyte⟩)
  by_cases hsmall : c.val.toNat ≤ 127
  · have hencode : String.utf8EncodeChar c = [UInt8.ofNat c.val.toNat] := if_pos hsmall
    refine ⟨UInt8.ofNat c.val.toNat, List.mem_flatMap.mpr ⟨c, hc, ?_⟩, ?_⟩
    · rw [hencode]
      exact List.mem_singleton_self _
    · rw [UInt8.toNat_ofNat', ← Char.toNat_val]
      omega
  · -- the last byte of a longer character has its highest bit set
    have hlast : UInt8.ofNat (c.val.toNat % 64 + 128) ∈ String.utf8EncodeChar c := by
      simp only [String.utf8EncodeChar, if_neg hsmall]
      split_ifs <;> simp
    have hsmall' := hbytes _ hlast
    rw [UInt8.toNat_ofNat'] at hsmall'
    omega

end PhraseScript
