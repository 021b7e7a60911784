import PhraseScript.Proofs.InnerBlocks
import PhraseScript.Proofs.Values

/-!
# Figures in scripts

A number of times, and a place in a list, is the first operand of its block.  When it is a number,
it is the *figure* of the block (`Block.figure?`).  In the value that is written for a meaning,
the arrays with a figure are those for the blocks inside the meaning
(`Meaning.exists_of_mem_arrays_wire`).

How a figure is written depends on its size alone: as an integer below `2 ^ 53`, with a point
from there on (`Double.IsCount.exists_nat`).
-/

namespace PhraseScript

/-! ### Whole numbers -/

/-- A number of times is a natural number.  It is written as an integer if it is below `2 ^ 53`,
and otherwise as a real. -/
lemma Double.IsCount.exists_nat {x : Double} (h : x.IsCount) :
    ∃ n : Nat, x.toRat = n ∧ (x.AtLeastOne → 1 ≤ n) ∧
      (n < 2 ^ 53 → x.toJson = .number (.integer n)) ∧
      (2 ^ 53 ≤ n → ∃ magnitude, x = .finite false magnitude ∧
        x.toJson = .number (.real false magnitude)) := by
  obtain ⟨hwhole, hnonnegative⟩ := h
  cases x with
  | finite negative magnitude =>
    have hunit : 0 < Magnitude.unit := twoTo_pos 1074
    have hquanta : magnitude.quanta = magnitude.floor * Magnitude.unit :=
      (Nat.div_mul_cancel (Nat.dvd_of_mod_eq_zero hwhole)).symm
    -- below zero there is only the negative zero
    have hzero : negative = true → magnitude.floor = 0 := by
      intro hnegative
      have hnone : magnitude.quanta = 0 := not_not.mp fun hne => hnonnegative ⟨hnegative, hne⟩
      rw [Magnitude.floor, hnone, Nat.zero_div]
    refine ⟨magnitude.floor, ?_, ?_, ?_, ?_⟩
    · rw [← Int.cast_natCast]
      apply toRat_eq_of_isInteger
      cases negative with
      | true => simp [isInteger, hquanta, hzero rfl]
      | false => simp [isInteger, hquanta]
    · rintro ⟨-, hone⟩
      exact (Nat.one_le_div_iff hunit).mpr hone
    · intro hsmall
      have hinteger : (finite negative magnitude).toInt? = some magnitude.floor := by
        rw [toInt?, if_pos ⟨hwhole, hsmall⟩]
        cases negative with
        | true => simp [hzero rfl]
        | false => rfl
      rw [toJson, hinteger]
      rfl
    · intro hlarge
      have hpositive : negative = false := by
        cases negative with
        | true => simp [hzero rfl] at hlarge
        | false => rfl
      subst hpositive
      have hnone : (finite false magnitude).toInt? = none :=
        if_neg fun hsmall => Nat.not_lt.mpr hlarge hsmall.2
      refine ⟨magnitude, rfl, ?_⟩
      rw [toJson, hnone]
  | _ => cases hwhole

/-! ### Figures of blocks -/

/-- The opcodes of the blocks that have a number of times or a place in a list in front. -/
def Opcode.counting : List String := [repeatTimes, deleteLine, setLine, getLine]

/-- The number of times or the place of a block, if it is a number, after the opcode. -/
def Block.figure? : Block → Option (String × Double)
  | .mk opcode (.number x :: _) => if opcode ∈ Opcode.counting then some (opcode, x) else none
  | _ => none

lemma Block.figure?_eq_some_iff {block : Block} {opcode : String} {x : Double} :
    block.figure? = some (opcode, x) ↔
      opcode ∈ Opcode.counting ∧ ∃ rest, block = .mk opcode (.number x :: rest) := by
  constructor
  · intro h
    rw [figure?.eq_def] at h
    split at h
    · next opcode' x' rest =>
      obtain ⟨hcounting, heq⟩ := Option.ite_none_right_eq_some.mp h
      cases heq
      exact ⟨hcounting, rest, rfl⟩
    · cases h
  · rintro ⟨hcounting, rest, rfl⟩
    exact if_pos hcounting

namespace Json

/-- The number of times or the place of an array that stands for a block, after the opcode. -/
def figure? : List Json → Option (String × Number)
  | .string opcode :: .number n :: _ => if opcode ∈ Opcode.counting then some (opcode, n) else none
  | _ => none

mutual

/-- The items of all arrays in a value. -/
def arrays : Json → List (List Json)
  | .array items => items :: itemArrays items
  | .object members => memberArrays members
  | _ => []

/-- The items of all arrays in some items. -/
def itemArrays : List Json → List (List Json)
  | [] => []
  | item :: rest => arrays item ++ itemArrays rest

/-- The items of all arrays in the values of members. -/
def memberArrays : List (String × Json) → List (List Json)
  | [] => []
  | (_, value) :: rest => arrays value ++ memberArrays rest

end

end Json

/-! ### Figures in written meanings -/

namespace Meaning

/-- Only numbers are written as numbers. -/
lemma exists_of_wire_eq_number {meaning : Meaning} {n : Json.Number}
    (h : meaning.wire = .number n) : ∃ x, meaning = .number x ∧ x.toJson = .number n := by
  cases meaning with
  | number x => exact ⟨x, rfl, h⟩
  | expression block | command block =>
    cases block
    cases h
  | _ => cases h

/-- The figure of an array that is written for a block is that of the block. -/
lemma exists_figure?_of_blockWire {block : Block} {items : List Json} {opcode : String}
    {n : Json.Number} (hblock : blockWire block = .array items)
    (h : Json.figure? items = some (opcode, n)) :
    ∃ x, block.figure? = some (opcode, x) ∧ x.toJson = .number n := by
  obtain ⟨opcode', operands⟩ := block
  obtain rfl := Json.array.inj hblock
  cases operands with
  | nil => cases h
  | cons operand rest =>
    rw [operandsWire, Json.figure?.eq_def] at h
    split at h
    · next heq =>
      obtain ⟨hopcode, hrest⟩ := List.cons.inj heq
      obtain ⟨hwire, -⟩ := List.cons.inj hrest
      cases hopcode
      obtain ⟨hcounting, hfigure⟩ := Option.ite_none_right_eq_some.mp h
      obtain ⟨x, rfl, hjson⟩ := exists_of_wire_eq_number hwire
      cases hfigure
      exact ⟨x, Block.figure?_eq_some_iff.mpr ⟨hcounting, rest, rfl⟩, hjson⟩
    · cases h

variable {items : List Json}

/-- Blocks are written as arrays, which no opcode precedes. -/
lemma figure?_blocksWire (blocks : List Block) : Json.figure? (blocksWire blocks) = none := by
  rcases blocks with _ | ⟨⟨opcode, operands⟩, rest⟩ <;> rfl

lemma arrays_number (x : Double) : x.toJson.arrays = [] := by
  rw [Double.toJson.eq_def]
  split
  · rfl
  · split <;> rfl

mutual

/-- The arrays with a figure in what is written for a meaning are those for the blocks inside. -/
theorem exists_of_mem_arrays_wire (hfigure : (Json.figure? items).isSome) : (meaning : Meaning) →
    items ∈ meaning.wire.arrays → ∃ block ∈ meaning.inner, blockWire block = .array items
  | .null, h | .text _, h | .variableName _, h | .listName _, h | .modifier _, h
  | .comparator _, h | .declaration _, h => by cases h
  | .number x, h => by
    rw [wire, arrays_number] at h
    cases h
  | .expression block, h | .command block, h => exists_of_mem_arrays_blockWire hfigure block h
  | .commands blocks, h | .handler blocks, h => by
    rcases List.mem_cons.mp h with rfl | h
    · rw [figure?_blocksWire] at hfigure
      cases hfigure
    · exact exists_of_mem_arrays_blocksWire hfigure blocks h

theorem exists_of_mem_arrays_blockWire (hfigure : (Json.figure? items).isSome) :
    (block : Block) → items ∈ (blockWire block).arrays →
      ∃ inner ∈ block.inner, blockWire inner = .array items
  | .mk opcode operands, h => by
    rcases List.mem_cons.mp h with rfl | h
    · exact ⟨_, .head _, rfl⟩
    · obtain ⟨inner, hinner, hwire⟩ := exists_of_mem_arrays_operandsWire hfigure operands h
      exact ⟨inner, .tail _ hinner, hwire⟩

theorem exists_of_mem_arrays_operandsWire (hfigure : (Json.figure? items).isSome) :
    (operands : List Meaning) → items ∈ Json.itemArrays (operandsWire operands) →
      ∃ block ∈ innerOfOperands operands, blockWire block = .array items
  | [], h => by cases h
  | operand :: rest, h => by
    rcases List.mem_append.mp h with h | h
    · obtain ⟨block, hblock, hwire⟩ := exists_of_mem_arrays_wire hfigure operand h
      exact ⟨block, List.mem_append_left _ hblock, hwire⟩
    · obtain ⟨block, hblock, hwire⟩ := exists_of_mem_arrays_operandsWire hfigure rest h
      exact ⟨block, List.mem_append_right _ hblock, hwire⟩

theorem exists_of_mem_arrays_blocksWire (hfigure : (Json.figure? items).isSome) :
    (blocks : List Block) → items ∈ Json.itemArrays (blocksWire blocks) →
      ∃ block ∈ innerOfBlocks blocks, blockWire block = .array items
  | [], h => by cases h
  | block :: rest, h => by
    rcases List.mem_append.mp h with h | h
    · obtain ⟨inner, hinner, hwire⟩ := exists_of_mem_arrays_blockWire hfigure block h
      exact ⟨inner, List.mem_append_left _ hinner, hwire⟩
    · obtain ⟨inner, hinner, hwire⟩ := exists_of_mem_arrays_blocksWire hfigure rest h
      exact ⟨inner, List.mem_append_right _ hinner, hwire⟩

end

end Meaning

end PhraseScript
