import PhraseScript.Proofs.Decimals
import PhraseScript.Proofs.Serialization
import PhraseScript.Proofs.Values

/-!
# Wire forms

Which JSON value is the form of a meaning is said by `Meaning.HasForm`, without a computation: a
block is an array with its opcode and the forms of its operands, several commands are an array of
blocks, a finite number is a number.  Modifiers, comparators and declarations have no form.

Both ways to write a meaning give this form whenever there is one, and otherwise both stop at the
first part without a form (`Meaning.forms_are_written`).  Parts are counted from left to right, a
part before what is inside it (`Meaning.parts`).
-/

namespace PhraseScript

/-! ### Numbers -/

namespace Double

/-- A JSON value is the form of a number: an integer when the number is whole and below `2 ^ 53`,
otherwise a real, and `null` when the number is not finite. -/
inductive HasForm (x : Double) : Json → Prop
  | integer (n : Int) (hfinite : x.IsFinite) (hvalue : x.toRat = n) (hsmall : n.natAbs < 2 ^ 53) :
    HasForm x (.number (.integer n))
  | real (negative : Bool) (magnitude : Magnitude) (hvalue : x = .finite negative magnitude)
    (hlarge : ∀ n : Int, x.toRat = n → 2 ^ 53 ≤ n.natAbs) :
    HasForm x (.number (.real negative magnitude))
  | null (hinfinite : ¬x.IsFinite) : HasForm x .null

variable {negative : Bool} {magnitude : Magnitude} {n : Int} {x : Double}

/-- A number is an integer exactly when it is one by its quanta. -/
lemma toRat_eq_intCast_iff :
    (finite negative magnitude).toRat = n ↔ (finite negative magnitude).isInteger n = true := by
  refine ⟨fun h => ?_, toRat_eq_of_isInteger⟩
  have hunit : (0 : ℚ) < Magnitude.unit := Magnitude.unit_pos
  have hnonneg : (0 : ℚ) ≤ magnitude.quanta / Magnitude.unit :=
    div_nonneg (Nat.cast_nonneg _) hunit.le
  have hsize : (magnitude.quanta / Magnitude.unit : ℚ) = ((n.natAbs : Int) : ℚ) →
      magnitude.quanta = n.natAbs * Magnitude.unit := fun hsize => by
    rw [Int.cast_natCast, div_eq_iff hunit.ne'] at hsize
    exact_mod_cast hsize
  simp only [toRat] at h
  simp only [isInteger, Bool.and_eq_true, decide_eq_true_eq]
  cases negative with
  | true =>
    rw [if_pos rfl] at h
    have hsign : n ≤ 0 := by
      have hle : (n : ℚ) ≤ 0 := h ▸ neg_nonpos.mpr hnonneg
      exact_mod_cast hle
    have habs : (n.natAbs : Int) = -n := Int.ofNat_natAbs_of_nonpos hsign
    exact ⟨hsize (by rw [habs, Int.cast_neg, ← h, neg_neg]), decide_eq_true hsign⟩
  | false =>
    rw [if_neg Bool.false_ne_true] at h
    have hsign : 0 ≤ n := by
      have hle : (0 : ℚ) ≤ n := h ▸ hnonneg
      exact_mod_cast hle
    have habs : (n.natAbs : Int) = n := Int.natAbs_of_nonneg hsign
    exact ⟨hsize (by rw [habs, h]), decide_eq_true hsign⟩

/-- An integer by its quanta is the part before the point with the sign. -/
lemma isInteger_iff :
    (finite negative magnitude).isInteger n = true ↔
      magnitude.IsWhole ∧ (if negative then -(magnitude.floor : Int) else magnitude.floor) = n := by
  have hunit : 0 < Magnitude.unit := twoTo_pos 1074
  have hquanta : magnitude.quanta = n.natAbs * Magnitude.unit ↔
      magnitude.IsWhole ∧ magnitude.floor = n.natAbs := by
    constructor
    · rintro h
      rw [Magnitude.IsWhole, Magnitude.floor, h]
      exact ⟨Nat.mul_mod_left _ _, Nat.mul_div_cancel _ hunit⟩
    · rintro ⟨hwhole, hfloor⟩
      rw [← hfloor]
      exact (Nat.div_mul_cancel (Nat.dvd_of_mod_eq_zero hwhole)).symm
  simp only [isInteger, Bool.and_eq_true, decide_eq_true_eq, hquanta, and_assoc]
  refine and_congr_right fun _ => ?_
  cases negative <;> simp only [if_true, Bool.false_eq_true, if_false, decide_eq_true_eq] <;> omega

lemma toInt?_eq_some_iff :
    x.toInt? = some n ↔ x.IsFinite ∧ x.toRat = n ∧ n.natAbs < 2 ^ 53 := by
  cases x with
  | finite negative magnitude =>
    have hsize : (if negative then -(magnitude.floor : Int) else magnitude.floor) = n →
        n.natAbs = magnitude.floor := by
      rintro rfl
      cases negative <;> simp
    rw [toRat_eq_intCast_iff, isInteger_iff, toInt?, Option.ite_none_right_eq_some, Option.some_inj]
    constructor
    · rintro ⟨⟨hwhole, hsmall⟩, hn⟩
      exact ⟨trivial, ⟨hwhole, hn⟩, (hsize hn).symm ▸ hsmall⟩
    · rintro ⟨-, ⟨hwhole, hn⟩, hsmall⟩
      exact ⟨⟨hwhole, (hsize hn) ▸ hsmall⟩, hn⟩
  | _ => simp [toInt?, IsFinite]

lemma toJson_of_toInt? (h : x.toInt? = some n) : x.toJson = .number (.integer n) := by
  simp only [toJson, h]
  rfl

lemma hasForm_iff {json : Json} : x.HasForm json ↔ json = x.toJson := by
  constructor
  · rintro (⟨n, hfinite, hvalue, hsmall⟩ | ⟨negative, magnitude, rfl, hlarge⟩ | hinfinite)
    · exact (toJson_of_toInt? (toInt?_eq_some_iff.mpr ⟨hfinite, hvalue, hsmall⟩)).symm
    · have hnone : (finite negative magnitude).toInt? = none := by
        refine Option.eq_none_iff_forall_ne_some.mpr fun n hn => ?_
        obtain ⟨-, hvalue, hsmall⟩ := toInt?_eq_some_iff.mp hn
        exact Nat.not_lt.mpr (hlarge n hvalue) hsmall
      rw [toJson, hnone]
    · cases x with
      | finite => exact absurd trivial hinfinite
      | _ => rfl
  · rintro rfl
    cases hinteger : x.toInt? with
    | some n =>
      obtain ⟨hfinite, hvalue, hsmall⟩ := toInt?_eq_some_iff.mp hinteger
      rw [toJson_of_toInt? hinteger]
      exact .integer n hfinite hvalue hsmall
    | none =>
      cases x with
      | finite negative magnitude =>
        rw [toJson, hinteger]
        refine .real negative magnitude rfl fun n hvalue => Nat.not_lt.mp fun hsmall => ?_
        cases hinteger.symm.trans (toInt?_eq_some_iff.mpr ⟨trivial, hvalue, hsmall⟩)
      | _ => exact .null id

/-- The text of the form of a number is read as this number. -/
lemma HasForm.toDouble_literal {number : Json.Number} (h : x.HasForm (.number number)) :
    number.literal.toDouble.IsFinite ∧ number.literal.toDouble.toRat = x.toRat := by
  cases h with
  | integer n hfinite hvalue hsmall =>
    cases x with
    | finite negative magnitude =>
      have hquanta : magnitude.quanta = n.natAbs * Magnitude.unit := by
        have hinteger := toRat_eq_intCast_iff.mp hvalue
        simp only [isInteger, Bool.and_eq_true, decide_eq_true_eq] at hinteger
        exact hinteger.1
      rw [Json.Number.toDouble_literal_integer hquanta, hvalue]
      refine ⟨trivial, toRat_eq_of_isInteger ?_⟩
      by_cases hsign : n < 0 <;> simp [isInteger, hquanta, hsign] <;> omega
    | _ => cases hfinite
  | real negative magnitude hvalue hlarge =>
    subst hvalue
    rw [Json.Number.toDouble_literal_real]
    exact ⟨trivial, rfl⟩

end Double

/-! ### Meanings -/

mutual

/-- A JSON value is the form of a meaning. -/
inductive Meaning.HasForm : Meaning → Json → Prop
  | null : Meaning.HasForm .null .null
  | number {x : Double} {json : Json} (h : x.HasForm json) : Meaning.HasForm (.number x) json
  | text (value : String) : Meaning.HasForm (.text value) (.string value)
  | variableName (name : String) : Meaning.HasForm (.variableName name) (.string name)
  | listName (name : String) : Meaning.HasForm (.listName name) (.string name)
  | expression {block : Block} {json : Json} (h : block.HasForm json) :
    Meaning.HasForm (.expression block) json
  | command {block : Block} {json : Json} (h : block.HasForm json) :
    Meaning.HasForm (.command block) json
  | commands {blocks : List Block} {items : List Json}
    (h : List.Forall₂ Block.HasForm blocks items) : Meaning.HasForm (.commands blocks) (.array items)
  | handler {blocks : List Block} {items : List Json}
    (h : List.Forall₂ Block.HasForm blocks items) : Meaning.HasForm (.handler blocks) (.array items)

/-- A JSON value is the form of a block: the opcode and the forms of the operands. -/
inductive Block.HasForm : Block → Json → Prop
  | mk {opcode : String} {operands : List Meaning} {items : List Json}
    (h : List.Forall₂ Meaning.HasForm operands items) :
    Block.HasForm (.mk opcode operands) (.array (.string opcode :: items))

end

namespace Meaning

mutual

/-- A meaning and what is inside it: from left to right, each part before its own parts. -/
def parts : Meaning → List Meaning
  | .expression block => .expression block :: blockParts block
  | .command block => .command block :: blockParts block
  | .commands blocks => .commands blocks :: blocksParts blocks
  | .handler blocks => .handler blocks :: blocksParts blocks
  | meaning => [meaning]

/-- What is inside a block. -/
def blockParts : Block → List Meaning
  | .mk _ operands => operandsParts operands

/-- Some operands and what is inside them. -/
def operandsParts : List Meaning → List Meaning
  | [] => []
  | operand :: rest => parts operand ++ operandsParts rest

/-- What is inside some blocks. -/
def blocksParts : List Block → List Meaning
  | [] => []
  | block :: rest => blockParts block ++ blocksParts rest

end

/-! ### The form is the value that is written -/

mutual

/-- What has a form has no deferred part, and the form is the value that is written. -/
theorem HasForm.eq_wire : {meaning : Meaning} → {json : Json} → meaning.HasForm json →
    meaning.firstDeferred? = none ∧ json = meaning.wire
  | .null, _, .null => ⟨rfl, rfl⟩
  | .number _, _, .number h => ⟨rfl, Double.hasForm_iff.mp h⟩
  | .text _, _, .text _ => ⟨rfl, rfl⟩
  | .variableName _, _, .variableName _ => ⟨rfl, rfl⟩
  | .listName _, _, .listName _ => ⟨rfl, rfl⟩
  | .expression _, _, .expression h => block_eq_wire h
  | .command _, _, .command h => block_eq_wire h
  | .commands _, _, .commands h => (blocks_eq_wire h).imp id (congrArg Json.array)
  | .handler _, _, .handler h => (blocks_eq_wire h).imp id (congrArg Json.array)

theorem block_eq_wire : {block : Block} → {json : Json} → block.HasForm json →
    blockFirstDeferred? block = none ∧ json = blockWire block
  | .mk opcode _, _, .mk h =>
    (operands_eq_wire h).imp id (congrArg fun items => Json.array (.string opcode :: items))

theorem operands_eq_wire : {operands : List Meaning} → {items : List Json} →
    List.Forall₂ HasForm operands items →
      operandsFirstDeferred? operands = none ∧ items = operandsWire operands
  | [], _, .nil => ⟨rfl, rfl⟩
  | _ :: _, _, .cons h hrest => by
    obtain ⟨hnone, rfl⟩ := h.eq_wire
    obtain ⟨hnone', rfl⟩ := operands_eq_wire hrest
    exact ⟨Option.or_eq_none_iff.mpr ⟨hnone, hnone'⟩, rfl⟩

theorem blocks_eq_wire : {blocks : List Block} → {items : List Json} →
    List.Forall₂ Block.HasForm blocks items →
      blocksFirstDeferred? blocks = none ∧ items = blocksWire blocks
  | [], _, .nil => ⟨rfl, rfl⟩
  | _ :: _, _, .cons h hrest => by
    obtain ⟨hnone, rfl⟩ := block_eq_wire h
    obtain ⟨hnone', rfl⟩ := blocks_eq_wire hrest
    exact ⟨Option.or_eq_none_iff.mpr ⟨hnone, hnone'⟩, rfl⟩

end

mutual

/-- Without a deferred part the value that is written is the form. -/
theorem hasForm_wire : (meaning : Meaning) → meaning.firstDeferred? = none →
    meaning.HasForm meaning.wire
  | .null, _ => .null
  | .number _, _ => .number (Double.hasForm_iff.mpr rfl)
  | .text value, _ => .text value
  | .variableName name, _ => .variableName name
  | .listName name, _ => .listName name
  | .expression block, h => .expression (block_hasForm_wire block h)
  | .command block, h => .command (block_hasForm_wire block h)
  | .commands blocks, h => .commands (blocks_hasForm_wire blocks h)
  | .handler blocks, h => .handler (blocks_hasForm_wire blocks h)
  | .modifier _, h | .comparator _, h | .declaration _, h => by cases h

theorem block_hasForm_wire : (block : Block) → blockFirstDeferred? block = none →
    block.HasForm (blockWire block)
  | .mk _ operands, h => .mk (operands_hasForm_wire operands h)

theorem operands_hasForm_wire : (operands : List Meaning) →
    operandsFirstDeferred? operands = none →
      List.Forall₂ HasForm operands (operandsWire operands)
  | [], _ => .nil
  | operand :: rest, h => by
    obtain ⟨hnone, hnone'⟩ := Option.or_eq_none_iff.mp h
    exact .cons (hasForm_wire operand hnone) (operands_hasForm_wire rest hnone')

theorem blocks_hasForm_wire : (blocks : List Block) → blocksFirstDeferred? blocks = none →
    List.Forall₂ Block.HasForm blocks (blocksWire blocks)
  | [], _ => .nil
  | block :: rest, h => by
    obtain ⟨hnone, hnone'⟩ := Option.or_eq_none_iff.mp h
    exact .cons (block_hasForm_wire block hnone) (blocks_hasForm_wire rest hnone')

end

lemma hasForm_iff {meaning : Meaning} {json : Json} :
    meaning.HasForm json ↔ meaning.firstDeferred? = none ∧ json = meaning.wire :=
  ⟨HasForm.eq_wire, fun ⟨hnone, heq⟩ => heq ▸ hasForm_wire meaning hnone⟩

/-! ### The first deferred part -/

/-- The kind of the first deferred one of some parts. -/
def firstDeferredOf? (parts : List Meaning) : Option Kind :=
  (parts.find? (·.kind.isDeferred)).map kind

lemma firstDeferredOf?_append (parts rest : List Meaning) :
    firstDeferredOf? (parts ++ rest) = (firstDeferredOf? parts).or (firstDeferredOf? rest) := by
  rw [firstDeferredOf?, firstDeferredOf?, firstDeferredOf?, List.find?_append, Option.map_or]

mutual

/-- The search finds the first deferred part. -/
theorem firstDeferred?_eq : (meaning : Meaning) →
    meaning.firstDeferred? = firstDeferredOf? meaning.parts
  | .null | .number _ | .text _ | .variableName _ | .listName _ | .modifier _ | .comparator _
  | .declaration _ => rfl
  | .expression block | .command block => blockFirstDeferred?_eq block
  | .commands blocks | .handler blocks => blocksFirstDeferred?_eq blocks

theorem blockFirstDeferred?_eq : (block : Block) →
    blockFirstDeferred? block = firstDeferredOf? (blockParts block)
  | .mk _ operands => operandsFirstDeferred?_eq operands

theorem operandsFirstDeferred?_eq : (operands : List Meaning) →
    operandsFirstDeferred? operands = firstDeferredOf? (operandsParts operands)
  | [] => rfl
  | operand :: rest => by
    rw [operandsFirstDeferred?, operandsParts, firstDeferredOf?_append, firstDeferred?_eq operand,
      operandsFirstDeferred?_eq rest]

theorem blocksFirstDeferred?_eq : (blocks : List Block) →
    blocksFirstDeferred? blocks = firstDeferredOf? (blocksParts blocks)
  | [] => rfl
  | block :: rest => by
    rw [blocksFirstDeferred?, blocksParts, firstDeferredOf?_append, blockFirstDeferred?_eq block,
      blocksFirstDeferred?_eq rest]

end

lemma firstDeferred?_of_find? {meaning part : Meaning}
    (h : meaning.parts.find? (·.kind.isDeferred) = some part) :
    meaning.firstDeferred? = some part.kind := by
  rw [firstDeferred?_eq, firstDeferredOf?, h, Option.map_some]

lemma firstDeferred?_eq_none_iff {meaning : Meaning} :
    meaning.firstDeferred? = none ↔ ∀ part ∈ meaning.parts, part.kind.isDeferred = false := by
  rw [firstDeferred?_eq, firstDeferredOf?, Option.map_eq_none_iff, List.find?_eq_none]
  simp only [Bool.not_eq_true]

lemma exists_hasForm_iff {meaning : Meaning} :
    (∃ json, meaning.HasForm json) ↔ ∀ part ∈ meaning.parts, part.kind.isDeferred = false := by
  rw [← firstDeferred?_eq_none_iff]
  exact ⟨fun ⟨_, h⟩ => h.eq_wire.1, fun h => ⟨_, hasForm_wire meaning h⟩⟩

/-! ### Both ways of writing -/

variable {meaning : Meaning}

lemma toWire_eq_ok_iff {json : Json} : meaning.toWire = .ok json ↔ meaning.HasForm json := by
  rw [hasForm_iff]
  cases hdeferred : meaning.firstDeferred? with
  | some kind => simp [toWire_eq_error hdeferred]
  | none => simp [toWire_eq_ok hdeferred, eq_comm]

lemma write_eq_ok_iff {text : String} :
    meaning.write = .ok text ↔ ∃ json, meaning.HasForm json ∧ text = json.compact := by
  simp only [hasForm_iff]
  cases hdeferred : meaning.firstDeferred? with
  | some kind => simp [write_eq, hdeferred, writtenAs]
  | none => simp [write_eq_ok hdeferred, eq_comm]

lemma write_eq_error {kind : Kind} (h : meaning.firstDeferred? = some kind) :
    meaning.write = .error kind := by
  rw [write_eq, h]
  rfl

/-- Both ways to write a meaning give its form, as a value and as the text of this value.  There is
a form exactly when no part is deferred.  Otherwise both stop at the first deferred part and name
its kind; after the search for it nothing goes wrong any more.  The text of a number in a form is
read as this number. -/
theorem forms_are_written (meaning : Meaning) :
    (∀ json, meaning.toWire = .ok json ↔ meaning.HasForm json) ∧
    (∀ text, meaning.write = .ok text ↔ ∃ json, meaning.HasForm json ∧ text = json.compact) ∧
    ((∃ json, meaning.toWire = .ok json) ↔
      ∀ part ∈ meaning.parts, part.kind.isDeferred = false) ∧
    ((∃ text, meaning.write = .ok text) ↔
      ∀ part ∈ meaning.parts, part.kind.isDeferred = false) ∧
    (∀ part, meaning.parts.find? (·.kind.isDeferred) = some part →
      (∃ fault : Fault, meaning.toWire = .error fault ∧ fault.code = "SERIALIZE" ∧
        fault.message = part.kind.name ++ " has no wire form") ∧
      meaning.write = .error part.kind) ∧
    ¬(meaning.firstDeferred? = none ∧ ∃ kind, meaning.serialize .value = .error kind) ∧
    ∀ (x : Double) (number : Json.Number), x.HasForm (.number number) →
      number.literal.toDouble.IsFinite ∧ number.literal.toDouble.toRat = x.toRat := by
  refine ⟨fun json => toWire_eq_ok_iff, fun text => write_eq_ok_iff, ?_, ?_, fun part hpart => ?_,
    ?_, fun x number h => h.toDouble_literal⟩
  · exact (exists_congr fun json => toWire_eq_ok_iff).trans exists_hasForm_iff
  · rw [← exists_hasForm_iff]
    constructor
    · rintro ⟨text, htext⟩
      obtain ⟨json, hform, -⟩ := write_eq_ok_iff.mp htext
      exact ⟨json, hform⟩
    · rintro ⟨json, hform⟩
      exact ⟨json.compact, write_eq_ok_iff.mpr ⟨json, hform, rfl⟩⟩
  · have hdeferred := firstDeferred?_of_find? hpart
    exact ⟨⟨_, toWire_eq_error hdeferred, rfl, rfl⟩, write_eq_error hdeferred⟩
  · rintro ⟨hnone, kind, herror⟩
    cases (serialize_value_eq_ok hnone).symm.trans herror

end Meaning

end PhraseScript
