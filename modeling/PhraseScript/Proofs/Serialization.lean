import Mathlib.Tactic.Lemma
import PhraseScript.Script

/-!
# The two ways to write a meaning

A meaning is serialized to a JSON value (`Meaning.toWire`, after a search for deferred parts) or
directly to a text (`Meaning.write`).  By `Meaning.serialize_eq` serialization stops at the part
that the search finds first, in whatever format, and what it gives otherwise is made of the JSON
value of the meaning.  Hence both ways agree (`Meaning.write_eq`): where there is no deferred part,
the text is the compact text of the value.
-/

namespace PhraseScript

namespace Json

lemma compactItems_eq (items : List Json) :
    compactItems items = ",".intercalate (items.map compact) := by
  induction items with
  | nil => simp [compactItems, String.intercalate_nil]
  | cons item rest ih =>
    cases rest with
    | nil => simp [compactItems, String.intercalate_singleton]
    | cons next rest =>
      rw [compactItems, ih]
      · simp [String.intercalate_cons_cons]
      · simp

end Json

namespace Format

variable {α β : Type}

/-- A function turns one format into another, part by part. -/
structure Hom (format : Format α) (other : Format β) (f : α → β) : Prop where
  map_null : f format.null = other.null
  map_integer : ∀ n, f (format.integer n) = other.integer n
  map_real : ∀ x, f (format.real x) = other.real x
  map_string : ∀ s, f (format.string s) = other.string s
  map_array : ∀ items, f (format.array items) = other.array (items.map f)

lemma Hom.map_number {format : Format α} {other : Format β} {f : α → β} (h : Hom format other f)
    (x : Double) : f (format.number x) = other.number x := by
  rw [number, number]
  cases x.toInt? with
  | some n => exact h.map_integer n
  | none => exact h.map_real x

lemma hom_id (format : Format α) : Hom format format id where
  map_null := rfl
  map_integer _ := rfl
  map_real _ := rfl
  map_string _ := rfl
  map_array items := by rw [List.map_id, id]

/-- Texts are those of the values. -/
lemma hom_compact : Hom value text Json.compact where
  map_null := rfl
  map_integer n := by simp only [value, text, Json.int, Json.compact]
  map_real x := by cases x <;> simp only [value, text, Json.compact]
  map_string s := by simp only [value, text, Json.compact]
  map_array items := by simp only [value, text, Json.compact, Json.compactItems_eq]

lemma number_value (x : Double) : value.number x = x.toJson := by
  cases x with
  | finite negative magnitude =>
    rw [number, Double.toJson]
    cases (Double.finite negative magnitude).toInt? <;> rfl
  | _ => rfl

end Format

namespace Meaning

/-- What has been written, or the kind of the part that prevents it. -/
def writtenAs {α : Type} (deferred : Option Kind) (written : α) : Except Kind α :=
  match deferred with
  | some kind => .error kind
  | none => .ok written

section Serialize

variable {α β : Type}

lemma writtenAs_bind (deferred deferred' : Option Kind) (written : α) (next : α → Except Kind β)
    (written' : β) (h : next written = writtenAs deferred' written') :
    (writtenAs deferred written >>= next) = writtenAs (deferred.or deferred') written' := by
  cases deferred with
  | some kind => rfl
  | none => exact h

/-- What is written last does not prevent anything. -/
lemma writtenAs_bind_pure (deferred : Option Kind) (written : α) (next : α → β) :
    (writtenAs deferred written >>= fun value => pure (next value)) =
      writtenAs deferred (next written) := by
  cases deferred <;> rfl

variable {format : Format α} {f : Json → α}

mutual

/-- Serialization gives what is made of the value of a meaning, or it stops at the part that the
search finds first. -/
theorem serialize_eq (h : Format.Hom .value format f) : (meaning : Meaning) →
    meaning.serialize format = writtenAs meaning.firstDeferred? (f meaning.wire)
  | .null => by simp [serialize, firstDeferred?, wire, writtenAs, ← h.map_null, Format.value]
  | .text _ | .variableName _ | .listName _ => by
    simp [serialize, firstDeferred?, wire, writtenAs, ← h.map_string, Format.value]
  | .number x => by
    simp [serialize, firstDeferred?, wire, writtenAs, ← h.map_number, Format.number_value]
  | .modifier _ | .comparator _ | .declaration _ => rfl
  | .expression block => by rw [serialize, serializeBlock_eq h block, firstDeferred?, wire]
  | .command block => by rw [serialize, serializeBlock_eq h block, firstDeferred?, wire]
  | .commands blocks | .handler blocks => by
    rw [serialize, serializeBlocks_eq h blocks, writtenAs_bind_pure, firstDeferred?, wire,
      ← h.map_array]
    rfl

theorem serializeBlock_eq (h : Format.Hom .value format f) : (block : Block) →
    serializeBlock format block = writtenAs (blockFirstDeferred? block) (f (blockWire block))
  | .mk opcode operands => by
    rw [serializeBlock, serializeOperands_eq h operands, writtenAs_bind_pure, blockFirstDeferred?,
      blockWire, ← h.map_string, ← List.map_cons, ← h.map_array]
    rfl

theorem serializeOperands_eq (h : Format.Hom .value format f) : (operands : List Meaning) →
    serializeOperands format operands =
      writtenAs (operandsFirstDeferred? operands) ((operandsWire operands).map f)
  | [] => rfl
  | operand :: rest => by
    rw [serializeOperands, serialize_eq h operand, serializeOperands_eq h rest,
      operandsFirstDeferred?, operandsWire]
    exact writtenAs_bind _ _ _ _ _ (writtenAs_bind_pure _ _ _)

theorem serializeBlocks_eq (h : Format.Hom .value format f) : (blocks : List Block) →
    serializeBlocks format blocks =
      writtenAs (blocksFirstDeferred? blocks) ((blocksWire blocks).map f)
  | [] => rfl
  | block :: rest => by
    rw [serializeBlocks, serializeBlock_eq h block, serializeBlocks_eq h rest,
      blocksFirstDeferred?, blocksWire]
    exact writtenAs_bind _ _ _ _ _ (writtenAs_bind_pure _ _ _)

end

end Serialize

/-- Writing gives the compact text of the value, or stops at the part that the search finds
first. -/
theorem write_eq (meaning : Meaning) :
    meaning.write = writtenAs meaning.firstDeferred? meaning.wire.compact :=
  serialize_eq Format.hom_compact meaning

/-- Without a deferred part serialization gives the value. -/
lemma serialize_value_eq_ok {meaning : Meaning} (h : meaning.firstDeferred? = none) :
    meaning.serialize .value = .ok meaning.wire := by
  rw [serialize_eq (Format.hom_id _), h]
  rfl

lemma toWire_eq_ok {meaning : Meaning} (h : meaning.firstDeferred? = none) :
    meaning.toWire = .ok meaning.wire := by
  simp only [toWire, h, serialize_value_eq_ok h]

lemma toWire_eq_error {meaning : Meaning} {kind : Kind} (h : meaning.firstDeferred? = some kind) :
    meaning.toWire = .error (.noWireForm kind.name) := by
  simp only [toWire, h]

lemma eq_wire_of_toWire {meaning : Meaning} {wire : Json} (h : meaning.toWire = .ok wire) :
    wire = meaning.wire := by
  cases hdeferred : meaning.firstDeferred? with
  | some kind => cases (toWire_eq_error hdeferred).symm.trans h
  | none => exact (Except.ok.inj ((toWire_eq_ok hdeferred).symm.trans h)).symm

lemma write_eq_ok {meaning : Meaning} (h : meaning.firstDeferred? = none) :
    meaning.write = .ok meaning.wire.compact := by
  rw [write_eq, h]
  rfl

lemma blocksFirstDeferred?_eq_none_iff {blocks : List Block} :
    blocksFirstDeferred? blocks = none ↔
      ∀ block ∈ blocks, blockFirstDeferred? block = none := by
  induction blocks with
  | nil => simp [blocksFirstDeferred?]
  | cons block rest ih => simp [blocksFirstDeferred?, ih]

end Meaning

end PhraseScript
