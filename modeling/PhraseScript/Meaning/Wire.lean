import PhraseScript.Fault
import PhraseScript.Json.Writer
import PhraseScript.Meaning.Basic

/-!
# The wire form of meanings

Scripts are JSON: a block is an array with its opcode first.  Deferred meanings have no such
form, and a meaning that contains one has none either.

How a meaning is serialized does not depend on what it is serialized to (`Format`).
`Meaning.toWire` makes a JSON value of it, after a search for a deferred part; `Meaning.write`
makes a text of it directly.  Both stop at the first part that has no form.
-/

namespace PhraseScript

/-- What meanings can be serialized to: what is made of each of their parts. -/
structure Format (α : Type) where
  null : α
  integer : Int → α
  /-- A number that is not serialized as an integer. -/
  real : Double → α
  string : String → α
  array : List α → α

namespace Format

/-- A number: an integer when it is whole and below `2 ^ 53` in magnitude. -/
def number {α : Type} (format : Format α) (x : Double) : α :=
  match x.toInt? with
  | some value => format.integer value
  | none => format.real x

/-- JSON values.  What is not finite is `null`. -/
def value : Format Json where
  null := .null
  integer := .int
  real
    | .finite negative magnitude => .number (.real negative magnitude)
    | _ => .null
  string := .string
  array := .array

/-- Compact JSON texts. -/
def text : Format String where
  null := "null"
  integer n := (Json.Number.integer n).text
  real
    | .finite negative magnitude => (Json.Number.real negative magnitude).text
    | _ => "null"
  string := Json.quote
  array items := "[" ++ ",".intercalate items ++ "]"

end Format

namespace Meaning

mutual

/-- The kind of the first deferred part of a meaning, from left to right. -/
def firstDeferred? : Meaning → Option Kind
  | .modifier _ => some .modifier
  | .comparator _ => some .comparator
  | .declaration _ => some .declaration
  | .expression block => blockFirstDeferred? block
  | .command block => blockFirstDeferred? block
  | .commands blocks => blocksFirstDeferred? blocks
  | .handler blocks => blocksFirstDeferred? blocks
  | _ => none

/-- The kind of the first deferred part of a block. -/
def blockFirstDeferred? : Block → Option Kind
  | .mk _ operands => operandsFirstDeferred? operands

/-- The kind of the first deferred part among operands. -/
def operandsFirstDeferred? : List Meaning → Option Kind
  | [] => none
  | operand :: rest => (firstDeferred? operand).or (operandsFirstDeferred? rest)

/-- The kind of the first deferred part among blocks. -/
def blocksFirstDeferred? : List Block → Option Kind
  | [] => none
  | block :: rest => (blockFirstDeferred? block).or (blocksFirstDeferred? rest)

end

mutual

/-- The JSON value of a meaning; deferred parts are left out as `null`. -/
def wire : Meaning → Json
  | .number value => value.toJson
  | .text value => .string value
  | .variableName name => .string name
  | .listName name => .string name
  | .expression block => blockWire block
  | .command block => blockWire block
  | .commands blocks => .array (blocksWire blocks)
  | .handler blocks => .array (blocksWire blocks)
  | _ => .null

/-- The JSON value of a block: an array with the opcode first. -/
def blockWire : Block → Json
  | .mk opcode operands => .array (.string opcode :: operandsWire operands)

/-- The JSON values of operands. -/
def operandsWire : List Meaning → List Json
  | [] => []
  | operand :: rest => wire operand :: operandsWire rest

/-- The JSON values of blocks. -/
def blocksWire : List Block → List Json
  | [] => []
  | block :: rest => blockWire block :: blocksWire rest

end

section Serialize

variable {α : Type} (format : Format α)

mutual

/-- A meaning in a format, or the kind of the part at which this stops. -/
def serialize : Meaning → Except Kind α
  | .null => .ok format.null
  | .number value => .ok (format.number value)
  | .text value => .ok (format.string value)
  | .variableName name => .ok (format.string name)
  | .listName name => .ok (format.string name)
  | .expression block => serializeBlock block
  | .command block => serializeBlock block
  | .commands blocks => return format.array (← serializeBlocks blocks)
  | .handler blocks => return format.array (← serializeBlocks blocks)
  | .modifier _ => .error .modifier
  | .comparator _ => .error .comparator
  | .declaration _ => .error .declaration

/-- A block in a format: the opcode and the operands. -/
def serializeBlock : Block → Except Kind α
  | .mk opcode operands =>
    return format.array (format.string opcode :: (← serializeOperands operands))

/-- Operands in a format. -/
def serializeOperands : List Meaning → Except Kind (List α)
  | [] => .ok []
  | operand :: rest => return (← serialize operand) :: (← serializeOperands rest)

/-- Blocks in a format. -/
def serializeBlocks : List Block → Except Kind (List α)
  | [] => .ok []
  | block :: rest => return (← serializeBlock block) :: (← serializeBlocks rest)

end

end Serialize

/-- The wire form of a meaning, which has to be free of deferred parts.  Nothing else can go
wrong in the serialization; it would be reported with the kind of the meaning. -/
def toWire (meaning : Meaning) : Except Fault Json :=
  match meaning.firstDeferred? with
  | some found => .error (.noWireForm found.name)
  | none =>
    match meaning.serialize .value with
    | .ok value => .ok value
    | .error _ => .error (.noWireForm meaning.kind.name)

/-- The text of a meaning, or the kind of the part at which writing stops. -/
def write (meaning : Meaning) : Except Kind String := meaning.serialize .text

end Meaning

end PhraseScript
