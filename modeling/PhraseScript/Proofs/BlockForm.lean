import Mathlib.Tactic.Lemma
import PhraseScript.Proofs.Serialization

/-!
# Well-formed blocks

Every block has a documented form: its opcode, how many operands it takes, and what each of them
can be.  There are three kinds of block.  A *command* does something, a *reporter* gives a
number or a text, a *predicate* is true or false.  `IsBlock` says that a block has its form, and
that so has everything inside it, at any depth.

Which numbers may occur in a block is left open (`admissible`).  The main statements are
`Fits.firstDeferred?_eq_none` and `IsBlock.firstDeferred?_eq_none`: what is well-formed has no
deferred part, and so has a form in scripts.
-/

namespace PhraseScript

/-- What an operand can be. -/
inductive Slot where
  /-- A number. -/
  | number
  /-- A number of times. -/
  | count
  /-- A name or a message. -/
  | text
  /-- The word that stands for the one who speaks. -/
  | myself
  /-- The name of a list. -/
  | list
  /-- A place in a list. -/
  | place
  /-- A number, or what reports one. -/
  | value
  /-- A value or a text. -/
  | operand
  /-- What is true or false. -/
  | condition
  /-- What a variable can hold. -/
  | content
  /-- The commands inside a command. -/
  | body
deriving DecidableEq, Repr

/-- The kinds of block. -/
inductive BlockKind where
  | command
  | reporter
  | predicate
deriving DecidableEq, Repr

namespace BlockKind

open Opcode Slot in
/-- The documented forms of the blocks of each kind. -/
def forms : BlockKind → List (String × List Slot)
  | .command =>
    [(playSoundAndWait, [text]), (setVolume, [number]), (changeVolume, [number]),
      (changeTempo, [number]), (stopAllSounds, []), (createClone, [myself]), (deleteClone, []),
      (setVariable, [text, content]), (changeVariable, [text, value]),
      (appendToList, [operand, list]), (deleteLine, [place, list]),
      (setLine, [place, list, operand]), (resetTimer, []), (doIf, [condition, body]),
      (doIfElse, [condition, body, body]), (repeatTimes, [count, body]),
      (repeatUntil, [condition, body]), (repeatForever, [body]), (wait, [number]),
      (waitUntil, [condition]), (Opcode.broadcast, [text]), (broadcastAndWait, [text]),
      (whenGreenFlag, []), (whenKeyPressed, [text]), (whenClicked, []), (whenSceneStarts, [text]),
      (whenIReceive, [text])]
  | .reporter =>
    [(add, [value, value]), (subtract, [value, value]), (multiply, [value, value]),
      (divide, [value, value]), (random, [value, value]), (readVariable, [text]), (timer, []),
      (getLine, [place, list])]
  | .predicate =>
    [(less, [operand, operand]), (greater, [operand, operand]), (equal, [operand, operand]),
      (Opcode.or, [condition, condition]), (Opcode.and, [condition, condition]),
      (Opcode.not, [condition]), (listContains, [list, operand])]

end BlockKind

/-- A number of times: whole, and not below zero. -/
def Double.IsCount (x : Double) : Prop := x.IsWhole ∧ ¬x.IsNegative

/-- A place in a list: whole, and one or more. -/
def Double.IsPlace (x : Double) : Prop := x.AtLeastOne ∧ x.IsWhole

/-- One of the two numbers that stand for false and true. -/
def Double.IsTruthValue (x : Double) : Prop := x = .ofInt 0 ∨ x = .ofInt 1

section

variable (admissible : Double → Prop)

mutual

/-- A meaning can be the operand at a slot. -/
inductive Fits : Slot → Meaning → Prop where
  | number {x : Double} (hx : admissible x) : Fits .number (.number x)
  | count {x : Double} (hx : admissible x) (hcount : x.IsCount) : Fits .count (.number x)
  | text (text : String) : Fits .text (.text text)
  | myself : Fits .myself (.text "myself")
  | list (name : String) : Fits .list (.listName name)
  | place {x : Double} (hx : admissible x) (hplace : x.IsPlace) : Fits .place (.number x)
  | reportedPlace {block : Block} (h : IsBlock .reporter block) : Fits .place (.expression block)
  | constant {x : Double} (hx : admissible x) : Fits .value (.number x)
  | reporter {block : Block} (h : IsBlock .reporter block) : Fits .value (.expression block)
  | valueOperand {meaning : Meaning} (h : Fits .value meaning) : Fits .operand meaning
  | textOperand (text : String) : Fits .operand (.text text)
  | truth {x : Double} (hx : admissible x) (htruth : x.IsTruthValue) :
      Fits .condition (.number x)
  | predicate {block : Block} (h : IsBlock .predicate block) : Fits .condition (.expression block)
  | operandContent {meaning : Meaning} (h : Fits .operand meaning) : Fits .content meaning
  | conditionContent {meaning : Meaning} (h : Fits .condition meaning) : Fits .content meaning
  | body {blocks : List Block} (h : ∀ block ∈ blocks, IsBlock .command block) :
      Fits .body (.commands blocks)

/-- A block has one of the documented forms of its kind, and so has every block inside it. -/
inductive IsBlock : BlockKind → Block → Prop where
  | intro {kind : BlockKind} {opcode : String} {slots : List Slot} {operands : List Meaning}
      (form : (opcode, slots) ∈ kind.forms) (fill : Fill slots operands) :
      IsBlock kind (.mk opcode operands)

/-- Operands fill slots one by one. -/
inductive Fill : List Slot → List Meaning → Prop where
  | nil : Fill [] []
  | cons {slot : Slot} {slots : List Slot} {operand : Meaning} {operands : List Meaning}
      (head : Fits slot operand) (tail : Fill slots operands) :
      Fill (slot :: slots) (operand :: operands)

end

end

variable {admissible : Double → Prop}

/-! ### Blocks by the number of their operands -/

section Arity

variable {kind : BlockKind} {opcode : String} {slot₁ slot₂ slot₃ : Slot}
  {operand₁ operand₂ operand₃ : Meaning}

lemma IsBlock.nullary (form : (opcode, []) ∈ kind.forms) :
    IsBlock admissible kind (.mk opcode []) :=
  .intro form .nil

lemma IsBlock.unary (form : (opcode, [slot₁]) ∈ kind.forms) (h₁ : Fits admissible slot₁ operand₁) :
    IsBlock admissible kind (.mk opcode [operand₁]) :=
  .intro form (.cons h₁ .nil)

lemma IsBlock.binary (form : (opcode, [slot₁, slot₂]) ∈ kind.forms)
    (h₁ : Fits admissible slot₁ operand₁) (h₂ : Fits admissible slot₂ operand₂) :
    IsBlock admissible kind (.mk opcode [operand₁, operand₂]) :=
  .intro form (.cons h₁ (.cons h₂ .nil))

lemma IsBlock.ternary (form : (opcode, [slot₁, slot₂, slot₃]) ∈ kind.forms)
    (h₁ : Fits admissible slot₁ operand₁) (h₂ : Fits admissible slot₂ operand₂)
    (h₃ : Fits admissible slot₃ operand₃) :
    IsBlock admissible kind (.mk opcode [operand₁, operand₂, operand₃]) :=
  .intro form (.cons h₁ (.cons h₂ (.cons h₃ .nil)))

end Arity

/-! ### The form in scripts -/

mutual

/-- An operand has no deferred part. -/
theorem Fits.firstDeferred?_eq_none {slot : Slot} {meaning : Meaning} :
    Fits admissible slot meaning → meaning.firstDeferred? = none
  | .number _ | .count _ _ | .text _ | .myself | .list _ | .place _ _ | .constant _
  | .textOperand _ | .truth _ _ => rfl
  | .reportedPlace h | .reporter h | .predicate h => h.firstDeferred?_eq_none
  | .valueOperand h | .operandContent h | .conditionContent h => h.firstDeferred?_eq_none
  | .body h =>
    Meaning.blocksFirstDeferred?_eq_none_iff.mpr fun block hblock =>
      (h block hblock).firstDeferred?_eq_none

/-- A well-formed block has no deferred part. -/
theorem IsBlock.firstDeferred?_eq_none {kind : BlockKind} {block : Block} :
    IsBlock admissible kind block → Meaning.blockFirstDeferred? block = none
  | .intro _ fill => fill.firstDeferred?_eq_none

/-- Operands that fill slots have no deferred part. -/
theorem Fill.firstDeferred?_eq_none {slots : List Slot} {operands : List Meaning} :
    Fill admissible slots operands → Meaning.operandsFirstDeferred? operands = none
  | .nil => rfl
  | .cons head tail => by
    rw [Meaning.operandsFirstDeferred?, head.firstDeferred?_eq_none, Option.none_or,
      tail.firstDeferred?_eq_none]

end

end PhraseScript
