import Mathlib.Algebra.Order.Ring.Rat
import Mathlib.Algebra.Field.Rat
import Mathlib.Tactic.Ring
import PhraseScript.Grammar.Construction
import PhraseScript.Proofs.Integers

/-!
# Values of expressions

An expression has a value when it is known what its reporters report: the variables, the timer,
the words that are no numbers, the items of lists and the random numbers (`Reporters`).  Values
are rational numbers, without rounding and without bounds; what is true has the value one, what
is false the value zero.

For the parts from which conditions are made later, comparators and modifiers, there are lemmas
that say what the finished condition will have as its value.
-/

namespace PhraseScript

/-! ### Numbers -/

namespace Double

/-- The number that a double is.  What is no number counts as zero. -/
def toRat : Double → ℚ
  | .finite negative magnitude =>
    let size : ℚ := magnitude.quanta / Magnitude.unit
    if negative then -size else size
  | _ => 0

/-- The double is an integer, by its quanta. -/
def isInteger (n : Int) : Double → Bool
  | .finite negative magnitude =>
    magnitude.quanta = n.natAbs * Magnitude.unit && if negative then n ≤ 0 else 0 ≤ n
  | _ => false

lemma toRat_eq_of_isInteger {n : Int} {x : Double} (h : x.isInteger n = true) : x.toRat = n := by
  cases x with
  | finite negative magnitude =>
    simp only [isInteger, Bool.and_eq_true, decide_eq_true_eq] at h
    obtain ⟨hquanta, hsign⟩ := h
    have hunit : (Magnitude.unit : ℚ) ≠ 0 :=
      Nat.cast_ne_zero.mpr (Nat.pos_iff_ne_zero.mp (twoTo_pos 1074))
    have hsize : (magnitude.quanta / Magnitude.unit : ℚ) = (n.natAbs : ℚ) := by
      rw [hquanta, Nat.cast_mul, mul_div_assoc, div_self hunit, mul_one]
    simp only [toRat, hsize]
    cases negative with
    | true =>
      have habs : (n.natAbs : Int) = -n := Int.ofNat_natAbs_of_nonpos (of_decide_eq_true hsign)
      rw [if_pos rfl, ← Int.cast_natCast, habs, Int.cast_neg, neg_neg]
    | false =>
      have habs : (n.natAbs : Int) = n := Int.natAbs_of_nonneg (of_decide_eq_true hsign)
      rw [if_neg Bool.false_ne_true, ← Int.cast_natCast, habs]
  | _ => cases h

lemma toRat_ofInt {n : Int} (h : n.natAbs < twoTo 53) : (ofInt n).toRat = n := by
  apply toRat_eq_of_isInteger
  rw [ofInt_eq h]
  by_cases hsign : n < 0 <;> simp [isInteger, hsign] <;> omega

end Double

/-! ### Values -/

/-- What the reporters of a script report. -/
structure Reporters where
  ofVariable : String → ℚ
  ofTimer : ℚ
  /-- What a text counts as. -/
  ofWord : String → ℚ
  /-- The item at a place of a list. -/
  ofLine : ℚ → String → ℚ
  ofRandom : ℚ → ℚ → ℚ
  contains : String → ℚ → Bool
  /-- What a division by zero gives. -/
  overZero : ℚ

/-- The value of what is true or false. -/
def truthValue (truth : Bool) : ℚ := if truth then 1 else 0

/-- What an operand is to its block. -/
inductive Argument where
  | amount (value : ℚ)
  | list (name : String)
  | nothing

/-- The value of an argument. -/
def Argument.value : Argument → ℚ
  | .amount value => value
  | _ => 0

namespace Reporters

/-- What is left over right. -/
def quotient (R : Reporters) (left right : ℚ) : ℚ :=
  if right = 0 then R.overZero else left / right

/-- The operations on two values. -/
def operations (R : Reporters) : List (String × (ℚ → ℚ → ℚ)) :=
  [(Opcode.add, (· + ·)), (Opcode.subtract, (· - ·)), (Opcode.multiply, (· * ·)),
    (Opcode.divide, R.quotient), (Opcode.random, R.ofRandom),
    (Opcode.less, fun left right => truthValue (left < right)),
    (Opcode.greater, fun left right => truthValue (left > right)),
    (Opcode.equal, fun left right => truthValue (left = right)),
    (Opcode.and, fun left right => truthValue (left ≠ 0 ∧ right ≠ 0)),
    (Opcode.or, fun left right => truthValue (left ≠ 0 ∨ right ≠ 0))]

/-- What a block gives for its operands. -/
def report (R : Reporters) (opcode : String) : List Argument → ℚ
  | [] => if opcode = Opcode.timer then R.ofTimer else 0
  | [.amount value] => if opcode = Opcode.not then truthValue (value = 0) else 0
  | [.amount left, .amount right] => (R.operations.lookup opcode).elim 0 (· left right)
  | [.amount index, .list name] => if opcode = Opcode.getLine then R.ofLine index name else 0
  | [.list name, .amount item] =>
    if opcode = Opcode.listContains then truthValue (R.contains name item) else 0
  | _ => 0

end Reporters

/-- The variable that a block with those operands reads, if it reads one. -/
def readName? : List Meaning → Option String
  | .text name :: _ => some name
  | _ => none

mutual

/-- What a meaning is as the operand of a block. -/
def Meaning.argument (R : Reporters) : Meaning → Argument
  | .number value => .amount value.toRat
  | .text word => .amount (R.ofWord word)
  | .listName name => .list name
  | .expression block => .amount (block.value R)
  | _ => .nothing

/-- The value of a block. -/
def Block.value (R : Reporters) : Block → ℚ
  | .mk opcode operands =>
    if opcode = Opcode.readVariable then (readName? operands).elim 0 R.ofVariable
    else R.report opcode (operandArguments R operands)

/-- What some meanings are as the operands of a block. -/
def operandArguments (R : Reporters) : List Meaning → List Argument
  | [] => []
  | operand :: rest => operand.argument R :: operandArguments R rest

end

/-- The value of a meaning. -/
def Meaning.value (R : Reporters) (meaning : Meaning) : ℚ := (meaning.argument R).value

/-! ### Blocks on operands of known value -/

section

variable {R : Reporters} {left right meaning : Meaning} {a b : ℚ} {name : String}

@[simp] lemma argument_readVariable :
    (Meaning.readVariable name).argument R = .amount (R.ofVariable name) := by
  simp [Meaning.readVariable, Meaning.argument, Block.value, readName?]

lemma argument_minusOne : Construction.minusOne.argument R = .amount (-1) := by
  have hone : (Double.ofInt (-1)).toRat = ((-1 : Int) : ℚ) := Double.toRat_ofInt (by decide)
  rw [Construction.minusOne, Meaning.argument, hone]
  rfl

lemma argument_binary (opcode : String) {operation : ℚ → ℚ → ℚ}
    (hopcode : R.operations.lookup opcode = some operation) (hread : opcode ≠ Opcode.readVariable)
    (hleft : left.argument R = .amount a) (hright : right.argument R = .amount b) :
    (Meaning.expression (.mk opcode [left, right])).argument R = .amount (operation a b) := by
  rw [Meaning.argument, Block.value, if_neg hread]
  simp [operandArguments, hleft, hright, Reporters.report, hopcode]

lemma argument_getLine (hindex : left.argument R = .amount a) :
    (Meaning.expression (.mk Opcode.getLine [left, .listName name])).argument R =
      .amount (R.ofLine a name) := by
  rw [Meaning.argument, Block.value, if_neg (by decide)]
  simp [operandArguments, hindex, Meaning.argument, Reporters.report]

lemma argument_containsItem (hitem : meaning.argument R = .amount a) :
    (Construction.containsItem (.listName name) meaning).argument R =
      .amount (truthValue (R.contains name a)) := by
  rw [Construction.containsItem, Meaning.argument, Block.value, if_neg (by decide)]
  simp [operandArguments, hitem, Meaning.argument, Reporters.report]

/-! ### Conditions -/

/-- What a relation says of two values. -/
def Relation.holds : Relation → ℚ → ℚ → Bool
  | .less, a, b => a < b
  | .greater, a, b => a > b
  | .equal, a, b => a = b
  | .greaterOrEqual, a, b => a ≥ b
  | .lessOrEqual, a, b => a ≤ b

lemma argument_negated {truth : Bool} (h : meaning.argument R = .amount (truthValue truth)) :
    meaning.negated.argument R = .amount (truthValue !truth) := by
  rw [Meaning.negated, Meaning.argument, Block.value, if_neg (by decide)]
  cases truth <;> simp [operandArguments, h, Reporters.report, truthValue]

/-- A choice between two conditions. -/
lemma argument_or {p q : Bool} (hleft : left.argument R = .amount (truthValue p))
    (hright : right.argument R = .amount (truthValue q)) :
    (Meaning.expression (.mk Opcode.or [left, right])).argument R =
      .amount (truthValue (p || q)) := by
  rw [argument_binary Opcode.or rfl (by decide) hleft hright]
  cases p <;> cases q <;> simp [truthValue]

/-- Both of two conditions. -/
lemma argument_and {p q : Bool} (hleft : left.argument R = .amount (truthValue p))
    (hright : right.argument R = .amount (truthValue q)) :
    (Meaning.expression (.mk Opcode.and [left, right])).argument R =
      .amount (truthValue (p && q)) := by
  rw [argument_binary Opcode.and rfl (by decide) hleft hright]
  cases p <;> cases q <;> simp [truthValue]

lemma argument_relation (relation : Relation) (hleft : left.argument R = .amount a)
    (hright : right.argument R = .amount b) :
    (relation.between left right).argument R = .amount (truthValue (relation.holds a b)) := by
  have hless := argument_binary Opcode.less rfl (by decide) hleft hright
  have hgreater := argument_binary Opcode.greater rfl (by decide) hleft hright
  have hequal := argument_binary Opcode.equal rfl (by decide) hleft hright
  cases relation with
  | less => exact hless
  | greater => exact hgreater
  | equal => exact hequal
  | greaterOrEqual =>
    have h := argument_or hgreater hequal
    rwa [show (decide (a > b) || decide (a = b)) = decide (a ≥ b) by
      simp [le_iff_lt_or_eq, eq_comm]] at h
  | lessOrEqual =>
    have h := argument_or hless hequal
    rwa [show (decide (a < b) || decide (a = b)) = decide (a ≤ b) by
      simp [le_iff_lt_or_eq]] at h

end

/-! ### Modifiers -/

/-- A modifier denies what it is put around, or leaves it as it is. -/
def Modifier.Denies (modifier : Modifier) (denies : Bool) : Prop :=
  ∀ (R : Reporters) (meaning : Meaning) (truth : Bool),
    meaning.argument R = .amount (truthValue truth) →
      (modifier.around meaning).argument R = .amount (truthValue (denies ^^ truth))

/-- A comparator makes a condition that is true when a relation holds. -/
def Comparator.Tells (comparator : Comparator) (relation : ℚ → ℚ → Bool) : Prop :=
  ∀ (R : Reporters) (left right : Meaning) (a b : ℚ),
    left.argument R = .amount a → right.argument R = .amount b →
      (comparator.between left right).argument R = .amount (truthValue (relation a b))

namespace Modifier

lemma denies_affirm : (layer .affirm).Denies false := by
  intro R meaning truth h
  rw [Bool.false_xor]
  exact h

lemma denies_negate : (layer .negate).Denies true := by
  intro R meaning truth h
  rw [Bool.true_xor]
  exact argument_negated h

lemma around_after (outer inner : Modifier) (meaning : Meaning) :
    (outer.after inner).around meaning = outer.around (inner.around meaning) := by
  rw [around, layers_after, List.foldr_append]
  rfl

end Modifier

namespace Comparator

lemma tells_relation (relation : Relation) : Tells ⟨relation, none⟩ relation.holds :=
  fun _ _ _ _ _ hleft hright => argument_relation relation hleft hright

lemma between_modified (comparator : Comparator) (outer : Modifier) (left right : Meaning) :
    (comparator.modified outer).between left right =
      outer.around (comparator.between left right) := by
  obtain ⟨relation, modifier⟩ := comparator
  cases modifier with
  | none => rfl
  | some inner => exact outer.around_after inner _

/-- A modifier that is put around a comparator is put around its conditions. -/
lemma Tells.modified {comparator : Comparator} {relation : ℚ → ℚ → Bool} {outer : Modifier}
    {denies : Bool} (h : comparator.Tells relation) (houter : outer.Denies denies) :
    (comparator.modified outer).Tells fun a b => denies ^^ relation a b := by
  intro R left right a b hleft hright
  rw [between_modified]
  exact houter R _ _ (h R left right a b hleft hright)

end Comparator

end PhraseScript
