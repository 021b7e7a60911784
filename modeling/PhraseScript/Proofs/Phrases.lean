import PhraseScript.Proofs.Commands
import PhraseScript.Proofs.Evaluations
import PhraseScript.Proofs.Values

/-!
# What phrases say

The meaning of a phrase for numbers or conditions, read off its words without any evaluation
(`Derivation.sense`): a sum is the sum of what its two sides say, a comparison is true when its
relation holds of its two sides, and every negation turns a condition into its opposite.  The
table `Grammar.phrases` lists for each rule how the phrase is to be read.

The main statement is `Language.value_of_interpret_standard`: an expression that is made of a
phrase has the value that the phrase says.
-/

namespace PhraseScript

/-! ### Readings -/

/-- What a phrase says, by the kinds of phrase. -/
structure Saying where
  /-- The number that it says. -/
  amount : ℚ := 0
  /-- Whether what it says is true. -/
  truth : Bool := false
  /-- The relation that it says of two numbers. -/
  relation : ℚ → ℚ → Bool := fun _ _ => false
  /-- It turns what it is put around into its opposite. -/
  denies : Bool := false
  /-- The word that it is, in lower case. -/
  word : String := ""

/-- The kinds of phrase, by what they say. -/
inductive Reading where
  | amount
  | truth
  | relation
  | denial
  | variableName
  | listName
  /-- A text that stands for itself. -/
  | text
  /-- A word that may be a numeral. -/
  | word
deriving DecidableEq

namespace Reading

/-- The categories of phrases for numbers and conditions, and of what these are made of. -/
def categories : List (String × Reading) :=
  [("NP", .amount), ("NPP", .amount), ("DataReporter", .amount), ("Timer", .amount),
    ("ITEM", .amount), ("OrderAdverb", .amount), ("BP", .truth), ("Boolean", .truth),
    ("BooleanLiteral", .truth), ("CBP", .relation), ("LMOD", .denial), ("POS", .denial),
    ("NEG", .denial), ("VARIABLE_NAME", .variableName), ("LIST_NAME", .listName),
    ("MESSAGE_NAME", .text), ("Unk", .word)]

/-- How phrases of a category are read. -/
def ofCategory? (category : String) : Option Reading := categories.lookup category

/-- A meaning is what a phrase says. -/
def Agrees (R : Reporters) (saying : Saying) (meaning : Meaning) : Reading → Prop
  | .amount => meaning.argument R = .amount saying.amount
  | .truth => meaning.argument R = .amount (truthValue saying.truth)
  | .relation => ∃ comparator, meaning = .comparator comparator ∧ comparator.Tells saying.relation
  | .denial => ∃ modifier, meaning = .modifier modifier ∧ modifier.Denies saying.denies
  | .variableName => meaning = .variableName saying.word
  | .listName => meaning = .listName saying.word
  | .text => meaning = .text saying.word
  | .word => Producer.numeralOrText saying.word = .ok meaning

end Reading

namespace Reporters

/-- What a word counts as: a numeral as its number, and what is no numeral as itself. -/
def amountOfWord (R : Reporters) (word : String) : ℚ :=
  (numeral? word).elim (R.ofWord word) Double.toRat

/-- What a word counts as where a number is expected, with a resolver for other words for
numbers. -/
def amountOfNumber (R : Reporters) (numbers : NumberWords) (word : String) : ℚ :=
  ((numeral? word).or (numbers word)).elim (R.ofWord word) Double.toRat

end Reporters

/-- A side of a phrase, by the position of the child that it is. -/
inductive Side where
  /-- A phrase for a number. -/
  | amount (child : Nat)
  /-- A word that may be a word for a number. -/
  | number (child : Nat)
  /-- A word that may be a numeral. -/
  | word (child : Nat)
  /-- A text. -/
  | text (child : Nat)
  /-- The value of a variable. -/
  | variableName (child : Nat)
deriving DecidableEq

/-- The operations that phrases name. -/
inductive Arithmetic where
  | sum
  | difference
  | product
  | quotient
  | random
deriving DecidableEq

/-- How a phrase is read, by the positions of its parts. -/
inductive Phrase where
  /-- As its only important part. -/
  | same (reading : Reading) (child : Nat)
  /-- As the number that a side is. -/
  | term (side : Side)
  | arithmetic (operation : Arithmetic) (left right : Nat)
  | opposite (child : Nat)
  /-- As the item at a place of a list. -/
  | line (place list : Nat)
  | relation (relation : Relation)
  | modifiedRelation (denial relation : Nat)
  | comparison (left : Side) (relation : Nat) (right : Side)
  | modifiedTruth (denial truth : Nat)
  /-- That an item is in a list. -/
  | membership (item : Side) (list : Nat)
  | modifiedMembership (item : Side) (denial list : Nat)
  | both (left right : Nat)
  | either (left right : Nat)

namespace Arithmetic

/-- The result of an operation. -/
def result (R : Reporters) : Arithmetic → ℚ → ℚ → ℚ
  | .sum, a, b => a + b
  | .difference, a, b => a - b
  | .product, a, b => a * b
  | .quotient, a, b => R.quotient a b
  | .random, a, b => R.ofRandom a b

/-- The opcode of an operation. -/
def opcode : Arithmetic → String
  | .sum => Opcode.add
  | .difference => Opcode.subtract
  | .product => Opcode.multiply
  | .quotient => Opcode.divide
  | .random => Opcode.random

end Arithmetic

section

variable (R : Reporters) (numbers : NumberWords) (parts : Nat → Saying)

/-- The number that a side says. -/
def Side.amountSaid : Side → ℚ
  | .amount child => (parts child).amount
  | .number child => R.amountOfNumber numbers (parts child).word
  | .word child => R.amountOfWord (parts child).word
  | .text child => R.ofWord (parts child).word
  | .variableName child => R.ofVariable (parts child).word

/-- What a phrase says when its parts say something. -/
def Phrase.saying : Phrase → Saying
  | .same _ child => parts child
  | .term side => { amount := side.amountSaid R numbers parts }
  | .arithmetic operation left right =>
    { amount := operation.result R (parts left).amount (parts right).amount }
  | .opposite child => { amount := -(parts child).amount }
  | .line place list => { amount := R.ofLine (parts place).amount (parts list).word }
  | .relation kind => { relation := kind.holds }
  | .modifiedRelation denial inner =>
    { relation := fun a b => (parts denial).denies ^^ (parts inner).relation a b }
  | .comparison left comparator right =>
    { truth := (parts comparator).relation (left.amountSaid R numbers parts)
        (right.amountSaid R numbers parts) }
  | .modifiedTruth denial truth => { truth := (parts denial).denies ^^ (parts truth).truth }
  | .membership item list =>
    { truth := R.contains (parts list).word (item.amountSaid R numbers parts) }
  | .modifiedMembership item denial list =>
    { truth := (parts denial).denies ^^
        R.contains (parts list).word (item.amountSaid R numbers parts) }
  | .both left right => { truth := (parts left).truth && (parts right).truth }
  | .either left right => { truth := (parts left).truth || (parts right).truth }

end

/-! ### The phrases of the grammar -/

namespace Grammar

/-- Phrases for numbers.  What is subtracted from something stands in front of it. -/
def numberPhrases : List (RuleKey × Phrase) :=
  [(⟨"NP", ["Unk"]⟩, .term (.number 0)),
    (⟨"NP", ["VARIABLE_NAME"]⟩, .term (.variableName 0)),
    (⟨"NP", ["NPP"]⟩, .same .amount 0),
    (⟨"NP", ["Det", "NPP"]⟩, .same .amount 1),
    (⟨"NP", ["DataReporter"]⟩, .same .amount 0),
    (⟨"NP", ["NP", "Plus", "NP"]⟩, .arithmetic .sum 0 2),
    (⟨"NP", ["NP", "Added", "To", "NP"]⟩, .arithmetic .sum 0 3),
    (⟨"NPP", ["Sum", "Of", "NP", "And", "NP"]⟩, .arithmetic .sum 2 4),
    (⟨"NP", ["NP", "Minus", "NP"]⟩, .arithmetic .difference 0 2),
    (⟨"NP", ["NP", "Subtracted", "By", "NP"]⟩, .arithmetic .difference 0 3),
    (⟨"NP", ["NP", "Subtracted", "From", "NP"]⟩, .arithmetic .difference 3 0),
    (⟨"NP", ["NP", "Times", "NP"]⟩, .arithmetic .product 0 2),
    (⟨"NP", ["NP", "Multiplied", "By", "NP"]⟩, .arithmetic .product 0 3),
    (⟨"NPP", ["Product", "Of", "NP", "And", "NP"]⟩, .arithmetic .product 2 4),
    (⟨"NP", ["NP", "Divided", "By", "NP"]⟩, .arithmetic .quotient 0 3),
    (⟨"NPP", ["Random", "Number", "Between", "NP", "And", "NP"]⟩, .arithmetic .random 3 5),
    (⟨"NP", ["Negative", "NP"]⟩, .opposite 1),
    (⟨"DataReporter", ["The", "OrderAdverb", "Item", "In", "LIST_NAME"]⟩, .line 1 4),
    (⟨"DataReporter", ["Item", "NP", "Of", "LIST_NAME"]⟩, .line 1 3),
    (⟨"ITEM", ["NP"]⟩, .same .amount 0),
    (⟨"ITEM", ["DataReporter"]⟩, .same .amount 0),
    (⟨"ITEM", ["VARIABLE_NAME"]⟩, .term (.variableName 0)),
    (⟨"ITEM", ["Unk"]⟩, .term (.word 0)),
    (⟨"ITEM", ["MESSAGE_NAME"]⟩, .term (.text 0)),
    (⟨"Timer", ["Det", "Timer"]⟩, .same .amount 1)]

/-- Comparators and modifiers. -/
def relationPhrases : List (RuleKey × Phrase) :=
  [(⟨"CBP", ["Equal", "To"]⟩, .relation .equal),
    (⟨"CBP", ["Greater", "Than"]⟩, .relation .greater),
    (⟨"CBP", ["Less", "Than"]⟩, .relation .less),
    (⟨"CBP", ["Greater", "Than", "Or", "Equal", "To"]⟩, .relation .greaterOrEqual),
    (⟨"CBP", ["Less", "Than", "Or", "Equal", "To"]⟩, .relation .lessOrEqual),
    (⟨"CBP", ["LMOD", "CBP"]⟩, .modifiedRelation 0 1),
    (⟨"LMOD", ["POS"]⟩, .same .denial 0),
    (⟨"LMOD", ["NEG"]⟩, .same .denial 0),
    (⟨"NEG", ["Is", "NEG"]⟩, .same .denial 1)]

/-- Phrases for conditions. -/
def conditionPhrases : List (RuleKey × Phrase) :=
  [(⟨"BP", ["VARIABLE_NAME", "CBP", "Unk"]⟩, .comparison (.variableName 0) 1 (.number 2)),
    (⟨"BP", ["VARIABLE_NAME", "CBP", "VARIABLE_NAME"]⟩,
      .comparison (.variableName 0) 1 (.variableName 2)),
    (⟨"BP", ["Unk", "CBP", "Unk"]⟩, .comparison (.number 0) 1 (.number 2)),
    (⟨"BP", ["Timer", "CBP", "Unk"]⟩, .comparison (.amount 0) 1 (.number 2)),
    (⟨"BP", ["Boolean"]⟩, .same .truth 0),
    (⟨"Boolean", ["BooleanLiteral"]⟩, .same .truth 0),
    (⟨"Boolean", ["LMOD", "BooleanLiteral"]⟩, .modifiedTruth 0 1),
    (⟨"BP", ["Item", "Unk", "In", "LIST_NAME"]⟩, .membership (.number 1) 3),
    (⟨"BP", ["Item", "Unk", "LMOD", "In", "LIST_NAME"]⟩, .modifiedMembership (.number 1) 2 4),
    (⟨"BP", ["LIST_NAME", "Contains", "ITEM"]⟩, .membership (.amount 2) 0),
    (⟨"BP", ["BP", "And", "BP"]⟩, .both 0 2),
    (⟨"BP", ["BP", "Or", "BP"]⟩, .either 0 2)]

/-- Phrases for names.  The words around a name say nothing. -/
def namePhrases : List (RuleKey × Phrase) :=
  [(⟨"VARIABLE_NAME", ["Variable", "VARIABLE_NAME"]⟩, .same .variableName 1),
    (⟨"LIST_NAME", ["Det", "LIST_NAME"]⟩, .same .listName 1),
    (⟨"LIST_NAME", ["List", "LIST_NAME"]⟩, .same .listName 1),
    (⟨"MESSAGE_NAME", ["Det", "MESSAGE_NAME"]⟩, .same .text 1),
    (⟨"MESSAGE_NAME", ["Message", "MESSAGE_NAME"]⟩, .same .text 1)]

/-- How the phrases for numbers and conditions are read, and those they are made of. -/
def phrases : List (RuleKey × Phrase) :=
  numberPhrases ++ relationPhrases ++ conditionPhrases ++ namePhrases

end Grammar

/-- What a single word says.  An ordinal says its number. -/
def Reporters.sayingOfWord (R : Reporters) (category lower : String) : Saying where
  amount :=
    if category = "Timer" then R.ofTimer else ((Ordinal.table.lookup lower).getD 0 : Nat)
  truth := lower = "true"
  denies := category = "NEG"
  word := lower

namespace Derivation

variable (R : Reporters) (numbers : NumberWords)

mutual

/-- What a phrase says. -/
def saying : Derivation → Saying
  | .leaf category word _ => R.sayingOfWord category (Text.toLower word)
  | .node lhs rhs children _ =>
    match Grammar.phrases.lookup ⟨lhs, rhs⟩ with
    | some phrase => phrase.saying R numbers fun child => ((sayings children)[child]?).getD {}
    | none => {}

/-- What some phrases say. -/
def sayings : List Derivation → List Saying
  | [] => []
  | tree :: rest => saying tree :: sayings rest

end

lemma sayings_eq (trees : List Derivation) :
    sayings R numbers trees = trees.map (saying R numbers) := by
  induction trees with
  | nil => rfl
  | cons tree rest ih => rw [sayings, ih, List.map_cons]

end Derivation

/-! ### Children that say something -/

namespace Call

variable {R : Reporters} {call : Call} {position : Nat} {saying : Saying} {part meaning : Meaning}
  {environment : Environment}

/-- A word is a numeral, or it stands for itself. -/
lemma word_cases (h : Reading.Agrees R saying part .word) :
    (∃ value, numeral? saying.word = some value ∧ part = .number value) ∨
      numeral? saying.word = none ∧ part = .text saying.word := by
  have hword : Producer.numeralOrText saying.word = .ok part := h
  rw [Producer.numeralOrText] at hword
  split at hword
  · next value hvalue => exact .inl ⟨value, hvalue, (Except.ok.inj hword).symm⟩
  · next hnone => exact .inr ⟨hnone, (Except.ok.inj hword).symm⟩

/-- Where a number is expected, a word counts as the number that it names. -/
lemma toRat_number (hpart : call.part position = .ok part)
    (hagrees : Reading.Agrees R saying part .word) {value : Double}
    (h : call.number position = .ok value) :
    value.toRat = R.amountOfNumber call.numbers saying.word := by
  obtain ⟨found, hfound, hvalue⟩ := bind_eq_ok_iff.mp h
  obtain rfl := Except.ok.inj (hpart.symm.trans hfound)
  rw [Reporters.amountOfNumber]
  rcases word_cases hagrees with ⟨number, hnumber, rfl⟩ | ⟨hnone, rfl⟩
  · obtain rfl := Except.ok.inj hvalue
    rw [hnumber]
    rfl
  · dsimp only at hvalue
    split at hvalue
    · next number hnumber =>
      obtain rfl := Except.ok.inj hvalue
      rw [hnone, hnumber]
      rfl
    · cases hvalue

/-- Where a word for a number may stand, a word counts as the number that it names, or as
itself. -/
lemma argument_looseOperand (hpart : call.part position = .ok part)
    (hagrees : Reading.Agrees R saying part .word) (h : call.looseOperand position = .ok meaning) :
    meaning.argument R = .amount (R.amountOfNumber call.numbers saying.word) := by
  obtain ⟨found, hfound, hmeaning⟩ := bind_eq_ok_iff.mp h
  obtain rfl := Except.ok.inj (hpart.symm.trans hfound)
  rw [Reporters.amountOfNumber]
  rcases word_cases hagrees with ⟨number, hnumber, rfl⟩ | ⟨hnone, rfl⟩
  · obtain rfl := Except.ok.inj hmeaning
    rw [hnumber]
    rfl
  · dsimp only at hmeaning
    split at hmeaning
    · next number hnumber =>
      obtain rfl := Except.ok.inj hmeaning
      rw [hnone, hnumber]
      rfl
    · next hresolved =>
      obtain rfl := Except.ok.inj hmeaning
      rw [hnone, hresolved]
      rfl

/-- A child means what it says. -/
def Hears (R : Reporters) (call : Call) (parts : Nat → Saying) (input : Nat × Reading) : Prop :=
  ∃ part, call.part input.1 = .ok part ∧ input.2.Agrees R (parts input.1) part

end Call

/-! ### Phrases and constructions -/

namespace Side

/-- The child that a side is, and how it is read. -/
def input : Side → Nat × Reading
  | .amount child => (child, .amount)
  | .number child | .word child => (child, .word)
  | .text child => (child, .text)
  | .variableName child => (child, .variableName)

/-- The left side of a comparison. -/
def ofLeft : LeftSide → Side
  | .variableName => .variableName 0
  | .looseOperand => .number 0
  | .operand => .amount 0

end Side

namespace Phrase

/-- The children that a phrase is made of, and how they are read. -/
def inputs : Phrase → List (Nat × Reading)
  | .same reading child => [(child, reading)]
  | .term side => [side.input]
  | .arithmetic _ left right => [(left, .amount), (right, .amount)]
  | .opposite child => [(child, .amount)]
  | .line place list => [(place, .amount), (list, .listName)]
  | .relation _ => []
  | .modifiedRelation denial inner => [(denial, .denial), (inner, .relation)]
  | .comparison left comparator right => [left.input, (comparator, .relation), right.input]
  | .modifiedTruth denial truth => [(denial, .denial), (truth, .truth)]
  | .membership item list => [item.input, (list, .listName)]
  | .modifiedMembership item denial list => [item.input, (denial, .denial), (list, .listName)]
  | .both left right | .either left right => [(left, .truth), (right, .truth)]

/-- How a phrase is read. -/
def reading : Phrase → Reading
  | .same reading _ => reading
  | .term _ | .arithmetic _ _ _ | .opposite _ | .line _ _ => .amount
  | .relation _ | .modifiedRelation _ _ => .relation
  | .comparison _ _ _ | .modifiedTruth _ _ | .membership _ _ | .modifiedMembership _ _ _
  | .both _ _ | .either _ _ => .truth

/-- A construction makes what a phrase says out of its children. -/
def isMadeBy : Phrase → Construction → Bool
  | .same _ child, .pass position => child = position
  | .term (.number child), .numeral => child = 0
  | .term (.variableName child), .readVariable => child = 0
  | .term (.word child), .pass position | .term (.text child), .pass position => child = position
  | .arithmetic operation left right, .binary opcode first second =>
    operation.opcode = opcode && left = first && right = second
  | .opposite child, .negative => child = 1
  | .line place list, .getLine position other => place = position && list = other
  | .relation kind, .constant (.comparator ⟨other, none⟩) => kind = other
  | .modifiedRelation denial inner, .modifyComparator => denial = 0 && inner = 1
  | .comparison left comparator right, .compare side =>
    left = .ofLeft side && comparator = 1 && right = .number 2
  | .comparison left comparator right, .compareVariables =>
    left = .variableName 0 && comparator = 1 && right = .variableName 2
  | .modifiedTruth denial truth, .modifyLiteral => denial = 0 && truth = 1
  | .membership item list, .wordInList => item = .number 1 && list = 3
  | .membership item list, .listContains => item = .amount 2 && list = 0
  | .modifiedMembership item denial list, .wordInListModified =>
    item = .number 1 && denial = 2 && list = 4
  | .both left right, .junction opcode => opcode = Opcode.and && left = 0 && right = 2
  | .either left right, .junction opcode => opcode = Opcode.or && left = 0 && right = 2
  | _, _ => false

section

open Construction

variable {R : Reporters} {call : Call} {parts : Nat → Saying} {before after : Session}
  {meaning : Meaning}

/-- What is found at a child agrees with what the child says. -/
lemma agrees_of_part {position : Nat} {reading : Reading}
    (h : call.Hears R parts (position, reading)) (hpart : call.part position = .ok meaning) :
    reading.Agrees R (parts position) meaning := by
  obtain ⟨part, hfound, hagrees⟩ := h
  obtain rfl := Except.ok.inj (hfound.symm.trans hpart)
  exact hagrees

lemma eq_of_variableName {position : Nat} {name : String}
    (h : call.Hears R parts (position, .variableName))
    (hname : call.variableName position = .ok name) : name = (parts position).word :=
  Meaning.variableName.inj (agrees_of_part h (Call.part_of_variableName hname))

lemma eq_of_declaredList {position : Nat} {environment : Environment}
    (h : call.Hears R parts (position, .listName))
    (hlist : call.declaredList environment position = .ok meaning) :
    meaning = .listName (parts position).word :=
  agrees_of_part h (Call.part_of_declaredList hlist)

lemma denies_of_modifier {position : Nat} {modifier : Modifier}
    (h : call.Hears R parts (position, .denial))
    (hmodifier : call.modifier position = .ok modifier) :
    modifier.Denies (parts position).denies := by
  obtain ⟨other, hother, hdenies⟩ := agrees_of_part h (Call.part_of_modifier hmodifier)
  exact Meaning.modifier.inj hother ▸ hdenies

lemma tells_of_comparator {position : Nat} {comparator : Comparator}
    (h : call.Hears R parts (position, .relation))
    (hcomparator : call.comparator position = .ok comparator) :
    comparator.Tells (parts position).relation := by
  obtain ⟨other, hother, htells⟩ := agrees_of_part h (Call.part_of_comparator hcomparator)
  exact Meaning.comparator.inj hother ▸ htells

lemma argument_leftSide {left : LeftSide} (h : call.Hears R parts (Side.ofLeft left).input)
    (hleft : leftSide call left = .ok meaning) :
    meaning.argument R = .amount ((Side.ofLeft left).amountSaid R call.numbers parts) := by
  cases left with
  | variableName =>
    obtain ⟨name, hname, hmeaning⟩ := bind_eq_ok_iff.mp hleft
    obtain rfl := Except.ok.inj hmeaning
    rw [argument_readVariable, eq_of_variableName h hname]
    rfl
  | looseOperand =>
    obtain ⟨part, hpart, hagrees⟩ := h
    exact Call.argument_looseOperand hpart hagrees hleft
  | operand => exact agrees_of_part h (Call.part_of_operand hleft)

lemma argument_of_number {position : Nat} (h : call.Hears R parts (position, .word))
    (hoperand : call.looseOperand position = .ok meaning) :
    meaning.argument R = .amount (R.amountOfNumber call.numbers (parts position).word) := by
  obtain ⟨part, hpart, hagrees⟩ := h
  exact Call.argument_looseOperand hpart hagrees hoperand

lemma agrees_numeral (h : call.Hears R parts (0, .word))
    (hbuild : Gives (build .numeral call) before meaning after) :
    meaning.argument R = .amount (R.amountOfNumber call.numbers (parts 0).word) := by
  simp only [build, gives_bind, gives_lift, gives_pure] at hbuild
  obtain ⟨value, -, ⟨hvalue, -⟩, rfl, -⟩ := hbuild
  obtain ⟨part, hpart, hagrees⟩ := h
  rw [Meaning.argument, Call.toRat_number hpart hagrees hvalue]

lemma agrees_readVariable (h : call.Hears R parts (0, .variableName))
    (hbuild : Gives (build .readVariable call) before meaning after) :
    meaning.argument R = .amount (R.ofVariable (parts 0).word) := by
  simp only [build, gives_bind, gives_lift, gives_pure] at hbuild
  obtain ⟨name, -, ⟨hname, -⟩, rfl, -⟩ := hbuild
  rw [argument_readVariable, eq_of_variableName h hname]

lemma agrees_word {position : Nat} (h : call.Hears R parts (position, .word))
    (hpart : call.part position = .ok meaning) :
    meaning.argument R = .amount (R.amountOfWord (parts position).word) := by
  rw [Reporters.amountOfWord]
  rcases Call.word_cases (agrees_of_part h hpart) with ⟨number, hnumber, rfl⟩ | ⟨hnone, rfl⟩
  · rw [hnumber]
    rfl
  · rw [hnone]
    rfl

lemma agrees_binary {operation : Arithmetic} {left right : Nat}
    (hleft : call.Hears R parts (left, .amount)) (hright : call.Hears R parts (right, .amount))
    (hbuild : Gives (build (.binary operation.opcode left right) call) before meaning after) :
    meaning.argument R =
      .amount (operation.result R (parts left).amount (parts right).amount) := by
  simp only [build, gives_bind, gives_lift, gives_pure] at hbuild
  obtain ⟨first, -, ⟨hfirst, -⟩, second, -, ⟨hsecond, -⟩, rfl, -⟩ := hbuild
  have hleft := agrees_of_part hleft (Call.part_of_operand hfirst)
  have hright := agrees_of_part hright (Call.part_of_operand hsecond)
  cases operation <;> exact argument_binary _ rfl (by decide) hleft hright

lemma agrees_negative (h : call.Hears R parts (1, .amount))
    (hbuild : Gives (build .negative call) before meaning after) :
    meaning.argument R = .amount (-(parts 1).amount) := by
  simp only [build, gives_bind, gives_lift, gives_pure] at hbuild
  obtain ⟨operand, -, ⟨hoperand, -⟩, rfl, -⟩ := hbuild
  have hoperand := agrees_of_part h (Call.part_of_operand hoperand)
  rw [argument_binary Opcode.multiply rfl (by decide) argument_minusOne hoperand, neg_one_mul]

lemma agrees_getLine {place list : Nat} (hplace : call.Hears R parts (place, .amount))
    (hlist : call.Hears R parts (list, .listName))
    (hbuild : Gives (build (.getLine place list) call) before meaning after) :
    meaning.argument R = .amount (R.ofLine (parts place).amount (parts list).word) := by
  simp only [build, gives_bind, gives_lift, gives_pure, gives_environment] at hbuild
  obtain ⟨_, _, -, index, _, ⟨hindex, -⟩, name, _, ⟨hname, -⟩, rfl, -⟩ := hbuild
  obtain rfl := eq_of_declaredList hlist hname
  exact argument_getLine (agrees_of_part hplace (Call.part_of_index hindex))

lemma agrees_modifyComparator (hdenial : call.Hears R parts (0, .denial))
    (hrelation : call.Hears R parts (1, .relation))
    (hbuild : Gives (build .modifyComparator call) before meaning after) :
    ∃ comparator, meaning = .comparator comparator ∧
      comparator.Tells fun a b => (parts 0).denies ^^ (parts 1).relation a b := by
  simp only [build, gives_bind, gives_lift, gives_pure] at hbuild
  obtain ⟨modifier, -, ⟨hmodifier, -⟩, comparator, -, ⟨hcomparator, -⟩, rfl, -⟩ := hbuild
  exact ⟨_, rfl,
    (tells_of_comparator hrelation hcomparator).modified (denies_of_modifier hdenial hmodifier)⟩

lemma agrees_compare {left : LeftSide} (hleft : call.Hears R parts (Side.ofLeft left).input)
    (hrelation : call.Hears R parts (1, .relation)) (hright : call.Hears R parts (2, .word))
    (hbuild : Gives (build (.compare left) call) before meaning after) :
    meaning.argument R = .amount (truthValue ((parts 1).relation
      ((Side.ofLeft left).amountSaid R call.numbers parts)
      (R.amountOfNumber call.numbers (parts 2).word))) := by
  simp only [build, gives_bind, gives_lift, gives_pure] at hbuild
  obtain ⟨first, -, ⟨hfirst, -⟩, comparator, -, ⟨hcomparator, -⟩, second, -, ⟨hsecond, -⟩, rfl,
    -⟩ := hbuild
  exact tells_of_comparator hrelation hcomparator R _ _ _ _ (argument_leftSide hleft hfirst)
    (argument_of_number hright hsecond)

lemma agrees_compareVariables (hleft : call.Hears R parts (0, .variableName))
    (hrelation : call.Hears R parts (1, .relation))
    (hright : call.Hears R parts (2, .variableName))
    (hbuild : Gives (build .compareVariables call) before meaning after) :
    meaning.argument R = .amount (truthValue ((parts 1).relation
      (R.ofVariable (parts 0).word) (R.ofVariable (parts 2).word))) := by
  simp only [build, gives_bind, gives_lift, gives_pure] at hbuild
  obtain ⟨first, -, ⟨hfirst, -⟩, comparator, -, ⟨hcomparator, -⟩, second, -, ⟨hsecond, -⟩, rfl,
    -⟩ := hbuild
  obtain rfl := eq_of_variableName hleft hfirst
  obtain rfl := eq_of_variableName hright hsecond
  exact tells_of_comparator hrelation hcomparator R _ _ _ _ argument_readVariable
    argument_readVariable

lemma agrees_modifyLiteral (hdenial : call.Hears R parts (0, .denial))
    (htruth : call.Hears R parts (1, .truth))
    (hbuild : Gives (build .modifyLiteral call) before meaning after) :
    meaning.argument R = .amount (truthValue ((parts 0).denies ^^ (parts 1).truth)) := by
  simp only [build, gives_bind, gives_lift, gives_pure] at hbuild
  obtain ⟨modifier, -, ⟨hmodifier, -⟩, literal, -, ⟨hliteral, -⟩, rfl, -⟩ := hbuild
  exact denies_of_modifier hdenial hmodifier R _ _
    (agrees_of_part htruth (Call.part_of_condition hliteral))

lemma agrees_wordInList (hitem : call.Hears R parts (1, .word))
    (hlist : call.Hears R parts (3, .listName))
    (hbuild : Gives (build .wordInList call) before meaning after) :
    meaning.argument R = .amount (truthValue
      (R.contains (parts 3).word (R.amountOfNumber call.numbers (parts 1).word))) := by
  simp only [build, gives_bind, gives_lift, gives_pure, gives_environment] at hbuild
  obtain ⟨item, _, ⟨hword, -⟩, _, _, -, name, _, ⟨hname, -⟩, rfl, -⟩ := hbuild
  obtain rfl := eq_of_declaredList hlist hname
  exact argument_containsItem (argument_of_number hitem hword)

lemma agrees_wordInListModified (hitem : call.Hears R parts (1, .word))
    (hdenial : call.Hears R parts (2, .denial)) (hlist : call.Hears R parts (4, .listName))
    (hbuild : Gives (build .wordInListModified call) before meaning after) :
    meaning.argument R = .amount (truthValue ((parts 2).denies ^^
      R.contains (parts 4).word (R.amountOfNumber call.numbers (parts 1).word))) := by
  simp only [build, gives_bind, gives_lift, gives_pure, gives_environment] at hbuild
  obtain ⟨item, _, ⟨hword, -⟩, modifier, _, ⟨hmodifier, -⟩, _, _, -, name, _, ⟨hname, -⟩, rfl, -⟩ :=
    hbuild
  obtain rfl := eq_of_declaredList hlist hname
  exact denies_of_modifier hdenial hmodifier R _ _
    (argument_containsItem (argument_of_number hitem hword))

lemma agrees_listContains (hitem : call.Hears R parts (2, .amount))
    (hlist : call.Hears R parts (0, .listName))
    (hbuild : Gives (build .listContains call) before meaning after) :
    meaning.argument R = .amount (truthValue (R.contains (parts 0).word (parts 2).amount)) := by
  simp only [build, gives_bind, gives_lift, gives_pure, gives_environment] at hbuild
  obtain ⟨_, _, -, name, _, ⟨hname, -⟩, item, _, ⟨hfound, -⟩, rfl, -⟩ := hbuild
  obtain rfl := eq_of_declaredList hlist hname
  exact argument_containsItem (agrees_of_part hitem (Call.part_of_operand hfound))

/-- The two sides of a junction. -/
lemma arguments_of_junction {opcode : String} (hleft : call.Hears R parts (0, .truth))
    (hright : call.Hears R parts (2, .truth))
    (hbuild : Gives (build (.junction opcode) call) before meaning after) :
    ∃ left right, meaning = .expression (.mk opcode [left, right]) ∧
      left.argument R = .amount (truthValue (parts 0).truth) ∧
      right.argument R = .amount (truthValue (parts 2).truth) := by
  simp only [build, gives_bind, gives_lift, gives_pure] at hbuild
  obtain ⟨left, -, ⟨hfirst, -⟩, right, -, ⟨hsecond, -⟩, rfl, -⟩ := hbuild
  exact ⟨left, right, rfl, agrees_of_part hleft (Call.part_of_condition hfirst),
    agrees_of_part hright (Call.part_of_condition hsecond)⟩

/-- What a construction makes of children that mean what they say is what the phrase says. -/
theorem agrees_build (phrase : Phrase) (call : Call) {construction : Construction}
    (hmade : phrase.isMadeBy construction = true)
    (hparts : ∀ input ∈ phrase.inputs, call.Hears R parts input)
    (hbuild : Gives (construction.build call) before meaning after) :
    phrase.reading.Agrees R (phrase.saying R call.numbers parts) meaning := by
  rw [isMadeBy.eq_def] at hmade
  split at hmade
  all_goals try simp only [Bool.and_eq_true, decide_eq_true_eq] at hmade
  · next reading child position =>
    obtain rfl := hmade
    obtain ⟨hpart, -⟩ := gives_lift.mp hbuild
    exact agrees_of_part (hparts _ (.head _)) hpart
  · next child =>
    obtain rfl := hmade
    simp only [reading, Reading.Agrees, saying, Side.amountSaid]
    exact agrees_numeral (hparts _ (.head _)) hbuild
  · next child =>
    obtain rfl := hmade
    exact agrees_readVariable (hparts _ (.head _)) hbuild
  · next child position =>
    obtain rfl := hmade
    obtain ⟨hpart, -⟩ := gives_lift.mp hbuild
    simp only [reading, Reading.Agrees, saying, Side.amountSaid]
    exact agrees_word (hparts _ (.head _)) hpart
  · next child position =>
    obtain rfl := hmade
    obtain ⟨hpart, -⟩ := gives_lift.mp hbuild
    obtain rfl : meaning = .text (parts child).word := agrees_of_part (hparts _ (.head _)) hpart
    rfl
  · next operation left right opcode first second =>
    obtain ⟨⟨rfl, rfl⟩, rfl⟩ := hmade
    exact agrees_binary (hparts _ (.head _)) (hparts _ (.tail _ (.head _))) hbuild
  · next child =>
    obtain rfl := hmade
    exact agrees_negative (hparts _ (.head _)) hbuild
  · next place list position other =>
    obtain ⟨rfl, rfl⟩ := hmade
    exact agrees_getLine (hparts _ (.head _)) (hparts _ (.tail _ (.head _))) hbuild
  · next kind other =>
    obtain rfl := hmade
    obtain ⟨rfl, -⟩ := gives_pure.mp hbuild
    exact ⟨_, rfl, Comparator.tells_relation kind⟩
  · next denial inner =>
    obtain ⟨rfl, rfl⟩ := hmade
    exact agrees_modifyComparator (hparts _ (.head _)) (hparts _ (.tail _ (.head _))) hbuild
  · next left comparator right side =>
    obtain ⟨⟨rfl, rfl⟩, rfl⟩ := hmade
    exact agrees_compare (hparts _ (.head _)) (hparts _ (.tail _ (.head _)))
      (hparts _ (.tail _ (.tail _ (.head _)))) hbuild
  · next left comparator right =>
    obtain ⟨⟨rfl, rfl⟩, rfl⟩ := hmade
    exact agrees_compareVariables (hparts _ (.head _)) (hparts _ (.tail _ (.head _)))
      (hparts _ (.tail _ (.tail _ (.head _)))) hbuild
  · next denial truth =>
    obtain ⟨rfl, rfl⟩ := hmade
    exact agrees_modifyLiteral (hparts _ (.head _)) (hparts _ (.tail _ (.head _))) hbuild
  · next item list =>
    obtain ⟨rfl, rfl⟩ := hmade
    exact agrees_wordInList (hparts _ (.head _)) (hparts _ (.tail _ (.head _))) hbuild
  · next item list =>
    obtain ⟨rfl, rfl⟩ := hmade
    exact agrees_listContains (hparts _ (.head _)) (hparts _ (.tail _ (.head _))) hbuild
  · next item denial list =>
    obtain ⟨⟨rfl, rfl⟩, rfl⟩ := hmade
    exact agrees_wordInListModified (hparts _ (.head _)) (hparts _ (.tail _ (.head _)))
      (hparts _ (.tail _ (.tail _ (.head _)))) hbuild
  · next left right opcode =>
    obtain ⟨⟨rfl, rfl⟩, rfl⟩ := hmade
    obtain ⟨_, _, rfl, hleft, hright⟩ :=
      arguments_of_junction (hparts _ (.head _)) (hparts _ (.tail _ (.head _))) hbuild
    exact argument_and hleft hright
  · next left right opcode =>
    obtain ⟨⟨rfl, rfl⟩, rfl⟩ := hmade
    obtain ⟨_, _, rfl, hleft, hright⟩ :=
      arguments_of_junction (hparts _ (.head _)) (hparts _ (.tail _ (.head _))) hbuild
    exact argument_or hleft hright
  · cases hmade

end

end Phrase

/-! ### The standard grammar -/

namespace Grammar

/-- A rule for a phrase that can be read makes what the phrase says out of children that can be
read. -/
def Rule.isRead (rule : Rule) : Bool :=
  match Reading.ofCategory? rule.1.lhs with
  | none => true
  | some reading =>
    match phrases.lookup rule.1 with
    | none => false
    | some phrase =>
      phrase.isMadeBy rule.2 && phrase.reading = reading &&
        phrase.inputs.all fun input =>
          (rule.1.rhs[input.1]?).bind Reading.ofCategory? = some input.2

theorem standard_isRead {rule : Rule} (h : rule ∈ standard) : rule.isRead = true := by
  have hall : standard.all Rule.isRead = true := by decide
  exact List.all_eq_true.mp hall rule h

end Grammar

namespace Language

variable {sounds : List String} {numbers : NumberWords} (R : Reporters)

/-- A tree that can be read means what it says. -/
def Agrees (numbers : NumberWords) (R : Reporters) (tree : Derivation) (meaning : Meaning) : Prop :=
  ∀ reading, Reading.ofCategory? tree.category = some reading →
    reading.Agrees R (tree.saying R numbers) meaning

/-- The listed words for truth values are numbers. -/
lemma produce_of_booleanLiteral {words : List String} {lower : String} {produce : Producer}
    (h : ("BooleanLiteral", words, produce) ∈ Lexicon.standardWords sounds)
    (hlower : lower ∈ words.map Text.toLower) :
    produce = .constant (.number (.ofInt (if lower = "true" then 1 else 0))) := by
  rcases List.mem_append.mp h with hlisted | hlisted
  · obtain ⟨⟨keyword, _⟩, hmem, heq⟩ := List.mem_map.mp hlisted
    cases heq
    exact absurd (Lexicon.ofCategory_of_mem_keywords hmem) (by decide)
  · have htrue : Text.toLower "true" = "true" := by decide
    have hfalse : Text.toLower "false" = "false" := by decide
    simp only [List.mem_cons, Prod.mk.injEq, List.not_mem_nil, or_false, String.reduceEq,
      false_and, or_self, true_and] at hlisted
    rcases hlisted with ⟨rfl, rfl⟩ | ⟨rfl, rfl⟩
    · rw [List.map_singleton, List.mem_singleton, htrue] at hlower
      rw [if_pos hlower]
    · rw [List.map_singleton, List.mem_singleton, hfalse] at hlower
      rw [if_neg (by rw [hlower]; decide)]

/-- A truth value is the one that the word says. -/
lemma number_of_booleanLiteral {word : String} {meaning : Meaning}
    (h : (Lexicon.standard sounds).lookup "BooleanLiteral" word = .ok meaning) :
    meaning = .number (.ofInt (if Text.toLower word = "true" then 1 else 0)) := by
  rw [Lexicon.lookup] at h
  split at h
  · next produce hproduce =>
    rcases Lexicon.mem_of_producer?_standard hproduce with ⟨words, hlisted, hlower⟩ | hopen
    · rw [produce_of_booleanLiteral hlisted hlower] at h
      exact (Except.ok.inj h).symm
    · have hnone : ∀ entry ∈ Lexicon.standardOpen, entry.1 ≠ "BooleanLiteral" := by decide
      exact absurd rfl (hnone _ hopen)
  · cases h

lemma toRat_truthValue (truth : Bool) :
    (Double.ofInt (if truth then 1 else 0)).toRat = truthValue truth := by
  cases truth with
  | true => exact (Double.toRat_ofInt (by decide)).trans Int.cast_one
  | false => exact (Double.toRat_ofInt (by decide)).trans Int.cast_zero

lemma agrees_booleanLiteral {word : String} {span : Span} {meaning : Meaning}
    (h : (Lexicon.standard sounds).lookup "BooleanLiteral" word = .ok meaning) :
    Reading.truth.Agrees R (Derivation.saying R numbers (.leaf "BooleanLiteral" word span))
      meaning := by
  have hvalue := toRat_truthValue (decide (Text.toLower word = "true"))
  simp only [decide_eq_true_eq] at hvalue
  rw [number_of_booleanLiteral h, Derivation.saying, Reading.Agrees, Meaning.argument, hvalue]
  rfl

/-- The number of an ordinal. -/
lemma toRat_ordinal {word : String} {index : Nat} (h : Ordinal.index word = .ok index) :
    (Double.ofInt index).toRat = ((Ordinal.table.lookup word).getD 0 : Nat) := by
  rw [Double.toRat_ofInt (Lexicon.lt_of_ordinal h), Lexicon.lookup_of_ordinal h]
  rfl

lemma agrees_leaf {category word : String} {span : Span} {meaning : Meaning}
    (h : (Lexicon.standard sounds).lookup category word = .ok meaning) :
    Agrees numbers R (.leaf category word span) meaning := by
  intro reading hreading
  have hreading : Reading.ofCategory? category = some reading := hreading
  cases (Lexicon.yields_lookup_standard sounds category word).result h with
  | keyword hkeyword =>
    have hnone : ∀ entry ∈ Lexicon.keywords, Reading.ofCategory? entry.1 = none := by
      decide
    rw [hnone _ hkeyword] at hreading
    cases hreading
  | true | false =>
    obtain rfl : .truth = reading := Option.some.inj hreading
    exact agrees_booleanLiteral R h
  | affirmation =>
    obtain rfl : .denial = reading := Option.some.inj hreading
    exact ⟨_, rfl, Modifier.denies_affirm⟩
  | negation =>
    obtain rfl : .denial = reading := Option.some.inj hreading
    exact ⟨_, rfl, Modifier.denies_negate⟩
  | timer =>
    obtain rfl : .amount = reading := Option.some.inj hreading
    rw [Reading.Agrees, Meaning.argument, Block.value, if_neg (by decide)]
    rfl
  | forever => cases hreading
  | name hname =>
    have hmessage : category = "MESSAGE_NAME" := by
      simp only [List.mem_cons, List.not_mem_nil, or_false] at hname
      rcases hname with rfl | rfl | rfl | rfl
      · cases hreading
      · rfl
      · cases hreading
      · cases hreading
    subst hmessage
    obtain rfl : .text = reading := Option.some.inj hreading
    rfl
  | ordinal hordinal =>
    obtain rfl : .amount = reading := Option.some.inj hreading
    rw [Reading.Agrees, Meaning.argument, toRat_ordinal hordinal]
    rfl
  | numeral hnumeral =>
    obtain rfl : .word = reading := Option.some.inj hreading
    simp [Reading.Agrees, Derivation.saying, Reporters.sayingOfWord, Producer.numeralOrText,
      hnumeral]
  | text hnumeral =>
    obtain rfl : .word = reading := Option.some.inj hreading
    simp [Reading.Agrees, Derivation.saying, Reporters.sayingOfWord, Producer.numeralOrText,
      hnumeral]
  | variableName =>
    obtain rfl : .variableName = reading := Option.some.inj hreading
    rfl
  | listName =>
    obtain rfl : .listName = reading := Option.some.inj hreading
    rfl

lemma agrees_steps : EvaluationSteps sounds numbers
    fun tree _ meaning _ => Agrees numbers R tree meaning where
  leaf h := agrees_leaf R h
  node {rule children span parts before between meaning after} hrule hcategories hsenses hmeaning
      hparts hbuild := by
    intro reading hreading
    have hread := Grammar.standard_isRead hrule
    have hreading : Reading.ofCategory? rule.1.lhs = some reading := hreading
    rw [Grammar.Rule.isRead, hreading] at hread
    rw [Derivation.saying]
    cases hphrase : Grammar.phrases.lookup rule.1 with
    | none => simp [hphrase] at hread
    | some phrase =>
      simp only [hphrase, Bool.and_eq_true, decide_eq_true_eq, List.all_eq_true] at hread
      obtain ⟨⟨hmade, rfl⟩, hinputs⟩ := hread
      have hagrees := hparts.forall₂ (P := Agrees numbers R) fun _ _ _ _ _ h => h.2
      refine phrase.agrees_build ⟨rule.1, parts, numbers⟩ hmade ?_ hbuild
      -- each part of the phrase is a child that means what it says
      rintro ⟨position, reading⟩ hinput
      obtain ⟨category, hcategory, hreading⟩ := Option.bind_eq_some_iff.mp (hinputs _ hinput)
      rw [← hcategories, List.getElem?_map, Option.map_eq_some_iff] at hcategory
      obtain ⟨child, hchild, rfl⟩ := hcategory
      obtain ⟨part, hpart, hchildAgrees⟩ := exists_getElem?_of_forall₂ hagrees hchild
      refine ⟨part, Call.part_eq_ok_iff.mpr hpart, ?_⟩
      have hsaying : ((Derivation.sayings R numbers children)[position]?).getD {} =
          child.saying R numbers := by
        rw [Derivation.sayings_eq, List.getElem?_map, hchild]
        rfl
      show reading.Agrees R (((Derivation.sayings R numbers children)[position]?).getD {}) part
      rw [hsaying]
      exact hchildAgrees reading hreading

/-- Expressions mean what the phrase says.  What a phrase for a number means has the value that the
phrase says, and what a phrase for a condition means has the value one or zero, as what the phrase
says is true or false; whatever the reporters report. -/
theorem value_of_interpret_standard {tree : Derivation} {session after : Session}
    {meaning : Meaning}
    (h : (standard sounds numbers).interpret tree session = .ok (meaning, after)) :
    (tree.category ∈ ["NP", "NPP"] → meaning.value R = (tree.saying R numbers).amount) ∧
      (tree.category = "BP" → meaning.value R = if (tree.saying R numbers).truth then 1 else 0) := by
  have hagrees : Agrees numbers R tree meaning :=
    (agrees_steps R).evaluate tree _ _ _ (interpret_eq_ok_iff.mp h)
  constructor
  · intro hcategory
    have hreading : Reading.ofCategory? tree.category = some .amount := by
      have hall : ∀ category ∈ ["NP", "NPP"], Reading.ofCategory? category = some .amount := by
        decide
      exact hall _ hcategory
    have hargument : meaning.argument R = .amount (tree.saying R numbers).amount :=
      hagrees .amount hreading
    rw [Meaning.value, hargument]
    rfl
  · intro hcategory
    have hargument : meaning.argument R = .amount (truthValue (tree.saying R numbers).truth) :=
      hagrees .truth (by rw [hcategory]; rfl)
    rw [Meaning.value, hargument]
    rfl

open PhraseScript.Derivation in
/-- "x is not greater than 5" -/
def comparisonPhrase : Derivation :=
  apply "BP" [word "VARIABLE_NAME" "x", apply "CBP" [apply "LMOD" [apply "NEG" [word "Is" "is",
    word "NEG" "not"]], apply "CBP" [word "Greater" "greater", word "Than" "than"]], word "Unk" "5"]

lemma amountOfNumber_five : R.amountOfNumber .numerals "5" = 5 := by
  have hfive : (numeral? "5").any (Double.isInteger 5) = true := by decide +kernel
  obtain ⟨value, hvalue, hinteger⟩ := (Option.any_eq_true _ _).mp hfive
  rw [Reporters.amountOfNumber, hvalue]
  exact Double.toRat_eq_of_isInteger hinteger

lemma truth_comparisonPhrase :
    (comparisonPhrase.saying R .numerals).truth = !decide (R.ofVariable "x" > 5) := by
  have hx : Text.toLower "x" = "x" := by decide
  have hfive : Text.toLower "5" = "5" := by decide
  have hcomparison : Grammar.phrases.lookup ⟨"BP", ["VARIABLE_NAME", "CBP", "Unk"]⟩ =
    some (.comparison (.variableName 0) 1 (.number 2)) := rfl
  have hmodified : Grammar.phrases.lookup ⟨"CBP", ["LMOD", "CBP"]⟩ =
    some (.modifiedRelation 0 1) := rfl
  have hdenial : Grammar.phrases.lookup ⟨"LMOD", ["NEG"]⟩ = some (.same .denial 0) := rfl
  have hnot : Grammar.phrases.lookup ⟨"NEG", ["Is", "NEG"]⟩ = some (.same .denial 1) := rfl
  have hgreater : Grammar.phrases.lookup ⟨"CBP", ["Greater", "Than"]⟩ =
    some (.relation .greater) := rfl
  simp [comparisonPhrase, Derivation.apply, Derivation.word, Derivation.category,
    Derivation.saying, Derivation.sayings, hcomparison, hmodified, hdenial, hnot, hgreater,
    Phrase.saying, Side.amountSaid, Reporters.sayingOfWord, hx, hfive, amountOfNumber_five,
    Relation.holds]

theorem value_of_interpret_comparisonPhrase :
    ∃ meaning after,
      (standard [] .numerals).interpret comparisonPhrase {} = .ok (meaning, after) ∧
        ∀ R : Reporters, meaning.value R = if R.ofVariable "x" > 5 then 0 else 1 := by
  have htranslated : ((standard [] .numerals).interpret comparisonPhrase {}).toBool = true := by
    rw [interpret, evaluate_standard]
    decide +kernel
  cases hmeaning : (standard [] .numerals).interpret comparisonPhrase {} with
  | error failure =>
    rw [hmeaning] at htranslated
    cases htranslated
  | ok result =>
    obtain ⟨meaning, after⟩ := result
    refine ⟨meaning, after, rfl, fun R => ?_⟩
    have hvalue := (value_of_interpret_standard R hmeaning).2 rfl
    rw [hvalue, truth_comparisonPhrase]
    by_cases h : R.ofVariable "x" > 5 <;> simp [h]

end Language

end PhraseScript
