import PhraseScript.Grammar.Call
import PhraseScript.Lexicon.Standard
import PhraseScript.Meaning.Condition
import PhraseScript.Meaning.Wire

/-!
# How rules build meanings

A `Construction` says how a rule makes a meaning out of those of its children; it names the
children by their positions.  A rule that declares, deletes or sets something also changes the
session, and one that reports a sequence may add to its recording.

`Construction.build` carries a construction out.  Changes to the session outlive a failure, so
that a rule which fails half-way would be seen to have done so.
-/

namespace PhraseScript

/-- A computation that can change the session and can fail. -/
abbrev Attempt := ExceptT Fault (StateM Session)

/-- Carries out a construction on a call. -/
abbrev Action := Call → Attempt Meaning

/-- By how much a variable is changed. -/
inductive Amount where
  /-- By the operand at a position. -/
  | operand (position : Nat)
  /-- By the value of the variable named at a position. -/
  | variableAt (position : Nat)
deriving DecidableEq, Repr

/-- Where the left side of a comparison comes from. -/
inductive LeftSide where
  /-- The value of the variable that is named. -/
  | variableName
  /-- A word or number. -/
  | looseOperand
  /-- An operand. -/
  | operand
deriving DecidableEq, Repr

/-- How a rule makes a meaning out of those of its children. -/
inductive Construction where
  /-- The meaning of one child. -/
  | pass (position : Nat)
  /-- Always the same meaning. -/
  | constant (meaning : Meaning)
  /-- An action as a sequence of its own. -/
  | singleAction
  /-- The commands of two actions after one another. -/
  | concatenate (first second : Nat)
  /-- A sequence that is added to the recording. -/
  | recordSequence
  /-- A command with a number. -/
  | withNumber (opcode : String) (position : Nat)
  /-- A command with a name. -/
  | withName (opcode : String) (position : Nat)
  /-- A declaration of one variable. -/
  | declareOne
  /-- A declaration with one more variable in front. -/
  | declareMore
  /-- Declares variables. -/
  | createVariables
  /-- Declares a list. -/
  | createList
  /-- Takes back the declaration of a variable. -/
  | deleteVariable
  /-- Sets a variable. -/
  | setVariable
  /-- Adds an amount to a variable, or takes it away. -/
  | changeVariable (amount : Amount) (takenAway : Bool) (target : Nat)
  /-- Sets a variable to its product or quotient with an amount. -/
  | scaleVariable (opcode : String) (amount : Amount)
  /-- The value of a variable. -/
  | readVariable
  /-- Adds an item to a list. -/
  | appendItem
  /-- Takes an item out of a list. -/
  | deleteLine (index list : Nat)
  /-- Replaces an item of a list. -/
  | setLine (index list item : Nat)
  /-- An item of a list. -/
  | getLine (index list : Nat)
  /-- Whether a word is in a list. -/
  | wordInList
  /-- Whether, modified, a word is in a list. -/
  | wordInListModified
  /-- Whether a list has an item. -/
  | listContains
  /-- A number. -/
  | numeral
  /-- An operation on two operands. -/
  | binary (opcode : String) (left right : Nat)
  /-- An operand with the opposite sign. -/
  | negative
  /-- A comparator with a modifier around it. -/
  | modifyComparator
  /-- A comparison with a word or number. -/
  | compare (left : LeftSide)
  /-- A comparison of two variables. -/
  | compareVariables
  /-- A truth value with a modifier around it. -/
  | modifyLiteral
  /-- An operation on two conditions. -/
  | junction (opcode : String)
  /-- Commands under a condition. -/
  | doIf
  /-- Commands under a condition, and others under its opposite. -/
  | doIfElse
  /-- Waits for a condition. -/
  | waitUntil
  /-- Repeats commands until a condition holds. -/
  | repeatUntil
  /-- Repeats commands for ever. -/
  | repeatForever
  /-- Repeats commands a number of times. -/
  | repeatTimes
  /-- A duration by a number of times. -/
  | countTimes
  /-- Repeats commands for a duration. -/
  | repeatFor (body duration : Nat)
  /-- The trigger that waits for the timer. -/
  | whenTimer
  /-- A trigger with the commands that it sets off. -/
  | handler

namespace Construction

/-- A command by itself. -/
def bare (opcode : String) : Construction := .constant (.command (.mk opcode []))

/-- A command with a fixed operand. -/
def fixed (opcode : String) (operand : Meaning) : Construction :=
  .constant (.command (.mk opcode [operand]))

/-- A comparator by itself. -/
def relation (relation : Relation) : Construction := .constant (.comparator ⟨relation, none⟩)

/-- The environment of the session. -/
def environment : Attempt Environment := return (← get).environment

/-- Replaces the environment of the session. -/
def setEnvironment (environment : Environment) : Attempt Unit :=
  modify ({ · with environment })

/-- The amount of a change. -/
def amountOf (call : Call) (environment : Environment) : Amount → Except Fault Meaning
  | .operand position => call.declaredOperand environment position
  | .variableAt position => call.declaredRead environment position

/-- The left side of a comparison. -/
def leftSide (call : Call) : LeftSide → Except Fault Meaning
  | .variableName => return .readVariable (← call.variableName 0)
  | .looseOperand => call.looseOperand 0
  | .operand => call.operand 0

/-- The number minus one. -/
def minusOne : Meaning := .number (.ofInt (-1))

/-- The command that sets a variable, which it does in the session, too. -/
def assign (name : String) (value : Meaning) : Attempt Meaning := do
  let wire ← value.toWire
  setEnvironment (← (← environment).assign name wire)
  return .command (.mk Opcode.setVariable [.text name, value])

/-- The command that repeats others for a duration: a number of times, or for ever. -/
def repeated (call : Call) (position : Nat) (body : List Block) (duration : Meaning) :
    Except Fault Meaning :=
  match duration with
  | .number count =>
    return .command (.mk Opcode.repeatTimes [.number count, .commands body])
  | .text word =>
    if word = Lexicon.forever then
      return .command (.mk Opcode.repeatForever [.commands body])
    else throw (call.mismatch position .duration duration)
  | _ => throw (call.mismatch position .duration duration)

/-- The expression that tells whether an item is in a list. -/
def containsItem (list item : Meaning) : Meaning :=
  .expression (.mk Opcode.listContains [list, item])

/-- Carries out a construction. -/
def build : Construction → Action
  | .pass position, call => call.part position
  | .constant meaning, _ => return meaning
  | .singleAction, call => call.scriptBody 0
  | .concatenate first second, call => do
    let before ← call.actions first
    let after ← call.actions second
    return .commands (before ++ after)
  | .recordSequence, call => do
    let actions ← call.scriptBody 1
    if (← get).program.isSome then
      let wire ← actions.toWire
      modify (·.record wire)
    return actions
  | .withNumber opcode position, call => do
    return .command (.mk opcode [.number (← call.number position)])
  | .withName opcode position, call => do
    return .command (.mk opcode [.text (← call.name position)])
  | .declareOne, call => do
    return .declaration ⟨.vars, [← call.variableName 0]⟩
  | .declareMore, call => do
    let name ← call.variableName 0
    let rest ← call.declaration 2
    return .declaration { rest with names := name :: rest.names }
  | .createVariables, call => do
    let names ← call.variableDeclaration 1
    setEnvironment (names.foldl .declareVariable (← environment))
    return .null
  | .createList, call => do
    let name ← call.listName 2
    setEnvironment ((← environment).declareList name)
    return .null
  | .deleteVariable, call => do
    let name ← call.variableName 1
    setEnvironment (← (← environment).deleteVariable name)
    return .null
  | .setVariable, call => do
    let name ← call.variableName 1
    let value ← call.declaredOperand (← environment) 3
    assign name value
  | .changeVariable amount takenAway target, call => do
    let environment ← environment
    let amount ← amountOf call environment amount
    let name ← call.declaredVariable environment target
    let amount := if takenAway then
      .expression (.mk Opcode.multiply [amount, minusOne]) else amount
    return .command (.mk Opcode.changeVariable [.text name, amount])
  | .scaleVariable opcode amount, call => do
    let environment ← environment
    let amount ← amountOf call environment amount
    let name ← call.declaredVariable environment 1
    assign name (.expression (.mk opcode [.readVariable name, amount]))
  | .readVariable, call => do
    return .readVariable (← call.variableName 0)
  | .appendItem, call => do
    let environment ← environment
    let item ← call.declaredOperand environment 1
    let list ← call.declaredList environment 3
    return .command (.mk Opcode.appendToList [item, list])
  | .deleteLine index list, call => do
    let environment ← environment
    let index ← call.index environment index
    let list ← call.declaredList environment list
    return .command (.mk Opcode.deleteLine [index, list])
  | .setLine index list item, call => do
    let environment ← environment
    let index ← call.index environment index
    let list ← call.declaredList environment list
    let item ← call.declaredOperand environment item
    return .command (.mk Opcode.setLine [index, list, item])
  | .getLine index list, call => do
    let environment ← environment
    let index ← call.index environment index
    let list ← call.declaredList environment list
    return .expression (.mk Opcode.getLine [index, list])
  | .wordInList, call => do
    let item ← call.looseOperand 1
    let list ← call.declaredList (← environment) 3
    return containsItem list item
  | .wordInListModified, call => do
    let item ← call.looseOperand 1
    let modifier ← call.modifier 2
    let list ← call.declaredList (← environment) 4
    return modifier.around (containsItem list item)
  | .listContains, call => do
    let list ← call.declaredList (← environment) 0
    let item ← call.operand 2
    return containsItem list item
  | .numeral, call => do
    return .number (← call.number 0)
  | .binary opcode left right, call => do
    let left ← call.operand left
    let right ← call.operand right
    return .expression (.mk opcode [left, right])
  | .negative, call => do
    return .expression (.mk Opcode.multiply [minusOne, ← call.operand 1])
  | .modifyComparator, call => do
    let modifier ← call.modifier 0
    let comparator ← call.comparator 1
    return .comparator (comparator.modified modifier)
  | .compare left, call => do
    let left ← leftSide call left
    let comparator ← call.comparator 1
    let right ← call.looseOperand 2
    return comparator.between left right
  | .compareVariables, call => do
    let left ← call.variableName 0
    let comparator ← call.comparator 1
    let right ← call.variableName 2
    return comparator.between (.readVariable left) (.readVariable right)
  | .modifyLiteral, call => do
    let modifier ← call.modifier 0
    let literal ← call.condition 1
    return modifier.around literal
  | .junction opcode, call => do
    let left ← call.condition 0
    let right ← call.condition 2
    return .expression (.mk opcode [left, right])
  | .doIf, call => do
    let condition ← call.condition 1
    let body ← call.actions 3
    return .command (.mk Opcode.doIf [condition, .commands body])
  | .doIfElse, call => do
    let condition ← call.condition 1
    let body ← call.actions 3
    let otherwise ← call.actions 7
    return .command (.mk Opcode.doIfElse [condition, .commands body, .commands otherwise])
  | .waitUntil, call => do
    return .command (.mk Opcode.waitUntil [← call.condition 2])
  | .repeatUntil, call => do
    let body ← call.actions 1
    let condition ← call.condition 3
    return .command (.mk Opcode.repeatUntil [condition, .commands body])
  | .repeatForever, call => do
    return .command (.mk Opcode.repeatForever [.commands (← call.actions 1)])
  | .repeatTimes, call => do
    let body ← call.actions 1
    let count ← call.count 2
    return .command (.mk Opcode.repeatTimes [.number count, .commands body])
  | .countTimes, call => do
    return .number (← call.count 0)
  | .repeatFor body duration, call => do
    let blocks ← call.actions body
    repeated call duration blocks (← call.part duration)
  | .whenTimer, call => do
    let timer ← call.operand 1
    let comparator ← call.comparator 2
    let threshold ← call.operand 3
    return .command (.mk Opcode.waitUntil [comparator.between timer threshold])
  | .handler, call => do
    let trigger ← call.trigger 0
    let body ← call.actions 1
    return .handler (trigger :: body)

end Construction

end PhraseScript
