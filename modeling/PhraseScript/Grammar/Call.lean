import PhraseScript.Fault
import PhraseScript.Grammar.RuleKey
import PhraseScript.Meaning.Basic
import PhraseScript.Number.Decimal
import PhraseScript.Number.Words
import PhraseScript.Session.Basic

/-!
# Asking for the children of a rule

When a rule is applied, the meanings of its children are already known.  A rule asks for the
children that it needs, each in the role that it plays; a child that does not fit the role is a
fault of the call.
-/

namespace PhraseScript

/-- What a rule can ask of a child. -/
inductive Role where
  | operand
  | number
  | wholeCount
  | variableName
  | listName
  | name
  | condition
  | action
  | comparator
  | modifier
  | declaration
  | variableDeclaration
  | index
  | duration
  | trigger
deriving DecidableEq, Repr

/-- A role as it is called in messages. -/
def Role.text : Role → String
  | .operand => "operand"
  | .number => "number"
  | .wholeCount => "whole count"
  | .variableName => "variable name"
  | .listName => "list name"
  | .name => "name"
  | .condition => "condition"
  | .action => "action"
  | .comparator => "comparator"
  | .modifier => "modifier"
  | .declaration => "declaration"
  | .variableDeclaration => "variable declaration"
  | .index => "1-based index"
  | .duration => "duration"
  | .trigger => "event trigger"

/-- An application of a rule. -/
structure Call where
  rule : RuleKey
  /-- The meanings of the children. -/
  parts : List Meaning
  /-- What turns words into numbers. -/
  numbers : NumberWords

namespace Call

/-- The child at a position. -/
def part (call : Call) (position : Nat) : Except Fault Meaning :=
  match call.parts[position]? with
  | some meaning => .ok meaning
  | none => .error (.arity call.rule.text (position + 1) call.parts.length)

/-- The fault of a child that does not fit its role. -/
def mismatch (call : Call) (position : Nat) (expected : Role) (found : Meaning) : Fault :=
  .typeMismatch call.rule.text position expected.text found.kind.name

/-- A child that can be an operand. -/
def operand (call : Call) (position : Nat) : Except Fault Meaning := do
  let meaning ← call.part position
  if meaning.isOperand then return meaning
  else throw (call.mismatch position .operand meaning)

/-- A child that is a number, or a word for one. -/
def number (call : Call) (position : Nat) : Except Fault Double := do
  match ← call.part position with
  | .number value => return value
  | .text word =>
    match call.numbers word with
    | some value => return value
    | none => throw (.notANumber word)
  | other => throw (call.mismatch position .number other)

/-- A child that is a number of times. -/
def count (call : Call) (position : Nat) : Except Fault Double := do
  let value ← call.number position
  if value.IsWhole ∧ ¬value.IsNegative then return value
  else throw (call.mismatch position .wholeCount (.number value))

/-- A child that can be an operand; a word for a number is taken as the number. -/
def looseOperand (call : Call) (position : Nat) : Except Fault Meaning := do
  match ← call.part position with
  | .text word =>
    match call.numbers word with
    | some value => return .number value
    | none => return .text word
  | meaning =>
    if meaning.isOperand then return meaning
    else throw (call.mismatch position .operand meaning)

/-- A child that is the name of a variable. -/
def variableName (call : Call) (position : Nat) : Except Fault String := do
  match ← call.part position with
  | .variableName name => return name
  | other => throw (call.mismatch position .variableName other)

/-- A child that is the name of a list. -/
def listName (call : Call) (position : Nat) : Except Fault String := do
  match ← call.part position with
  | .listName name => return name
  | other => throw (call.mismatch position .listName other)

/-- A child that is the name of something else; a number can be a name. -/
def name (call : Call) (position : Nat) : Except Fault String := do
  match ← call.part position with
  | .text name => return name
  | .number value => return value.plainText
  | other => throw (call.mismatch position .name other)

/-- A child that can be true or false. -/
def condition (call : Call) (position : Nat) : Except Fault Meaning := do
  match ← call.part position with
  | .expression block => return .expression block
  | .number value => return .number value
  | other => throw (call.mismatch position .condition other)

/-- A meaning as the commands that it adds to a sequence.  A handler adds itself to none. -/
def flatten (call : Call) (position : Nat) : Meaning → Except Fault (List Block)
  | .command block => return [block]
  | .commands blocks => return blocks
  | .null => return []
  | other => throw (call.mismatch position .action other)

/-- A child as a sequence of commands. -/
def actions (call : Call) (position : Nat) : Except Fault (List Block) := do
  call.flatten position (← call.part position)

/-- A child as a whole script: a sequence of commands, or a handler. -/
def scriptBody (call : Call) (position : Nat) : Except Fault Meaning := do
  match ← call.part position with
  | .handler blocks => return .handler blocks
  | other => return .commands (← call.flatten position other)

/-- A child that is a comparator. -/
def comparator (call : Call) (position : Nat) : Except Fault Comparator := do
  match ← call.part position with
  | .comparator comparator => return comparator
  | other => throw (call.mismatch position .comparator other)

/-- A child that is a modifier. -/
def modifier (call : Call) (position : Nat) : Except Fault Modifier := do
  match ← call.part position with
  | .modifier modifier => return modifier
  | other => throw (call.mismatch position .modifier other)

/-- A child that is a declaration. -/
def declaration (call : Call) (position : Nat) : Except Fault Declaration := do
  match ← call.part position with
  | .declaration declaration => return declaration
  | other => throw (call.mismatch position .declaration other)

/-- A child that is a declaration of variables. -/
def variableDeclaration (call : Call) (position : Nat) : Except Fault (List String) := do
  let declaration ← call.declaration position
  match declaration.kind with
  | .vars => return declaration.names
  | .lists => throw (call.mismatch position .variableDeclaration (.declaration declaration))

/-- A child that is the command which sets off a handler. -/
def trigger (call : Call) (position : Nat) : Except Fault Block := do
  match ← call.part position with
  | .command block => return block
  | other => throw (call.mismatch position .trigger other)

/-! ## Children that have to do with what is declared -/

/-- An operand that reads declared variables only. -/
def declaredOperand (call : Call) (environment : Environment) (position : Nat) :
    Except Fault Meaning := do
  let meaning ← call.operand position
  environment.requireVariables meaning.variableReads
  return meaning

/-- The expression that reads the declared variable which a child names. -/
def declaredRead (call : Call) (environment : Environment) (position : Nat) :
    Except Fault Meaning := do
  let name ← call.variableName position
  environment.requireVariable name
  return .readVariable name

/-- The declared variable that a child names. -/
def declaredVariable (call : Call) (environment : Environment) (position : Nat) :
    Except Fault String := do
  let name ← call.variableName position
  environment.requireVariable name
  return name

/-- The declared list that a child names. -/
def declaredList (call : Call) (environment : Environment) (position : Nat) :
    Except Fault Meaning := do
  let name ← call.listName position
  environment.requireList name
  return .listName name

/-- A child that is a place in a list: a whole number from one on, or an expression that reads
declared variables only. -/
def index (call : Call) (environment : Environment) (position : Nat) : Except Fault Meaning := do
  match ← call.part position with
  | .number value =>
    if value.AtLeastOne ∧ value.IsWhole then return .number value
    else throw (call.mismatch position .index (.number value))
  | .expression block =>
    environment.requireVariables (Meaning.expression block).variableReads
    return .expression block
  | other => throw (call.mismatch position .index other)

end Call

end PhraseScript
