import PhraseScript.Number.Double
import PhraseScript.Opcode

/-!
# Meanings of phrases

What a phrase stands for: a number or a text, the name of a variable or a list, an expression,
one or several commands.  Three kinds of meaning are *deferred*: a modifier, a comparator and
a declaration only become part of a script together with what surrounds them.
-/

namespace PhraseScript

/-- One layer of affirmation or negation. -/
inductive Polarity where
  | affirm
  | negate
deriving DecidableEq, Repr

/-- A stack of affirmations and negations, as in "is not".  The layers are in the order of the
words, so that the last one is innermost. -/
structure Modifier where
  layers : List Polarity
  layers_ne_nil : layers ≠ []
deriving DecidableEq

namespace Modifier

@[ext] theorem ext {m n : Modifier} (h : m.layers = n.layers) : m = n := by
  cases m
  cases n
  simp_all

/-- The modifier with a single layer. -/
def layer (polarity : Polarity) : Modifier := ⟨[polarity], List.cons_ne_nil _ _⟩

instance : Inhabited Modifier := ⟨layer .affirm⟩

/-- The modifier of those layers, if there are any. -/
def ofLayers? (layers : List Polarity) : Option Modifier :=
  if h : layers = [] then none else some ⟨layers, h⟩

/-- Puts a modifier around another one. -/
def after (outer inner : Modifier) : Modifier :=
  ⟨outer.layers ++ inner.layers, by simp [outer.layers_ne_nil]⟩

@[simp] theorem layers_layer (polarity : Polarity) : (layer polarity).layers = [polarity] := rfl

@[simp] theorem layers_after (outer inner : Modifier) :
    (outer.after inner).layers = outer.layers ++ inner.layers := rfl

end Modifier

/-- The ways to compare two values. -/
inductive Relation where
  | less
  | greater
  | equal
  | greaterOrEqual
  | lessOrEqual
deriving DecidableEq, Repr

/-- A comparison whose two sides are still missing. -/
structure Comparator where
  relation : Relation
  modifier : Option Modifier
deriving DecidableEq

namespace Comparator

/-- Puts a modifier around a comparator. -/
def modified (comparator : Comparator) (outer : Modifier) : Comparator :=
  { comparator with
    modifier := some <| match comparator.modifier with
      | some inner => outer.after inner
      | none => outer }

end Comparator

/-- What a declaration declares. -/
inductive DeclarationKind where
  | vars
  | lists
deriving DecidableEq, Repr

/-- Names to be declared. -/
structure Declaration where
  kind : DeclarationKind
  names : List String
deriving DecidableEq, Repr

mutual

/-- What a phrase stands for. -/
inductive Meaning where
  /-- Nothing. -/
  | null
  | number (value : Double)
  | text (value : String)
  /-- The name of a variable. -/
  | variableName (name : String)
  /-- The name of a list. -/
  | listName (name : String)
  /-- A block that gives a value. -/
  | expression (block : Block)
  /-- A block that does something. -/
  | command (block : Block)
  /-- Commands to be carried out one after another. -/
  | commands (blocks : List Block)
  /-- A trigger and the commands that it sets off. -/
  | handler (blocks : List Block)
  | modifier (modifier : Modifier)
  | comparator (comparator : Comparator)
  | declaration (declaration : Declaration)

/-- An opcode with its operands. -/
inductive Block where
  | mk (opcode : String) (operands : List Meaning)

end

namespace Block

instance : Inhabited Block := ⟨.mk "" []⟩

/-- What a block does. -/
def opcode : Block → String
  | .mk opcode _ => opcode

/-- What a block does it with. -/
def operands : Block → List Meaning
  | .mk _ operands => operands

@[simp] theorem opcode_mk (opcode : String) (operands : List Meaning) :
    (Block.mk opcode operands).opcode = opcode := rfl

@[simp] theorem operands_mk (opcode : String) (operands : List Meaning) :
    (Block.mk opcode operands).operands = operands := rfl

end Block

namespace Meaning

instance : Inhabited Meaning := ⟨.null⟩

/-- The kinds of meaning. -/
inductive Kind where
  | null
  | number
  | text
  | variableName
  | listName
  | expression
  | command
  | commands
  | handler
  | modifier
  | comparator
  | declaration
deriving DecidableEq, Repr

/-- A kind as it is called in messages. -/
def Kind.name : Kind → String
  | .null => "null"
  | .number => "number"
  | .text => "string"
  | .variableName => "variable"
  | .listName => "list"
  | .expression => "expression"
  | .command => "command"
  | .commands => "command list"
  | .handler => "event handler"
  | .modifier => "modifier"
  | .comparator => "comparator"
  | .declaration => "declaration"

/-- The kind of a meaning. -/
def kind : Meaning → Kind
  | .null => .null
  | .number _ => .number
  | .text _ => .text
  | .variableName _ => .variableName
  | .listName _ => .listName
  | .expression _ => .expression
  | .command _ => .command
  | .commands _ => .commands
  | .handler _ => .handler
  | .modifier _ => .modifier
  | .comparator _ => .comparator
  | .declaration _ => .declaration

/-- The kinds that can be operands of a block by themselves. -/
def Kind.isOperand : Kind → Bool
  | .number | .text | .variableName | .listName | .expression => true
  | _ => false

/-- Can be an operand of a block by itself. -/
def isOperand (meaning : Meaning) : Bool := meaning.kind.isOperand

/-- The kinds without a form in scripts. -/
def Kind.isDeferred : Kind → Bool
  | .modifier | .comparator | .declaration => true
  | _ => false

/-- The expression that reads a variable. -/
def readVariable (name : String) : Meaning := .expression (.mk Opcode.readVariable [.text name])

mutual

/-- The variables that an expression reads, in the order in which it reads them. -/
def variableReads : Meaning → List String
  | .expression block => blockReads block
  | _ => []

/-- The variables that a block reads.  What reads a variable names it by its first operand. -/
def blockReads : Block → List String
  | .mk opcode operands =>
    if opcode = Opcode.readVariable then
      match operands with
      | .text name :: _ => [name]
      | _ => []
    else operandReads operands

/-- The variables that some operands read. -/
def operandReads : List Meaning → List String
  | [] => []
  | operand :: rest => variableReads operand ++ operandReads rest

end

end Meaning

end PhraseScript
