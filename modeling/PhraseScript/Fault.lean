import PhraseScript.Derivation.Basic
import PhraseScript.Derivation.TreeFault

/-!
# Why a sentence fails

A `Fault` is a cause by itself.  A `Failure` adds where in the tree it arose, and in which
sentence.
-/

namespace PhraseScript

/-- A cause of failure.  Roles and kinds of meaning stand in it by their names. -/
inductive Fault where
  /-- A word does not belong to its category. -/
  | unknownWord (category word : String)
  /-- A node has another number of children than its rule asks for. -/
  | arity (rule : String) (expected found : Nat)
  /-- There is no such rule. -/
  | unknownRule (rule : String)
  /-- A child of a rule has the wrong kind of meaning. -/
  | typeMismatch (rule : String) (position : Nat) (expected found : String)
  /-- A variable is not declared. -/
  | unknownVariable (name : String)
  /-- A list is not declared. -/
  | unknownList (name : String)
  /-- A word is no ordinal number. -/
  | unsupportedOrdinal (word : String)
  /-- The meaning of a whole sentence is nothing that can be carried out. -/
  | unresolvedTopLevel (found : String)
  /-- A word names no number. -/
  | notANumber (word : String)
  /-- A tree is malformed. -/
  | treeSyntax (cause : TreeFault)
  /-- A meaning has no place in a script. -/
  | noWireForm (found : String)
deriving DecidableEq

namespace Fault

/-- The name of a fault. -/
def code : Fault → String
  | .unknownWord _ _ => "UNKNOWN_WORD"
  | .arity _ _ _ => "ARITY"
  | .unknownRule _ => "UNKNOWN_RULE"
  | .typeMismatch _ _ _ _ => "TYPE_MISMATCH"
  | .unknownVariable _ => "UNKNOWN_VARIABLE"
  | .unknownList _ => "UNKNOWN_LIST"
  | .unsupportedOrdinal _ => "UNSUPPORTED_ORDINAL"
  | .unresolvedTopLevel _ => "UNRESOLVED_TOP_LEVEL"
  | .notANumber _ => "NOT_A_NUMBER"
  | .treeSyntax _ => "TREE_SYNTAX"
  | .noWireForm _ => "SERIALIZE"

/-- A fault in words. -/
def message : Fault → String
  | .unknownWord category word =>
    "word \"" ++ word ++ "\" is not in the lexicon for category " ++ category
  | .arity rule expected found =>
    "rule " ++ rule ++ " expects " ++ toString expected ++ " children but the derivation has " ++
      toString found
  | .unknownRule rule => "rule " ++ rule ++ " has no semantic action"
  | .typeMismatch rule position expected found =>
    "rule " ++ rule ++ " expected " ++ expected ++ " at child " ++ toString position ++
      ", found " ++ found
  | .unknownVariable name => "variable \"" ++ name ++ "\" is not declared"
  | .unknownList name => "list \"" ++ name ++ "\" is not declared"
  | .unsupportedOrdinal word => "ordinal \"" ++ word ++ "\" is not supported"
  | .unresolvedTopLevel found =>
    "sentence resolved to " ++ found ++ ", not an executable script"
  | .notANumber word => "\"" ++ word ++ "\" cannot be read as a number"
  | .treeSyntax cause => "derivation tree is malformed: " ++ cause.message
  | .noWireForm found => found ++ " has no wire form"

/-- The fault lies in the grammar and not in what was said. -/
def isInternal : Fault → Bool
  | .arity _ _ _ | .unknownRule _ => true
  | _ => false

end Fault

/-- A node of a tree, by its category and the words it covers. -/
structure Place where
  category : String
  span : Span
deriving DecidableEq, Repr

/-- A fault with what is known about where it arose. -/
structure Failure where
  fault : Fault
  place : Option Place := none
  sentence : Option String := none
deriving DecidableEq

namespace Failure

/-- Notes the node at which a failure arose.  One that has been noted before is kept: it lies
further inside. -/
def atNode (failure : Failure) (category : String) (span : Span) : Failure :=
  { failure with place := failure.place.or (some ⟨category, span⟩) }

/-- Notes the sentence in which a failure arose. -/
def inSentence (failure : Failure) (sentence : String) : Failure :=
  { failure with sentence := some sentence }

/-- A failure in words, with all that is known about it. -/
def describe (failure : Failure) : String :=
  let place := match failure.place with
    | some place =>
      " (at " ++ place.category ++ " covering tokens " ++ toString place.span.start ++ ".." ++
        toString place.span.stop ++ ")"
    | none => ""
  let sentence := match failure.sentence with
    | some sentence => " in \"" ++ sentence ++ "\""
    | none => ""
  failure.fault.message ++ place ++ sentence

/-- A failure by name and cause. -/
def text (failure : Failure) : String := failure.fault.code ++ ": " ++ failure.fault.message

end Failure

instance : Coe Fault Failure := ⟨fun fault => { fault }⟩

end PhraseScript
