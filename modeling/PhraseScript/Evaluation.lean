import PhraseScript.Derivation.Basic
import PhraseScript.Grammar.RuleTable
import PhraseScript.Lexicon.Basic

/-!
# Evaluating derivation trees

A tree gets its meaning from its leaves up: a leaf by the lexicon, a node by the action of its
rule, applied to the meanings of its children.  Children are evaluated from left to right and
change the session as they go.  Before that the node is compared with its rule, so that nothing
inside a node is evaluated that is not made like its rule.

A failure is located at the node that caused it.
-/

namespace PhraseScript

/-- A language: its words, its rules, and what it knows about numbers. -/
structure Language where
  lexicon : Lexicon
  rules : RuleTable
  numbers : NumberWords

/-- A computation that can change the session and can fail somewhere in a tree. -/
abbrev Interpretation := ExceptT Failure (StateM Session)

/-- The fault of a node whose children are not those of its rule, the first at `position`. -/
def misplaced? (rule : RuleKey) (position : Nat) : List Derivation → List String → Option Fault
  | child :: children, expected :: rhs =>
    if child.category = expected then misplaced? rule (position + 1) children rhs
    else
      some (.treeSyntax (.misplacedChild position rule.text child.category expected))
  | _, _ => none

/-- The fault of a node that is not made like its rule. -/
def shapeFault? (rule : RuleKey) (children : List Derivation) : Option Fault :=
  if children.length = rule.rhs.length then misplaced? rule 0 children rule.rhs
  else some (.arity rule.text rule.rhs.length children.length)

namespace Language

/-- The action of a node, given its rule and its children. -/
def action (language : Language) (rule : RuleKey) (children : List Derivation) :
    Except Fault Action :=
  match shapeFault? rule children with
  | some fault => .error fault
  | none =>
    match language.rules.lookup? rule with
    | some action => .ok action
    | none => .error (.unknownRule rule.text)

/-- Locates the faults of a computation at a node. -/
def located {α : Type} (category : String) (span : Span) (attempt : Attempt α) :
    Interpretation α :=
  attempt.adapt fun fault => (Failure.mk fault none none).atNode category span

mutual

/-- The meaning of a tree. -/
def evaluate (language : Language) : Derivation → Interpretation Meaning
  | .leaf category word span => located category span (language.lexicon.lookup category word)
  | .node lhs rhs children span => do
    let rule : RuleKey := ⟨lhs, rhs⟩
    let action ← located lhs span (language.action rule children)
    let parts ← evaluateForest language children
    located lhs span (action ⟨rule, parts, language.numbers⟩)

/-- The meanings of several trees. -/
def evaluateForest (language : Language) : List Derivation → Interpretation (List Meaning)
  | [] => return []
  | tree :: rest => do
    let part ← evaluate language tree
    let parts ← evaluateForest language rest
    return part :: parts

end

end Language

end PhraseScript
