/-!
# What can be wrong with a derivation tree

The ways in which a text fails to be a tree, or a tree to be made of rules.
-/

namespace PhraseScript

/-- Why a text is not a derivation tree, or a node not an application of its rule. -/
inductive TreeFault where
  /-- A word stands where a tree has to begin. -/
  | wordForTree (word : String)
  /-- A closing bracket stands where a tree has to begin. -/
  | closingForTree
  /-- The text ends where the tree has to begin. -/
  | nothing
  /-- No category follows an opening bracket. -/
  | noCategory
  /-- More or less than one word stands in a leaf. -/
  | notOneWord (category : String)
  /-- A word stands among the children of a node. -/
  | bareWord (word category : String)
  /-- The text ends inside a node. -/
  | notClosed (category : String)
  /-- A node has neither a word nor children. -/
  | noChildren (category : String)
  /-- Something follows the tree. -/
  | trailing
  /-- The root of a JSON tree does not say what kind of node it is; the text ends at the given
  position. -/
  | noKind (line column : Nat)
  /-- A JSON text is not a tree. -/
  | notATree
  /-- A child is not what its node's rule says. -/
  | misplacedChild (position : Nat) (rule found expected : String)
  /-- Any other complaint. -/
  | other (message : String)
deriving DecidableEq, Repr

/-- A fault in words. -/
def TreeFault.message : TreeFault → String
  | .wordForTree word => "expected \"(\", found \"" ++ word ++ "\""
  | .closingForTree => "unexpected \")\""
  | .nothing => "unexpected end of input"
  | .noCategory => "every node must start with a category"
  | .notOneWord category => "leaf " ++ category ++ " must hold exactly one word"
  | .bareWord word category => "bare word \"" ++ word ++ "\" inside rule node " ++ category
  | .notClosed category => "node " ++ category ++ " is not closed"
  | .noChildren category => "node " ++ category ++ " has no children"
  | .trailing => "trailing input after the root node"
  | .noKind line column =>
    "missing field \x60kind\x60 at line " ++ toString line ++ " column " ++ toString column
  | .notATree => "the document is not a derivation tree"
  | .misplacedChild position rule found expected =>
    "child " ++ toString position ++ " of " ++ rule ++ " is " ++ found ++ ", expected " ++ expected
  | .other message => message

end PhraseScript
