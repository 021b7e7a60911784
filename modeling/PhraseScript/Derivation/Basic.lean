/-!
# Derivation trees

How a sentence was derived from a grammar: leaves are words of a category, inner nodes are
applications of a rule.  A node carries the right-hand side of its rule as well as its
children; whether the two fit is not part of being a tree.

Every node has a span, the range of words it covers.  Spans are data like the rest and can
be anything; `reindexed` is the tree whose spans are counted out from its leaves.
-/

namespace PhraseScript

/-- A range of words, by the position of its first word and the position after its last. -/
structure Span where
  start : Nat
  stop : Nat
deriving DecidableEq, Repr

namespace Span

/-- The span of a node that was given none. -/
def unset : Span := ⟨0, 0⟩

end Span

/-- A derivation tree. -/
inductive Derivation where
  /-- A word of a category. -/
  | leaf (category word : String) (span : Span)
  /-- An application of the rule `lhs -> rhs`. -/
  | node (lhs : String) (rhs : List String) (children : List Derivation) (span : Span)

namespace Derivation

instance : Inhabited Derivation := ⟨.leaf "" "" .unset⟩

/-- The category that a tree derives. -/
def category : Derivation → String
  | .leaf category _ _ => category
  | .node lhs _ _ _ => lhs

/-- The words that a tree says it covers. -/
def span : Derivation → Span
  | .leaf _ _ span => span
  | .node _ _ _ span => span

/-- A leaf without a span. -/
def word (category word : String) : Derivation := .leaf category word .unset

/-- The application of the rule whose right-hand side is the categories of the children.
It covers what lies from the start of its first child to the stop of its last. -/
def apply (lhs : String) (children : List Derivation) : Derivation :=
  let span := match children.head?, children.getLast? with
    | some first, some last => ⟨first.span.start, last.span.stop⟩
    | _, _ => .unset
  .node lhs (children.map category) children span

mutual

/-- The words at the leaves, from left to right. -/
def words : Derivation → List String
  | .leaf _ word _ => [word]
  | .node _ _ children _ => forestWords children

/-- The words at the leaves of several trees. -/
def forestWords : List Derivation → List String
  | [] => []
  | tree :: rest => words tree ++ forestWords rest

end

/-- The words with single spaces between them. -/
def sentence (tree : Derivation) : String := " ".intercalate tree.words

mutual

/-- Counts spans out from the leaves, the first leaf being the `next`-th word; also gives
the position after the last leaf. -/
def reindexFrom (next : Nat) : Derivation → Derivation × Nat
  | .leaf category word _ => (.leaf category word ⟨next, next + 1⟩, next + 1)
  | .node lhs rhs children _ =>
    let (children, stop) := reindexForest next children
    (.node lhs rhs children ⟨next, stop⟩, stop)

/-- Counts spans out through several trees. -/
def reindexForest (next : Nat) : List Derivation → List Derivation × Nat
  | [] => ([], next)
  | tree :: rest =>
    let (tree, next) := reindexFrom next tree
    let (rest, stop) := reindexForest next rest
    (tree :: rest, stop)

end

/-- The same tree with the spans that its leaves have in the sentence. -/
def reindexed (tree : Derivation) : Derivation := (reindexFrom 0 tree).1

end Derivation

end PhraseScript
