import PhraseScript.Proofs.Runs

/-!
# The way to a node

A path leads from a tree to a node below it, by the positions of children.  The evaluation of the
tree comes to this node in a certain session (`Language.Reaches`): the nodes above are made like
rules, and the trees to the left of the path have meanings, one after another.  By
`Language.reaches_cons_iff` this can be told one node at a time.

Words and rules of the language are arbitrary.
-/

namespace PhraseScript

/-! ### Paths in trees -/

namespace Derivation

/-- The trees right below a node. -/
def children : Derivation → List Derivation
  | .leaf _ _ _ => []
  | .node _ _ children _ => children

/-- The node at the end of a path, which leads downwards by the positions of children. -/
def nodeAt? : Derivation → List Nat → Option Derivation
  | tree, [] => some tree
  | tree, position :: path => tree.children[position]?.bind (nodeAt? · path)

/-- The nodes above the end of a path. -/
def above : Derivation → List Nat → List Derivation
  | _, [] => []
  | tree, position :: path => tree :: tree.children[position]?.elim [] (above · path)

/-- The trees to the left of a path, in the order of the words. -/
def leftOf : Derivation → List Nat → List Derivation
  | _, [] => []
  | tree, position :: path =>
    tree.children.take position ++ tree.children[position]?.elim [] (leftOf · path)

end Derivation

/-! ### Nodes that an evaluation comes to -/

namespace Language

/-- A node is made like a rule of the language. -/
def Applies (language : Language) : Derivation → Prop
  | .leaf _ _ _ => False
  | .node lhs rhs children _ =>
    children.map Derivation.category = rhs ∧ (language.rules.lookup? ⟨lhs, rhs⟩).isSome

/-- The evaluation of a tree from `session` comes to the node at the end of a path, in the session
`before`: the nodes above it are made like rules, and the trees to the left of it have meanings. -/
structure Reaches (language : Language) (tree : Derivation) (session : Session) (path : List Nat)
    (node : Derivation) (before : Session) : Prop where
  node : tree.nodeAt? path = some node
  above : ∀ upper ∈ tree.above path, language.Applies upper
  left : ∃ parts, Gives (language.evaluateForest (tree.leftOf path)) session parts before

variable {language : Language} {tree node : Derivation} {trees : List Derivation}
  {session before after : Session} {path : List Nat}

/-! ### Several trees -/

lemma gives_forest_append {more : List Derivation} {parts : List Meaning} :
    Gives (language.evaluateForest (trees ++ more)) before parts after ↔
      ∃ first between second, Gives (language.evaluateForest trees) before first between ∧
        Gives (language.evaluateForest more) between second after ∧ parts = first ++ second := by
  induction trees generalizing before parts with
  | nil =>
    constructor
    · exact fun h => ⟨[], before, parts, gives_pure.mpr ⟨rfl, rfl⟩, h, rfl⟩
    · rintro ⟨first, between, second, hfirst, hsecond, rfl⟩
      obtain ⟨rfl, rfl⟩ := gives_pure.mp hfirst
      exact hsecond
  | cons tree trees ih =>
    simp only [List.cons_append, gives_forest_cons, ih]
    constructor
    · rintro ⟨part, start, -, hpart, ⟨first, between, second, hfirst, hsecond, rfl⟩, rfl⟩
      exact ⟨part :: first, between, second, ⟨part, start, first, hpart, hfirst, rfl⟩, hsecond, rfl⟩
    · rintro ⟨-, between, second, ⟨part, start, first, hpart, hfirst, rfl⟩, hsecond, rfl⟩
      exact ⟨part, start, _, hpart, ⟨first, between, second, hfirst, hsecond, rfl⟩, rfl⟩

/-- Each of several trees is evaluated from the session that those before it leave. -/
lemma exists_gives_of_getElem? {parts : List Meaning} {position : Nat}
    (h : Gives (language.evaluateForest trees) before parts after)
    (htree : trees[position]? = some tree) :
    ∃ others start part stop,
      Gives (language.evaluateForest (trees.take position)) before others start ∧
      Gives (language.evaluate tree) start part stop ∧ parts[position]? = some part := by
  induction trees generalizing before parts position with
  | nil => cases htree
  | cons first trees ih =>
    obtain ⟨part, between, others, hpart, hothers, rfl⟩ := gives_forest_cons.mp h
    cases position with
    | zero =>
      obtain rfl := Option.some.inj htree
      exact ⟨[], before, part, between, gives_pure.mpr ⟨rfl, rfl⟩, hpart, rfl⟩
    | succ position =>
      obtain ⟨more, start, found, stop, hmore, hfound, hposition⟩ := ih hothers htree
      exact ⟨part :: more, start, found, stop,
        gives_forest_cons.mpr ⟨part, between, more, hpart, hmore, rfl⟩, hfound, hposition⟩

/-! ### One step of the way -/

/-- An evaluation comes to a node in one session. -/
lemma Reaches.session_unique {node' : Derivation} {before' : Session}
    (h : language.Reaches tree session path node before)
    (h' : language.Reaches tree session path node' before') : before = before' := by
  obtain ⟨parts, hparts⟩ := h.left
  obtain ⟨parts', hparts'⟩ := h'.left
  exact (hparts.unique hparts').2

lemma reaches_nil_iff : language.Reaches tree session [] node before ↔
    node = tree ∧ before = session := by
  constructor
  · rintro ⟨hnode, -, parts, hparts⟩
    exact ⟨(Option.some.inj hnode).symm, (gives_pure.mp hparts).2.symm⟩
  · rintro ⟨rfl, rfl⟩
    exact ⟨rfl, List.forall_mem_nil _, [], gives_pure.mpr ⟨rfl, rfl⟩⟩

/-- One step of the way to a node. -/
lemma reaches_cons_iff {position : Nat} :
    language.Reaches tree session (position :: path) node before ↔
      language.Applies tree ∧ ∃ child parts between, tree.children[position]? = some child ∧
        Gives (language.evaluateForest (tree.children.take position)) session parts between ∧
        language.Reaches child between path node before := by
  constructor
  · rintro ⟨hnode, habove, parts, hparts⟩
    obtain ⟨child, hchild, hnode⟩ := Option.bind_eq_some_iff.mp hnode
    simp only [Derivation.above, Derivation.leftOf, hchild, Option.elim_some,
      List.forall_mem_cons] at habove hparts
    obtain ⟨first, between, second, hfirst, hsecond, -⟩ := gives_forest_append.mp hparts
    exact ⟨habove.1, child, first, between, hchild, hfirst, hnode, habove.2, second, hsecond⟩
  · rintro ⟨happlies, child, first, between, hchild, hfirst, hnode, habove, second, hsecond⟩
    refine ⟨Option.bind_eq_some_iff.mpr ⟨child, hchild, hnode⟩, ?_, first ++ second, ?_⟩
    · simpa only [Derivation.above, hchild, Option.elim_some, List.forall_mem_cons] using
        ⟨happlies, habove⟩
    · simp only [Derivation.leftOf, hchild, Option.elim_some]
      exact gives_forest_append.mpr ⟨first, between, second, hfirst, hsecond, rfl⟩

end Language

end PhraseScript
