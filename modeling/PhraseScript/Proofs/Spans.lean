import PhraseScript.Proofs.Paths

/-!
# Spans of reindexed trees

The spans of a reindexed tree are counted out from its leaves, and nothing else about the tree is
touched.  The main statement is `Derivation.spanned_reindexed`: every node covers exactly its own
words in the sentence, and the children of a node lie side by side in it, so that a node with
children has the span that `Derivation.apply` reads off the first and the last of them.

The counting goes through a tree with a running position.  By `exists_of_nodeAt?_reindexFrom` a
node below comes out as if the counting had begun there, at the number of the words before it; what
is to be shown of all nodes need therefore only be shown of the root.
-/

namespace PhraseScript

/-- Spans lie side by side and in order, from the start of a span to its stop. -/
inductive Span.Tiles : Span → List Span → Prop where
  | nil {position : Nat} : Tiles ⟨position, position⟩ []
  | cons {start next stop : Nat} {rest : List Span} (hle : start ≤ next)
      (h : Tiles ⟨next, stop⟩ rest) : Tiles ⟨start, stop⟩ (⟨start, next⟩ :: rest)

lemma Span.Tiles.start_eq {span first : Span} {rest : List Span} (h : span.Tiles (first :: rest)) :
    first.start = span.start := by
  cases h
  rfl

/-- The last of the spans stops where the whole span does. -/
lemma Span.Tiles.getLast?_eq {span : Span} {spans : List Span} (h : span.Tiles spans)
    (hne : spans ≠ []) : ∃ start, spans.getLast? = some ⟨start, span.stop⟩ := by
  induction h with
  | nil => exact absurd rfl hne
  | @cons start next stop rest _ h ih =>
    cases h with
    | nil => exact ⟨start, rfl⟩
    | cons =>
      obtain ⟨last, hlast⟩ := ih (List.cons_ne_nil _ _)
      exact ⟨last, by rw [List.getLast?_cons_cons, hlast]⟩

namespace Derivation

/-! ### What the counting leaves as it is -/

mutual

/-- A tree without its spans. -/
def unspanned : Derivation → Derivation
  | .leaf category word _ => .leaf category word .unset
  | .node lhs rhs children _ => .node lhs rhs (forestUnspanned children) .unset

/-- Several trees without their spans. -/
def forestUnspanned : List Derivation → List Derivation
  | [] => []
  | tree :: rest => unspanned tree :: forestUnspanned rest

end

mutual

/-- The spans of the leaves, from left to right. -/
def leafSpans : Derivation → List Span
  | .leaf _ _ span => [span]
  | .node _ _ children _ => forestLeafSpans children

/-- The spans of the leaves of several trees. -/
def forestLeafSpans : List Derivation → List Span
  | [] => []
  | tree :: rest => leafSpans tree ++ forestLeafSpans rest

end

mutual

lemma reindexFrom_unspanned (next : Nat) : (tree : Derivation) →
    reindexFrom next tree.unspanned = reindexFrom next tree
  | .leaf category word span => rfl
  | .node lhs rhs children span => by
    rw [unspanned, reindexFrom, reindexFrom, reindexForest_forestUnspanned next children]

lemma reindexForest_forestUnspanned (next : Nat) : (trees : List Derivation) →
    reindexForest next (forestUnspanned trees) = reindexForest next trees
  | [] => rfl
  | tree :: rest => by
    rw [forestUnspanned, reindexForest, reindexForest, reindexFrom_unspanned next tree]
    simp only [reindexForest_forestUnspanned _ rest]

end

mutual

lemma unspanned_reindexFrom (next : Nat) : (tree : Derivation) →
    (reindexFrom next tree).1.unspanned = tree.unspanned
  | .leaf category word span => rfl
  | .node lhs rhs children span => by
    rw [reindexFrom, unspanned, unspanned, forestUnspanned_reindexForest next children]

lemma forestUnspanned_reindexForest (next : Nat) : (trees : List Derivation) →
    forestUnspanned (reindexForest next trees).1 = forestUnspanned trees
  | [] => rfl
  | tree :: rest => by
    rw [reindexForest, forestUnspanned, forestUnspanned, unspanned_reindexFrom next tree,
      forestUnspanned_reindexForest _ rest]

end

mutual

lemma words_reindexFrom (next : Nat) : (tree : Derivation) →
    (reindexFrom next tree).1.words = tree.words
  | .leaf category word span => rfl
  | .node lhs rhs children span => by
    rw [reindexFrom, words, words, forestWords_reindexForest next children]

lemma forestWords_reindexForest (next : Nat) : (trees : List Derivation) →
    forestWords (reindexForest next trees).1 = forestWords trees
  | [] => rfl
  | tree :: rest => by
    rw [reindexForest, forestWords, forestWords, words_reindexFrom next tree,
      forestWords_reindexForest _ rest]

end

/-- Counting from a position again gives the same spans: they never mattered. -/
lemma reindexFrom_reindexFrom (next : Nat) (tree : Derivation) :
    reindexFrom next (reindexFrom next tree).1 = reindexFrom next tree := by
  rw [← reindexFrom_unspanned, unspanned_reindexFrom, reindexFrom_unspanned]

/-! ### What the counting gives -/

mutual

lemma snd_reindexFrom (next : Nat) : (tree : Derivation) →
    (reindexFrom next tree).2 = next + tree.words.length
  | .leaf category word span => rfl
  | .node lhs rhs children span => by
    rw [reindexFrom, words, snd_reindexForest next children]

/-- The position after several trees. -/
lemma snd_reindexForest (next : Nat) : (trees : List Derivation) →
    (reindexForest next trees).2 = next + (forestWords trees).length
  | [] => rfl
  | tree :: rest => by
    rw [reindexForest, forestWords, snd_reindexForest _ rest, snd_reindexFrom next tree,
      List.length_append, Nat.add_assoc]

end

lemma span_reindexFrom (next : Nat) (tree : Derivation) :
    (reindexFrom next tree).1.span = ⟨next, next + tree.words.length⟩ := by
  cases tree with
  | leaf category word span => rfl
  | node lhs rhs children span => rw [reindexFrom, Derivation.span, words, snd_reindexForest]

lemma tiles_reindexForest (next : Nat) (trees : List Derivation) :
    Span.Tiles ⟨next, (reindexForest next trees).2⟩ ((reindexForest next trees).1.map span) := by
  induction trees generalizing next with
  | nil => exact .nil
  | cons tree rest ih =>
    rw [reindexForest, List.map_cons, span_reindexFrom, ← snd_reindexFrom]
    exact .cons (by rw [snd_reindexFrom]; omega) (ih _)

mutual

lemma leafSpans_reindexFrom (next : Nat) : (tree : Derivation) →
    (reindexFrom next tree).1.leafSpans =
      (List.range' next tree.words.length).map fun position => ⟨position, position + 1⟩
  | .leaf category word span => rfl
  | .node lhs rhs children span => by
    rw [reindexFrom, leafSpans, words, forestLeafSpans_reindexForest next children]

lemma forestLeafSpans_reindexForest (next : Nat) : (trees : List Derivation) →
    forestLeafSpans (reindexForest next trees).1 =
      (List.range' next (forestWords trees).length).map fun position => ⟨position, position + 1⟩
  | [] => rfl
  | tree :: rest => by
    rw [reindexForest, forestLeafSpans, leafSpans_reindexFrom next tree,
      forestLeafSpans_reindexForest _ rest, snd_reindexFrom, forestWords, List.length_append,
      ← List.range'_append_1, List.map_append]

end

/-! ### The nodes of a tree -/

/-- The words of several trees, by those before and after one of them. -/
lemma forestWords_eq_of_getElem? {trees : List Derivation} {position : Nat} {tree : Derivation}
    (h : trees[position]? = some tree) :
    forestWords trees = forestWords (trees.take position) ++
      (tree.words ++ forestWords (trees.drop (position + 1))) := by
  induction trees generalizing position with
  | nil => cases h
  | cons first rest ih =>
    cases position with
    | zero =>
      obtain rfl := Option.some.inj h
      rfl
    | succ position =>
      rw [forestWords, ih h, List.take_succ_cons, List.drop_succ_cons, forestWords,
        List.append_assoc]

/-- Each of several trees is counted from where those before it end. -/
lemma getElem?_reindexForest (next : Nat) (trees : List Derivation) (position : Nat) :
    (reindexForest next trees).1[position]? = trees[position]?.map fun tree =>
      (reindexFrom (next + (forestWords (trees.take position)).length) tree).1 := by
  induction trees generalizing next position with
  | nil => rfl
  | cons tree rest ih =>
    cases position with
    | zero => rfl
    | succ position =>
      rw [reindexForest, List.getElem?_cons_succ, List.getElem?_cons_succ, ih, snd_reindexFrom,
        List.take_succ_cons, forestWords, List.length_append, Nat.add_assoc]

/-- A node of a reindexed tree comes out as if the counting had begun with it, at the number of
the words before it. -/
theorem exists_of_nodeAt?_reindexFrom {tree node : Derivation} {next : Nat} {path : List Nat}
    (h : (reindexFrom next tree).1.nodeAt? path = some node) :
    ∃ original left right, tree.words = left ++ (words original ++ right) ∧
      node = (reindexFrom (next + left.length) original).1 := by
  induction path generalizing tree next with
  | nil => exact ⟨tree, [], [], by simp, (Option.some.inj h).symm⟩
  | cons position path ih =>
    obtain ⟨child, hchild, hnode⟩ := Option.bind_eq_some_iff.mp h
    cases tree with
    | leaf category word span => cases hchild
    | node lhs rhs trees span =>
      rw [reindexFrom, children, getElem?_reindexForest, Option.map_eq_some_iff] at hchild
      obtain ⟨original, horiginal, rfl⟩ := hchild
      obtain ⟨inner, left, right, hwords, rfl⟩ := ih hnode
      refine ⟨inner, forestWords (trees.take position) ++ left,
        right ++ forestWords (trees.drop (position + 1)), ?_, ?_⟩
      · rw [words, forestWords_eq_of_getElem? horiginal, hwords]
        simp only [List.append_assoc]
      · rw [List.length_append, Nat.add_assoc]

/-- A node covers its own words in a sentence, and its children lie side by side in it.  A node
with children has the span that it is given when it is put together from them. -/
structure Spanned (sentence : List String) (node : Derivation) : Prop where
  start_le : node.span.start ≤ node.span.stop
  stop_le : node.span.stop ≤ sentence.length
  words_eq : sentence.extract node.span.start node.span.stop = node.words
  tiles : ∀ {lhs rhs children span}, node = .node lhs rhs children span →
    span.Tiles (children.map Derivation.span)
  apply_eq : ∀ {lhs rhs children span}, node = .node lhs rhs children span → children ≠ [] →
    (apply lhs children).span = span

/-- From spans that lie side by side, the first start and the last stop are read off. -/
lemma span_apply {lhs : String} {trees : List Derivation} {span : Span}
    (h : span.Tiles (trees.map Derivation.span)) (hne : trees ≠ []) :
    (apply lhs trees).span = span := by
  obtain ⟨first, rest, rfl⟩ := List.exists_cons_of_ne_nil hne
  obtain ⟨start, hlast⟩ := h.getLast?_eq (List.cons_ne_nil _ _)
  rw [List.getLast?_map, Option.map_eq_some_iff] at hlast
  obtain ⟨last, hlast, hstop⟩ := hlast
  have hstart : first.span.start = span.start := h.start_eq
  rw [apply, List.head?_cons, hlast]
  show (⟨first.span.start, last.span.stop⟩ : Span) = span
  rw [hstart, hstop]

/-- A node that is counted out where its words stand in a sentence covers them. -/
lemma spanned_reindexFrom {sentence left right : List String} {tree : Derivation}
    (h : sentence = left ++ (tree.words ++ right)) :
    Spanned sentence (reindexFrom left.length tree).1 := by
  have htiles {lhs rhs trees span} (hnode : (reindexFrom left.length tree).1 =
      .node lhs rhs trees span) : span.Tiles (trees.map Derivation.span) := by
    cases tree with
    | leaf => cases hnode
    | node _ _ originals _ =>
      cases hnode
      exact tiles_reindexForest left.length originals
  refine ⟨?_, ?_, ?_, htiles, fun hnode hne => span_apply (htiles hnode) hne⟩
  · rw [span_reindexFrom]
    exact Nat.le_add_right _ _
  · rw [span_reindexFrom, h, List.length_append, List.length_append]
    exact Nat.add_le_add_left (Nat.le_add_right _ _) _
  · rw [span_reindexFrom, words_reindexFrom, h, List.extract_eq_take_drop, List.drop_left,
      Nat.add_sub_cancel_left, List.take_left]

/-- Reindexing changes nothing but spans, and changes those only once.  In a reindexed tree the
root covers the whole sentence, the leaves its words one by one, and every node its own words. -/
theorem spanned_reindexed (tree : Derivation) :
    tree.reindexed.unspanned = tree.unspanned ∧
      tree.reindexed.reindexed = tree.reindexed ∧
      tree.reindexed.span = ⟨0, tree.words.length⟩ ∧
      tree.reindexed.leafSpans =
        (List.range tree.words.length).map (fun position => ⟨position, position + 1⟩) ∧
      ∀ path node, tree.reindexed.nodeAt? path = some node →
        Spanned tree.reindexed.words node := by
  refine ⟨unspanned_reindexFrom 0 tree, congrArg Prod.fst (reindexFrom_reindexFrom 0 tree), ?_, ?_,
    fun path node hnode => ?_⟩
  · rw [reindexed, span_reindexFrom, Nat.zero_add]
  · rw [reindexed, leafSpans_reindexFrom, List.range_eq_range']
  · obtain ⟨original, left, right, hwords, rfl⟩ := exists_of_nodeAt?_reindexFrom hnode
    rw [reindexed, words_reindexFrom, Nat.zero_add]
    exact spanned_reindexFrom hwords

end Derivation

end PhraseScript
