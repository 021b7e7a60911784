import PhraseScript.Proofs.WrittenTrees

/-!
# Spans that are written and spans that are not

In a JSON tree every node may be written with a span or without one.  The reader looks at the root
alone: without a span there, all spans are counted out, those that are written as well; with one,
every node keeps what is written, and those without a span stay without one
(`Derivation.spans_of_read_document`).  So below a root with a span, a node without one does not
get the span of its words (`Derivation.leaves_keep_no_spans`).
-/

namespace PhraseScript.Derivation

open Json (Written)

/-- What is written as the span of a node, if anything is. -/
def writtenSpan? (written : Written) : Option Written :=
  (fields? written).bind (·.lookup "span")

/-- The span that a node is read with. -/
def givenSpan? (written : Written) : Option Span := (fields? written).bind spanAmong?

/-- The positions in the sentence of the words of a node, which is the one at the end of a path:
as many words are before them as there are to the left of the path. -/
def covered (tree : Derivation) (path : List Nat) (node : Derivation) : Span :=
  let first := (forestWords (tree.leftOf path)).length
  ⟨first, first + node.words.length⟩

variable {tree node : Derivation} {path : List Nat}

/-- A node that is written without a span is read without one. -/
lemma givenSpan?_of_writtenSpan? {written : Written} {span : Span}
    (h : writtenSpan? written = none) (hgiven : givenSpan? written = some span) :
    span = .unset := by
  obtain ⟨fields, hfields, hspan⟩ := Option.bind_eq_some_iff.mp hgiven
  rw [writtenSpan?, hfields, Option.bind_some] at h
  rw [spanAmong?, h] at hspan
  exact (Option.some.inj hspan).symm

lemma givenSpan?_of_ofWritten? {written : Written} (h : ofWritten? written = some tree) :
    givenSpan? written = some tree.span := by
  obtain ⟨fields, hfields, hspan, -⟩ := exists_fields_of_ofWritten? h
  rw [givenSpan?, hfields, Option.bind_some, hspan]

/-- In a tree whose spans have been counted out, every node covers its words. -/
lemma span_of_nodeAt?_reindexed (h : tree.reindexed.nodeAt? path = some node) :
    node.span = tree.reindexed.covered path node := by
  -- the spans of the tree do not change when they are counted out again
  have hnode := nodeAt?_reindexFrom 0 tree.reindexed path
  rw [← reindexed, reindexed_reindexed, h, Option.map_some] at hnode
  have hspan := congrArg span (Option.some.inj hnode)
  rwa [span_reindexFrom, Nat.zero_add] at hspan

/-- The spans of a tree that is read as JSON.  Its nodes are those that are written, apart from
their spans.  If the root is written without a span, or with the unset one, every node has the span
of its words in the sentence; otherwise every node has the span that is written for it, or the
unset one.  So a node written without a span gets the span of its words just if the root has none
either, or if this is the unset one. -/
theorem spans_of_read_document {text : String}
    (hbrace : (Text.trimStart text.toList).head? = some '{') (hread : read text = .ok tree) :
    ∃ written given,
      Written.read? (String.ofList (Text.trimStart text.toList)) = some written ∧
      givenSpan? written = some given ∧
      ∀ path, (writtenAt? written path).isSome = (tree.nodeAt? path).isSome ∧
        ∀ item node, writtenAt? written path = some item → tree.nodeAt? path = some node →
          (ofWritten? item).map unspanned = some node.unspanned ∧
          (given = .unset → node.span = tree.covered path node) ∧
          (given ≠ .unset → givenSpan? item = some node.span) ∧
          (writtenSpan? item = none → (node.span = tree.covered path node ↔
            given = .unset ∨ tree.covered path node = .unset)) := by
  obtain ⟨written, original, hwritten, horiginal, rfl⟩ := exists_of_read_document hbrace hread
  refine ⟨written, original.span, hwritten, givenSpan?_of_ofWritten? horiginal, fun path => ?_⟩
  have hpath := map_ofWritten?_writtenAt? horiginal path
  have hsome : (writtenAt? written path).isSome = (original.nodeAt? path).isSome := by
    simpa using congrArg Option.isSome hpath
  rw [withSpans]
  split_ifs with hspan
  · have hnodes := nodeAt?_reindexFrom 0 original path
    rw [← reindexed] at hnodes
    refine ⟨by rw [hsome, hnodes, Option.isSome_map], fun item node hitem hnode => ?_⟩
    have hcounted := span_of_nodeAt?_reindexed hnode
    refine ⟨?_, fun _ => hcounted, fun h => absurd hspan h,
      fun _ => iff_of_true hcounted (.inl hspan)⟩
    rw [hnode] at hnodes
    obtain ⟨bare, hbare, rfl⟩ := Option.map_eq_some_iff.mp hnodes.symm
    rw [hitem, hbare] at hpath
    have hread : ofWritten? item = some bare := Option.some.inj hpath
    rw [hread, Option.map_some, unspanned_reindexFrom]
  · refine ⟨hsome, fun item node hitem hnode => ?_⟩
    rw [hitem, hnode] at hpath
    have hread : ofWritten? item = some node := Option.some.inj hpath
    have hgiven := givenSpan?_of_ofWritten? hread
    refine ⟨by rw [hread, Option.map_some], fun h => absurd h hspan, fun _ => hgiven,
      fun hnone => ?_⟩
    rw [givenSpan?_of_writtenSpan? hnone hgiven]
    exact ⟨fun h => .inr h.symm, fun h => (h.resolve_left hspan).symm⟩

/-- "Stop all sounds", where only the root is written with a span. -/
def rootSpanned : Json :=
  .object [("kind", .string "rule"), ("lhs", .string "SoundCommand"),
    ("rhs", .array [.string "Stop", .string "All", .string "Sounds"]),
    ("children", .array (forestDocuments
      [.word "Stop" "stop", .word "All" "all", .word "Sounds" "sounds"])),
    ("span", .object [("start", .int 0), ("end", .int 3)])]

/-- "Stop all sounds" as it is read then. -/
def rootSpannedTree : Derivation :=
  .node "SoundCommand" ["Stop", "All", "Sounds"]
    [.word "Stop" "stop", .word "All" "all", .word "Sounds" "sounds"] ⟨0, 3⟩

lemma read_rootSpanned : read rootSpanned.compact = .ok rootSpannedTree := by
  have htree : ofWritten? rootSpanned.written = some rootSpannedTree := rfl
  exact read_of_ofWritten? (Json.read?_compact_written rootSpanned) rfl (by decide) rfl htree

lemma trimStart_compact_object (members : List (String × Json)) :
    Text.trimStart (Json.object members).compact.toList =
      (Json.object members).compact.toList := by
  rw [Json.toList_compact_object]
  exact List.dropWhile_cons_of_neg (by decide)

lemma head?_rootSpanned : (Text.trimStart rootSpanned.compact.toList).head? = some '{' := by
  rw [rootSpanned, trimStart_compact_object, Json.toList_compact_object]
  rfl

theorem spans_of_read_document_rootSpanned :
    ∃ written given,
      Written.read? (String.ofList (Text.trimStart rootSpanned.compact.toList)) = some written ∧
      givenSpan? written = some given ∧
      ∀ path, (writtenAt? written path).isSome = (rootSpannedTree.nodeAt? path).isSome ∧
        ∀ item node, writtenAt? written path = some item →
          rootSpannedTree.nodeAt? path = some node →
          (ofWritten? item).map unspanned = some node.unspanned ∧
          (given = .unset → node.span = rootSpannedTree.covered path node) ∧
          (given ≠ .unset → givenSpan? item = some node.span) ∧
          (writtenSpan? item = none → (node.span = rootSpannedTree.covered path node ↔
            given = .unset ∨ rootSpannedTree.covered path node = .unset)) :=
  spans_of_read_document head?_rootSpanned read_rootSpanned

/-- The leaves of "stop all sounds" are written without spans, and stay without, below a root that
has one; the second of them is the second word. -/
theorem leaves_keep_no_spans :
    (Text.trimStart rootSpanned.compact.toList).head? = some '{' ∧
      read rootSpanned.compact = .ok rootSpannedTree ∧
      Written.read? (String.ofList (Text.trimStart rootSpanned.compact.toList)) =
        some rootSpanned.written ∧
      ∃ item node, writtenAt? rootSpanned.written [1] = some item ∧
        rootSpannedTree.nodeAt? [1] = some node ∧ writtenSpan? item = none ∧
        node.span = .unset ∧ rootSpannedTree.covered [1] node = ⟨1, 2⟩ := by
  refine ⟨head?_rootSpanned, read_rootSpanned, ?_, ?_⟩
  · rw [rootSpanned, trimStart_compact_object, String.ofList_toList, Json.read?_compact_written]
  · exact ⟨(word "All" "all").document.written, .word "All" "all", rfl, rfl, rfl, rfl, rfl⟩

end PhraseScript.Derivation
