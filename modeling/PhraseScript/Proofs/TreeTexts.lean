import PhraseScript.Proofs.GivenSpans
import PhraseScript.Proofs.TextSizes

/-!
# Trees as texts

What a tree is serialized as is read back as the tree (`Derivation.read_serialized`).  Only a root
with the unset span is not told from one without a span, and the spans of its tree are counted out.

The reader does not depend on the layout of the text or on the order of members, so that reading is
shown for all written forms of a tree (`IsWrittenInFull`), among which is the one that it is
serialized as.
-/

namespace PhraseScript

open Json (Written)

namespace Json

variable {written : Written} {n : Nat}

namespace Written

lemma natural?_eq_some_iff :
    written.natural? = some n ↔
      ∃ literal, written = .number literal ∧ Number.ofLiteral? literal = some (.integer n) := by
  constructor
  · intro h
    cases written with
    | number literal =>
      rw [natural?] at h
      split at h
      · next value hvalue =>
        split_ifs at h with hsign
        obtain rfl := Option.some.inj h
        exact ⟨literal, rfl, by rw [hvalue, Int.toNat_of_nonneg hsign]⟩
      · cases h
    | null | bool | string | array | object => cases h
  · rintro ⟨literal, rfl, hvalue⟩
    rw [natural?, hvalue]
    exact if_pos (Int.natCast_nonneg n)

lemma isSome_value?_of_natural? (h : written.natural? = some n) : written.value?.isSome := by
  obtain ⟨literal, rfl, hvalue⟩ := natural?_eq_some_iff.mp h
  rw [value?, hvalue]
  rfl

end Written

lemma takeDigits_lt {read : Nat} {digits : List Char} (h : read < twoTo 64) :
    (takeDigits read digits).1 < twoTo 64 := by
  induction digits generalizing read with
  | nil => exact h
  | cons c digits ih =>
    dsimp only [takeDigits]
    split
    · next hnext => exact ih hnext
    · exact h

/-- The integers that are read have at most 64 bits. -/
lemma Number.integer_lt_of_ofLiteral? {l : Literal} {value : Int}
    (h : ofLiteral? l = some (.integer value)) : value < twoTo 64 := by
  have hwhole : (takeDigits 0 l.whole).1 < twoTo 64 := takeDigits_lt (twoTo_pos 64)
  -- what is read with a fraction or an exponent is a real
  have hreal {rounded? : Option Magnitude} {exponent : Int}
      (h : (do
        let rounded ← rounded?
        return Number.real l.negative (← rounded.scaleByTen? exponent)) =
          some (.integer value)) : False := by
    obtain ⟨rounded, -, h⟩ := Option.bind_eq_some_iff.mp h
    obtain ⟨scaled, -, h⟩ := Option.bind_eq_some_iff.mp h
    cases h
  rw [ofLiteral?] at h
  dsimp only at h
  split at h
  · split_ifs at h
    · exact (hreal h).elim
    · cases h
      omega
    · cases h
      omega
    · exact (hreal h).elim
  · exact (hreal h).elim

lemma Written.natural?_lt (h : written.natural? = some n) : n < twoTo 64 := by
  obtain ⟨literal, rfl, hvalue⟩ := natural?_eq_some_iff.mp h
  have hlt := Number.integer_lt_of_ofLiteral? hvalue
  omega

/-- An integer of at most 64 bits is read back. -/
lemma natural?_written_int (h : n < twoTo 64) : (int n).written.natural? = some n := by
  have htwoTo : twoTo 64 = 2 ^ 64 := rfl
  exact Written.natural?_eq_some_iff.mpr
    ⟨_, rfl, Number.ofLiteral?_integer (by omega) (by omega)⟩

end Json

/-! ### Spans -/

namespace Span

variable {span : Span} {written : Written}

/-- The written forms of a span: objects with its two ends, in any order. -/
inductive IsWritten (span : Span) : Written → Prop where
  | object {fields : List (String × Written)} {start stop : Written}
      (hfields : fields.Perm [("start", start), ("end", stop)])
      (hstart : start.natural? = some span.start) (hstop : stop.natural? = some span.stop) :
      IsWritten span (.object (fields.map fun field => (some field.1, field.2)))

lemma ofWritten?_of_isWritten (h : span.IsWritten written) : ofWritten? written = some span := by
  obtain @⟨fields, start, stop, hfields, hstart, hstop⟩ := h
  have hlookup := Derivation.lookup_eq_of_perm hfields (by simp)
  have hknown : ∀ field ∈ fields, field.1 ∈ ["start", "end"] := fun field hfield =>
    (hfields.map Prod.fst).mem_iff.mp (List.mem_map_of_mem hfield)
  have hrecord := Written.record?_object _ _ hknown
    ((hfields.map Prod.fst).nodup_iff.mpr (by simp))
  rw [ofWritten?, hrecord]
  simp [hlookup, List.lookup_cons, hstart, hstop]

lemma isSome_value?_of_isWritten (h : span.IsWritten written) : written.value?.isSome := by
  obtain ⟨hfields, hstart, hstop⟩ := h
  refine Derivation.isSome_value?_object hfields ?_
  rw [List.forall_mem_cons, List.forall_mem_singleton]
  exact ⟨Written.isSome_value?_of_natural? hstart, Written.isSome_value?_of_natural? hstop⟩

/-- The ends of a span are numbers of 64 bits. -/
def Fits (span : Span) : Prop := span.start < twoTo 64 ∧ span.stop < twoTo 64

lemma fits_of_ofWritten? (h : ofWritten? written = some span) : span.Fits := by
  obtain ⟨fields, -, h⟩ := Option.bind_eq_some_iff.mp h
  obtain ⟨first, -, h⟩ := Option.bind_eq_some_iff.mp h
  obtain ⟨start, hstart, h⟩ := Option.bind_eq_some_iff.mp h
  obtain ⟨last, -, h⟩ := Option.bind_eq_some_iff.mp h
  obtain ⟨stop, hstop, h⟩ := Option.bind_eq_some_iff.mp h
  obtain rfl := Option.some.inj h
  exact ⟨Written.natural?_lt hstart, Written.natural?_lt hstop⟩

/-- A span as it is serialized, its start first. -/
def serialized (span : Span) : Json := .object [("start", .int span.start), ("end", .int span.stop)]

lemma isWritten_serialized (h : span.Fits) : span.IsWritten span.serialized.written :=
  .object (.refl _) (Json.natural?_written_int h.1) (Json.natural?_written_int h.2)

lemma toJson_eq (span : Span) :
    span.toJson = .object [("end", .int span.stop), ("start", .int span.start)] := by
  simp +decide only [toJson, Json.ofMembers, List.foldl_cons, List.foldl_nil, insertEntry, if_true,
    if_false]

lemma isWritten_toJson (h : span.Fits) : span.IsWritten span.toJson.written := by
  rw [toJson_eq]
  exact .object (.swap _ _ []) (Json.natural?_written_int h.1) (Json.natural?_written_int h.2)

end Span

/-! ### Trees -/

namespace Derivation

mutual

/-- The written forms of a tree as JSON with all its spans: objects with these members, in any
order. -/
inductive IsWrittenInFull : Derivation → Written → Prop where
  | leaf {category word : String} {span : Span} {spanned : Written}
      {fields : List (String × Written)} (hspan : span.IsWritten spanned)
      (hfields : fields.Perm [("kind", .string (some "leaf")),
        ("category", .string (some category)), ("word", .string (some word)),
        ("span", spanned)]) :
      IsWrittenInFull (.leaf category word span)
        (.object (fields.map fun field => (some field.1, field.2)))
  | node {lhs : String} {rhs : List String} {children : List Derivation} {span : Span}
      {items : List Written} {spanned : Written} {fields : List (String × Written)}
      (hspan : span.IsWritten spanned)
      (hfields : fields.Perm [("kind", .string (some "rule")), ("lhs", .string (some lhs)),
        ("rhs", .array (rhs.map fun category => .string (some category))),
        ("children", .array items), ("span", spanned)])
      (hchildren : AreWrittenInFull children items) :
      IsWrittenInFull (.node lhs rhs children span)
        (.object (fields.map fun field => (some field.1, field.2)))

/-- The written forms of several trees with all their spans. -/
inductive AreWrittenInFull : List Derivation → List Written → Prop where
  | nil : AreWrittenInFull [] []
  | cons {tree : Derivation} {rest : List Derivation} {item : Written} {items : List Written}
      (h : IsWrittenInFull tree item) (hs : AreWrittenInFull rest items) :
      AreWrittenInFull (tree :: rest) (item :: items)

end

mutual

/-- A tree is read from its written forms. -/
theorem ofWritten?_of_isWrittenInFull : {tree : Derivation} → {written : Written} →
    IsWrittenInFull tree written → ofWritten? written = some tree
  | _, _, .leaf hspan hfields =>
    ofWritten?_leaf hfields (.refl _) rfl rfl rfl (Span.ofWritten?_of_isWritten hspan)
  | _, _, .node hspan hfields hchildren =>
    ofWritten?_rule hfields (.refl _) rfl rfl rfl rfl (Span.ofWritten?_of_isWritten hspan)
      (treesOfWritten?_of_areWrittenInFull hchildren)

theorem treesOfWritten?_of_areWrittenInFull : {trees : List Derivation} →
    {items : List Written} → AreWrittenInFull trees items → treesOfWritten? items = some trees
  | _, _, .nil => rfl
  | _, _, .cons h hs => by
    rw [treesOfWritten?, ofWritten?_of_isWrittenInFull h, treesOfWritten?_of_areWrittenInFull hs]
    rfl

end

mutual

lemma isSome_value?_of_isWrittenInFull : {tree : Derivation} → {written : Written} →
    IsWrittenInFull tree written → written.value?.isSome
  | _, _, .leaf hspan hfields =>
    isSome_value?_object hfields
      (by simp [Written.value?, Span.isSome_value?_of_isWritten hspan])
  | _, _, @IsWrittenInFull.node _ rhs _ _ items _ _ hspan hfields hchildren => by
    have hrhs : (Written.array (rhs.map fun category => .string (some category))).value?.isSome :=
      isSome_value?_array (by simp [Written.value?])
    have hitems := isSome_value?_array (isSome_value?_of_areWrittenInFull hchildren)
    refine isSome_value?_object hfields ?_
    rw [List.forall_mem_cons, List.forall_mem_cons, List.forall_mem_cons, List.forall_mem_cons,
      List.forall_mem_singleton]
    exact ⟨rfl, rfl, hrhs, hitems, Span.isSome_value?_of_isWritten hspan⟩

lemma isSome_value?_of_areWrittenInFull : {trees : List Derivation} → {items : List Written} →
    AreWrittenInFull trees items → ∀ item ∈ items, item.value?.isSome
  | _, _, .nil => fun _ h => nomatch h
  | _, _, .cons h hs => by
    intro item hitem
    rcases List.mem_cons.mp hitem with rfl | hitem
    · exact isSome_value?_of_isWrittenInFull h
    · exact isSome_value?_of_areWrittenInFull hs item hitem

end

/-- A text of a written form of a tree is read as the tree, if it is not too deep. -/
theorem read_of_isWrittenInFull {tree : Derivation} {text : String} {written : Written}
    (htext : Written.read? text = some written) (h : IsWrittenInFull tree written)
    (hdepth : written.depth ≤ Json.maxDepth) : read text = .ok tree.withSpans := by
  have hkind : ∃ members name, written = .object members ∧
      kindField? (.object members) = some (.string (some name)) := by
    cases h with
    | leaf _ hfields => exact ⟨_, "leaf", rfl, kindField?_members hfields (by simp)⟩
    | node _ hfields => exact ⟨_, "rule", rfl, kindField?_members hfields (by simp)⟩
  obtain ⟨members, name, rfl, hname⟩ := hkind
  exact read_of_ofWritten? htext (isSome_value?_of_isWrittenInFull h) hdepth hname
    (ofWritten?_of_isWrittenInFull h)

/-! ### What a tree is serialized as -/

mutual

/-- A tree as it is serialized: its fields in their order, the span last. -/
def serialized : Derivation → Json
  | .leaf category word span =>
    .object [("kind", .string "leaf"), ("category", .string category), ("word", .string word),
      ("span", span.serialized)]
  | .node lhs rhs children span =>
    .object [("kind", .string "rule"), ("lhs", .string lhs), ("rhs", .array (rhs.map .string)),
      ("children", .array (forestSerialized children)), ("span", span.serialized)]

/-- Several trees as they are serialized. -/
def forestSerialized : List Derivation → List Json
  | [] => []
  | tree :: rest => serialized tree :: forestSerialized rest

end

/-- The spans of all nodes fit. -/
def SpansFit (tree : Derivation) : Prop :=
  ∀ path node, tree.nodeAt? path = some node → node.span.Fits

lemma SpansFit.of_mem {lhs : String} {rhs : List String} {children : List Derivation}
    {span : Span} (h : (node lhs rhs children span).SpansFit) :
    ∀ child ∈ children, child.SpansFit := by
  intro child hchild path inner hinner
  obtain ⟨position, hposition⟩ := List.getElem?_of_mem hchild
  exact h (position :: path) inner (Option.bind_eq_some_iff.mpr ⟨child, hposition, hinner⟩)

mutual

lemma isWrittenInFull_serialized : (tree : Derivation) → tree.SpansFit →
    IsWrittenInFull tree tree.serialized.written
  | .leaf category word span, h => .leaf (Span.isWritten_serialized (h [] _ rfl)) (.refl _)
  | .node lhs rhs children span, h => by
    have hnode : IsWrittenInFull (.node lhs rhs children span) _ :=
      .node (Span.isWritten_serialized (h [] _ rfl)) (.refl _)
        (areWrittenInFull_forestSerialized children h.of_mem)
    rw [serialized, Json.written, Json.writtenMembers_eq]
    simp only [List.map_cons, List.map_nil, Json.written, Json.writtenItems_strings]
    exact hnode

lemma areWrittenInFull_forestSerialized : (trees : List Derivation) →
    (∀ tree ∈ trees, tree.SpansFit) →
    AreWrittenInFull trees (Json.writtenItems (forestSerialized trees))
  | [], _ => .nil
  | tree :: rest, h =>
    .cons (isWrittenInFull_serialized tree (h tree (List.mem_cons_self ..)))
      (areWrittenInFull_forestSerialized rest fun other hother =>
        h other (List.mem_cons_of_mem _ hother))

end

mutual

lemma isWrittenInFull_toJson : (tree : Derivation) → tree.SpansFit →
    IsWrittenInFull tree tree.toJson.written
  | .leaf category word span, h => by
    have hsorted : (leaf category word span).toJson = .object [("category", .string category),
        ("kind", .string "leaf"), ("span", span.toJson), ("word", .string word)] := by
      simp +decide only [toJson, Json.ofMembers, List.foldl_cons, List.foldl_nil, insertEntry,
        if_true, if_false]
    rw [hsorted]
    exact .leaf (Span.isWritten_toJson (h [] _ rfl)) ((List.Perm.swap _ _ _).trans
      (.cons _ (.cons _ (.swap _ _ _))))
  | .node lhs rhs children span, h => by
    have hsorted : (node lhs rhs children span).toJson =
        .object [("children", .array (forestJson children)), ("kind", .string "rule"),
          ("lhs", .string lhs), ("rhs", .array (rhs.map .string)), ("span", span.toJson)] := by
      simp +decide only [toJson, Json.ofMembers, List.foldl_cons, List.foldl_nil, insertEntry,
        if_true, if_false]
    have hnode : IsWrittenInFull (.node lhs rhs children span) _ :=
      .node (Span.isWritten_toJson (h [] _ rfl))
        (@List.perm_middle _ _ [_, _, _] [_]).symm
        (areWrittenInFull_forestJson children h.of_mem)
    rw [hsorted, Json.written, Json.writtenMembers_eq]
    simp only [List.map_cons, List.map_nil, Json.written, Json.writtenItems_strings]
    exact hnode

lemma areWrittenInFull_forestJson : (trees : List Derivation) →
    (∀ tree ∈ trees, tree.SpansFit) →
    AreWrittenInFull trees (Json.writtenItems (forestJson trees))
  | [], _ => .nil
  | tree :: rest, h =>
    .cons (isWrittenInFull_toJson tree (h tree (List.mem_cons_self ..)))
      (areWrittenInFull_forestJson rest fun other hother =>
        h other (List.mem_cons_of_mem _ hother))

end

/-! ### Trees that have been read -/

lemma spansFit_of_ofWritten? {written : Written} {tree : Derivation}
    (h : ofWritten? written = some tree) : tree.SpansFit := by
  intro path node hnode
  have hpath := map_ofWritten?_writtenAt? h path
  rw [hnode] at hpath
  obtain ⟨item, -, hitem⟩ := Option.map_eq_some_iff.mp hpath
  obtain ⟨fields, -, hspan, -⟩ := exists_fields_of_ofWritten? hitem
  rw [spanAmong?] at hspan
  split at hspan
  · exact Span.fits_of_ofWritten? hspan
  · rw [← Option.some.inj hspan]
    exact ⟨twoTo_pos 64, twoTo_pos 64⟩

lemma spansFit_reindexed {tree : Derivation} (h : tree.words.length < twoTo 64) :
    tree.reindexed.SpansFit := by
  intro path node hnode
  obtain ⟨original, left, right, hwords, rfl⟩ := exists_of_nodeAt?_reindexFrom hnode
  rw [hwords, List.length_append, List.length_append] at h
  rw [span_reindexFrom]
  constructor <;> dsimp only <;> omega

lemma withSpans_reindexed (tree : Derivation) : tree.reindexed.withSpans = tree.reindexed := by
  rw [withSpans]
  split_ifs
  · exact tree.reindexed_reindexed
  · rfl

/-- In a tree that has been read, the spans fit, and nothing is left to be counted out. -/
lemma spansFit_of_read {text : String} {tree : Derivation} (hlength : text.length < twoTo 64)
    (h : read text = .ok tree) : tree.SpansFit ∧ tree.withSpans = tree := by
  have hreindexed (original : Derivation) (htree : tree = original.reindexed) :
      tree.SpansFit ∧ tree.withSpans = tree := by
    have hwords := length_words_le_of_read h
    subst htree
    rw [reindexed, words_reindexFrom] at hwords
    exact ⟨spansFit_reindexed (Nat.lt_of_le_of_lt hwords hlength), withSpans_reindexed original⟩
  by_cases hbrace : (Text.trimStart text.toList).head? = some '{'
  · obtain ⟨written, original, -, horiginal, htree⟩ := exists_of_read_document hbrace h
    by_cases hspan : original.span = .unset
    · exact hreindexed original (by rw [htree, withSpans, if_pos hspan])
    · rw [withSpans, if_neg hspan] at htree
      subst htree
      exact ⟨spansFit_of_ofWritten? horiginal, by rw [withSpans, if_neg hspan]⟩
  · rw [read, if_neg hbrace] at h
    obtain ⟨bare, -, htree⟩ := Bracketed.read_eq_ok_iff.mp h
    exact hreindexed bare htree.symm

/-! ### Reading what has been serialized -/

lemma exists_members_of_serialized (tree : Derivation) :
    ∃ members, tree.serialized = .object members := by
  cases tree <;> exact ⟨_, by rw [serialized]⟩

lemma read_serialized_of_deep {tree : Derivation} (h : Json.maxDepth < tree.serialized.depth) :
    read tree.serialized.compact = .error (.treeSyntax .notATree) := by
  obtain ⟨members, hmembers⟩ := exists_members_of_serialized tree
  have hwithin : (tree.serialized.written.within? Json.maxDepth).isSome = false := by
    rw [Written.within?, Json.depth_written, if_neg (Nat.not_le_of_lt h)]
    rfl
  have hhead : tree.serialized.compact.toList.head? = some '{' := by
    rw [hmembers, Json.toList_compact_object]
    rfl
  have htrim : Text.trimStart tree.serialized.compact.toList = tree.serialized.compact.toList := by
    rw [hmembers, trimStart_compact_object]
  have hdocument : readDocument tree.serialized.compact.toList = .error .notATree := by
    have hwritten : (Written.read? (String.ofList tree.serialized.compact.toList)).filter
        (fun written => (written.within? Json.maxDepth).isSome) = none := by
      rw [String.ofList_toList, Json.read?_compact_written, Option.filter_some, hwithin]
      rfl
    simp only [readDocument, hwritten]
  rw [read, htrim, if_pos hhead, hdocument]

/-- What a tree is serialized as is read back, whatever its strings and whether or not its nodes
apply rules that fit their children: the tree itself, or with its spans counted out if the span of
the root is the unset one.  The text must not be too deep; its layout and the order of members do
not matter.  A tree that has been read from a text comes back as it is. -/
theorem read_serialized :
    (∀ tree : Derivation, tree.SpansFit →
      read tree.serialized.compact =
        if tree.serialized.depth ≤ Json.maxDepth then
          .ok (if tree.span = .unset then tree.reindexed else tree)
        else .error (.treeSyntax .notATree)) ∧
    (∀ tree : Derivation, tree.SpansFit →
      IsWrittenInFull tree tree.serialized.written ∧ IsWrittenInFull tree tree.toJson.written) ∧
    (∀ (tree : Derivation) (text : String) (written : Written),
      Written.read? text = some written → IsWrittenInFull tree written →
      written.depth ≤ Json.maxDepth →
      read text = .ok (if tree.span = .unset then tree.reindexed else tree)) ∧
    ∀ (text : String) (tree : Derivation), text.length < twoTo 64 → read text = .ok tree →
      tree.SpansFit ∧
        (tree.serialized.depth ≤ Json.maxDepth → read tree.serialized.compact = .ok tree) := by
  have hserialized {tree : Derivation} (hspans : tree.SpansFit)
      (hdepth : tree.serialized.depth ≤ Json.maxDepth) :
      read tree.serialized.compact = .ok tree.withSpans :=
    read_of_isWrittenInFull (Json.read?_compact_written _) (isWrittenInFull_serialized tree hspans)
      (by rwa [Json.depth_written])
  refine ⟨fun tree hspans => ?_, fun tree hspans => ⟨isWrittenInFull_serialized tree hspans,
    isWrittenInFull_toJson tree hspans⟩, fun tree text written => read_of_isWrittenInFull,
    fun text tree hlength hread => ?_⟩
  · split_ifs with hdepth hspan
    · rw [hserialized hspans hdepth, withSpans, if_pos hspan]
    · rw [hserialized hspans hdepth, withSpans, if_neg hspan]
    · exact read_serialized_of_deep (Nat.lt_of_not_le hdepth)
  · obtain ⟨hspans, hwithSpans⟩ := spansFit_of_read hlength hread
    refine ⟨hspans, fun hdepth => ?_⟩
    rw [hserialized hspans hdepth, hwithSpans]

/-- "Stop" comes back with the spans that are not its own, and with those that are. -/
theorem read_serialized_stopping :
    read stopping.serialized.compact = .ok stopping ∧
      read stopping.document.compact = .ok stopping.reindexed ∧
      read stopping.reindexed.serialized.compact = .ok stopping.reindexed := by
  obtain ⟨hserialized, -, -, hagain⟩ := read_serialized
  have hfit : stopping.SpansFit := spansFit_of_ofWritten?
    (show ofWritten? stopping.serialized.written = some stopping from rfl)
  have hdepth : stopping.serialized.depth ≤ Json.maxDepth := by decide
  have hroot : stopping.span ≠ .unset := by decide
  have hstopping := hserialized stopping hfit
  rw [if_pos hdepth, if_neg hroot] at hstopping
  have hread : read stopping.document.compact = .ok stopping.reindexed :=
    read_of_isWritten (Json.read?_compact_written _) (isWritten_document stopping) (by decide)
  have hlength : stopping.document.compact.length < twoTo 64 := by decide +kernel
  exact ⟨hstopping, hread, (hagain _ _ hlength hread).2 (by decide)⟩

end Derivation

end PhraseScript
