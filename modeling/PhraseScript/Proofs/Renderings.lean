import PhraseScript.Proofs.DeepSessions

/-!
# Renderings of trees in brackets

A tree is rendered by writing its tokens one after another, with anything between them that the
reader passes over: blanks, and comments that end with their lines (`Rendered`).  Every rendering
of a tree whose words are words (`Plain`) is read as the tree (`Plain.read_rendered`), with the
spans that its leaves have in the sentence.
-/

namespace PhraseScript.Bracketed

/-! ### Renderings -/

/-- What can stand in front of a token: blanks, and comments with the ends of their lines. -/
inductive Gap : List Char → Prop where
  | nil : Gap []
  | blank {c : Char} {rest : List Char} (hc : Text.isBlank c = true) (h : Gap rest) :
      Gap (c :: rest)
  | comment {text rest : List Char} (htext : '\n' ∉ text) (h : Gap rest) :
      Gap (';' :: (text ++ '\n' :: rest))

/-- The texts in which tokens are written one after another, with gaps in front of them.  Where a
word ends, no word can go on.  A comment at the end of the text need not end its line. -/
inductive Rendered : List Token → List Char → Prop where
  | nil {gap : List Char} (hgap : Gap gap) : Rendered [] gap
  | comment {gap text : List Char} (hgap : Gap gap) (htext : '\n' ∉ text) :
      Rendered [] (gap ++ ';' :: text)
  | opening {gap text : List Char} {tokens : List Token} (hgap : Gap gap)
      (h : Rendered tokens text) : Rendered (.opening :: tokens) (gap ++ '(' :: text)
  | closing {gap text : List Char} {tokens : List Token} (hgap : Gap gap)
      (h : Rendered tokens text) : Rendered (.closing :: tokens) (gap ++ ')' :: text)
  | word {gap text : List Char} {word : String} {tokens : List Token} (hgap : Gap gap)
      (hends : ∀ c, text.head? = some c → isWordChar c = false) (h : Rendered tokens text) :
      Rendered (.word word :: tokens) (gap ++ (word.toList ++ text))

/-- Gaps are passed over. -/
lemma Gap.cuts {gap rest : List Char} {tokens : List Token} (hgap : Gap gap)
    (h : Cuts rest tokens) : Cuts (gap ++ rest) tokens := by
  induction hgap with
  | nil => exact h
  | blank hc _ ih => exact .blank hc ih
  | @comment text inner htext _ ih =>
    have hline : ∀ c, ('\n' :: (inner ++ rest)).head? = some c → c = '\n' := by
      intro c hc
      exact (Option.some.inj hc).symm
    have hcomment := Cuts.comment htext hline (.blank (by decide) ih)
    simpa using hcomment

/-- A text in which words are rendered falls into the tokens. -/
lemma Rendered.cuts {tokens : List Token} {text : List Char} (h : Rendered tokens text)
    (hwords : ∀ word, .word word ∈ tokens → IsWord word) : Cuts text tokens := by
  induction h with
  | nil hgap =>
    have := hgap.cuts .nil
    rwa [List.append_nil] at this
  | @comment gap text hgap htext =>
    have hcomment : Cuts (';' :: (text ++ [])) [] :=
      .comment htext (fun c hc => nomatch hc) .nil
    rw [List.append_nil] at hcomment
    exact hgap.cuts hcomment
  | opening hgap _ ih =>
    exact hgap.cuts (.opening (ih fun word hword => hwords word (List.mem_cons_of_mem _ hword)))
  | closing hgap _ ih =>
    exact hgap.cuts (.closing (ih fun word hword => hwords word (List.mem_cons_of_mem _ hword)))
  | @word gap text word tokens hgap hends _ ih =>
    obtain ⟨hne, hchars⟩ := hwords word (List.mem_cons_self ..)
    have hrest := ih fun word hword => hwords word (List.mem_cons_of_mem _ hword)
    have hword := Cuts.word hne hchars hends hrest
    rw [String.ofList_toList] at hword
    exact hgap.cuts hword

/-- What comes first in a rendering of a tree is not a brace, also without the blanks in front of
it. -/
lemma Gap.trimStart {gap : List Char} (hgap : Gap gap) (text : List Char) :
    ∃ trimmed, Gap trimmed ∧ Text.trimStart (gap ++ '(' :: text) = trimmed ++ '(' :: text ∧
      (trimmed ++ '(' :: text).head? ≠ some '{' := by
  have hkept {c : Char} (hc : Text.isBlank c = false) (rest : List Char) :
      Text.trimStart (c :: rest) = c :: rest := by
    rw [Text.trimStart, List.dropWhile_cons_of_neg (by simp [hc])]
  cases hgap with
  | nil => exact ⟨[], .nil, hkept (by decide) _, by simp⟩
  | comment htext h =>
    exact ⟨_, .comment htext h, hkept (by decide) _, fun h => nomatch Option.some.inj h⟩
  | @blank c rest hc h =>
    have htrim : Text.trimStart (c :: rest ++ '(' :: text) =
        Text.trimStart (rest ++ '(' :: text) := List.dropWhile_cons_of_pos hc
    rw [htrim]
    exact h.trimStart text

/-! ### Reading them -/

/-- A tree that can be rendered: its categories and words are words, and its nodes have children
and apply the rules that these call for. -/
inductive Plain : Derivation → Prop where
  | leaf {category word : String} {span : Span} (hcategory : IsWord category)
      (hword : IsWord word) : Plain (.leaf category word span)
  | node {lhs : String} {children : List Derivation} {span : Span} (hlhs : IsWord lhs)
      (hne : children ≠ []) (h : ∀ child ∈ children, Plain child) :
      Plain (.node lhs (children.map Derivation.category) children span)

namespace Plain

variable {tree : Derivation}

lemma proper (h : Plain tree) : Proper tree := by
  induction h with
  | leaf => exact .leaf
  | node _ hne _ ih => exact .node hne ih

lemma mem_forestSpelled {token : Token} {trees : List Derivation}
    (h : token ∈ forestSpelled trees) : ∃ tree ∈ trees, token ∈ spelled tree := by
  induction trees with
  | nil => cases h
  | cons tree rest ih =>
    rw [forestSpelled, List.mem_append] at h
    rcases h with h | h
    · exact ⟨tree, List.mem_cons_self .., h⟩
    · obtain ⟨other, hother, h⟩ := ih h
      exact ⟨other, List.mem_cons_of_mem _ hother, h⟩

lemma isWord_of_mem_spelled (h : Plain tree) :
    ∀ word, .word word ∈ spelled tree → IsWord word := by
  induction h with
  | leaf hcategory hword =>
    intro word hmem
    simp only [spelled, List.mem_cons, reduceCtorEq, Token.word.injEq, List.not_mem_nil, or_false,
      false_or] at hmem
    rcases hmem with rfl | rfl
    · exact hcategory
    · exact hword
  | node hlhs _ _ ih =>
    intro word hmem
    simp only [spelled, List.mem_cons, reduceCtorEq, Token.word.injEq, List.mem_append,
      List.not_mem_nil, or_false, false_or] at hmem
    rcases hmem with rfl | hmem
    · exact hlhs
    · obtain ⟨child, hchild, hmem⟩ := mem_forestSpelled hmem
      exact ih child hchild word hmem

/-- Every rendering of a tree is read as the tree. -/
theorem read_rendered (h : Plain tree) {text : String}
    (htext : Rendered (spelled tree) text.toList) :
    Derivation.read text = .ok tree.reindexed := by
  obtain ⟨bare, hbare, hspelled, hreindex⟩ := derives_iff.mp (h.proper.derives 0)
  obtain ⟨inner, hinner⟩ : ∃ inner, spelled tree = .opening :: inner := by
    cases tree <;> exact ⟨_, rfl⟩
  rw [hinner] at htext
  generalize hchars : text.toList = chars at htext
  cases htext with
  | @opening gap rest _ hgap hrest =>
    obtain ⟨trimmed, htrimmed, htrim, hbrace⟩ := hgap.trimStart rest
    have hcuts : Cuts (trimmed ++ '(' :: rest) (spelled tree) := by
      rw [hinner]
      exact (Rendered.opening htrimmed hrest).cuts (hinner ▸ h.isWord_of_mem_spelled)
    rw [Derivation.read, hchars, htrim, if_neg hbrace, read_eq_ok_iff, ← cuts_iff.mp hcuts]
    exact ⟨bare, ofTokens_eq_ok_iff.mpr ⟨hbare, hspelled⟩, congrArg Prod.fst hreindex⟩

end Plain

end PhraseScript.Bracketed
