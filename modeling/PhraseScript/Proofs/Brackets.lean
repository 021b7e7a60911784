import Mathlib.Data.List.TakeWhile
import Mathlib.Tactic.ByContra
import Mathlib.Tactic.Lemma
import PhraseScript.Derivation.Bracketed

/-!
# The grammar of bracketed trees

Which texts are bracketed trees, said without the reader: how a text falls into tokens (`Cuts`),
and which tokens are derived from

    node ::= ( atom atom ) | ( atom node ... node )

with at least one inner node in the second form (`Derives`).  The main statement is
`read_eq_ok_iff_derives`: the reader accepts exactly these texts, and gives the one tree that is
derived.

The reader is a machine, and both directions go through the tokens that a state of the machine
has taken (`State.spelled`): a step takes one more token (`spelled_step`), and a tree that is
spelled brings the machine to where the tree is finished (`run_spelled`).
-/

namespace PhraseScript.Bracketed

/-! ### The tokens of a text -/

/-- A character of a word. -/
def isWordChar (c : Char) : Bool := !Text.isBlank c && c ≠ '(' && c ≠ ')' && c ≠ ';'

/-- How a text falls into tokens: blanks and comments are passed over, a comment running to the
end of its line, and a word is as long as it can be. -/
inductive Cuts : List Char → List Token → Prop where
  | nil : Cuts [] []
  | blank {c : Char} {rest : List Char} {tokens : List Token} (hc : Text.isBlank c = true)
      (h : Cuts rest tokens) : Cuts (c :: rest) tokens
  | comment {text rest : List Char} {tokens : List Token} (htext : '\n' ∉ text)
      (hrest : ∀ c, rest.head? = some c → c = '\n') (h : Cuts rest tokens) :
      Cuts (';' :: (text ++ rest)) tokens
  | opening {rest : List Char} {tokens : List Token} (h : Cuts rest tokens) :
      Cuts ('(' :: rest) (.opening :: tokens)
  | closing {rest : List Char} {tokens : List Token} (h : Cuts rest tokens) :
      Cuts (')' :: rest) (.closing :: tokens)
  | word {word rest : List Char} {tokens : List Token} (hne : word ≠ [])
      (hword : ∀ c ∈ word, isWordChar c = true)
      (hrest : ∀ c, rest.head? = some c → isWordChar c = false) (h : Cuts rest tokens) :
      Cuts (word ++ rest) (.word (String.ofList word) :: tokens)

lemma isWordChar_eq_true_iff {c : Char} :
    isWordChar c = true ↔ Text.isBlank c = false ∧ c ≠ '(' ∧ c ≠ ')' ∧ c ≠ ';' := by
  simp [isWordChar, and_assoc]

lemma ne_semicolon_of_isBlank {c : Char} (h : Text.isBlank c = true) : c ≠ ';' := by
  rintro rfl
  exact absurd h (by decide)

lemma dropComments_cons {c : Char} (h : c ≠ ';') (rest : List Char) :
    dropComments false (c :: rest) = c :: dropComments false rest := by
  simp [dropComments, h]

lemma dropComments_word {word : List Char} (h : ∀ c ∈ word, isWordChar c = true)
    (rest : List Char) : dropComments false (word ++ rest) = word ++ dropComments false rest := by
  induction word with
  | nil => rfl
  | cons c word ih =>
    have hc := (isWordChar_eq_true_iff.mp (h c (by simp))).2.2.2
    rw [List.cons_append, dropComments_cons hc, ih fun d hd => h d (by simp [hd])]
    rfl

/-- Inside a comment everything up to the end of the line is dropped. -/
lemma dropComments_comment {text rest : List Char} (htext : '\n' ∉ text)
    (hrest : ∀ c, rest.head? = some c → c = '\n') :
    dropComments true (text ++ rest) = dropComments false rest := by
  induction text with
  | nil =>
    cases rest with
    | nil => rfl
    | cons c rest =>
      obtain rfl := hrest c rfl
      rfl
  | cons c text ih =>
    rw [List.mem_cons, not_or] at htext
    rw [List.cons_append, dropComments, if_neg fun h => htext.1 h.symm, if_pos (by simp),
      ih htext.2]

/-- Where no word can go on, none goes on when the comments are dropped. -/
lemma head?_dropComments {rest : List Char}
    (hrest : ∀ c, rest.head? = some c → isWordChar c = false) :
    ∀ c, (dropComments false rest).head? = some c → isWordChar c = false ∧ c ≠ ';' := by
  have hcomment : ∀ (rest : List Char) (c : Char), (dropComments true rest).head? = some c →
      isWordChar c = false ∧ c ≠ ';' := by
    intro rest c hc
    induction rest with
    | nil => cases hc
    | cons d rest ih =>
      by_cases hd : d = '\n'
      · subst hd
        obtain rfl : '\n' = c := Option.some.inj hc
        exact ⟨by decide, by decide⟩
      · rw [dropComments, if_neg hd, if_pos (by simp)] at hc
        exact ih hc
  intro c hc
  cases rest with
  | nil => cases hc
  | cons d rest =>
    by_cases hd : d = ';'
    · subst hd
      exact hcomment rest c hc
    · rw [dropComments_cons hd] at hc
      obtain rfl : d = c := Option.some.inj hc
      exact ⟨hrest d rfl, hd⟩

lemma cut_word {word : List Char} (h : ∀ c ∈ word, isWordChar c = true) (read rest : List Char) :
    cut read (word ++ rest) = cut (word.reverse ++ read) rest := by
  induction word generalizing read with
  | nil => rfl
  | cons c word ih =>
    obtain ⟨hblank, hopening, hclosing, -⟩ := isWordChar_eq_true_iff.mp (h c (by simp))
    rw [List.cons_append, cut, if_neg (by simp [hblank]), if_neg hopening, if_neg hclosing,
      ih fun d hd => h d (by simp [hd])]
    simp

/-- Where no word can go on, the word that has been read ends. -/
lemma cut_eq_endWord_append {rest : List Char}
    (hrest : ∀ c, rest.head? = some c → isWordChar c = false ∧ c ≠ ';') (read : List Char) :
    cut read rest = endWord read ++ cut [] rest := by
  cases rest with
  | nil => simp [cut, endWord]
  | cons c rest =>
    obtain ⟨hword, hsemicolon⟩ := hrest c rfl
    by_cases hblank : Text.isBlank c = true
    · simp [cut, hblank, endWord]
    by_cases hopening : c = '('
    · simp [cut, hopening, endWord, show Text.isBlank '(' = false from by decide]
    by_cases hclosing : c = ')'
    · simp [cut, hclosing, endWord, show Text.isBlank ')' = false from by decide]
    exact absurd (isWordChar_eq_true_iff.mpr
      ⟨Bool.eq_false_iff.mpr hblank, hopening, hclosing, hsemicolon⟩) (by simp [hword])

/-- A text falls into the tokens that it is cut into. -/
lemma Cuts.eq_tokens {text : List Char} {cuts : List Token} (h : Cuts text cuts) :
    cuts = tokens text := by
  induction h with
  | nil => rfl
  | blank hc _ ih =>
    rw [tokens, dropComments_cons (ne_semicolon_of_isBlank hc), cut, if_pos hc, ih]
    rfl
  | comment htext hrest _ ih =>
    rw [ih, tokens, tokens, dropComments, if_neg (by decide), if_pos (by decide),
      dropComments_comment htext hrest]
  | opening _ ih =>
    rw [ih]
    rfl
  | closing _ ih =>
    rw [ih]
    rfl
  | @word word rest cuts hne hword hrest _ ih =>
    have hend : endWord (word.reverse ++ []) = [.word (String.ofList word)] := by
      simp [endWord, hne]
    rw [tokens, dropComments_word hword, cut_word hword,
      cut_eq_endWord_append (head?_dropComments hrest) (word.reverse ++ []), hend, ih]
    rfl

/-- What comes after the longest beginning of a text whose characters have a property does not
begin with such a character. -/
lemma eq_false_of_head?_dropWhile {p : Char → Bool} {text : List Char} {c : Char}
    (h : (text.dropWhile p).head? = some c) : p c = false := by
  have hnot := List.head?_dropWhile_not p text
  rw [h] at hnot
  exact hnot

lemma exists_cuts (text : List Char) : ∃ cuts, Cuts text cuts := by
  -- a word or a comment is taken off as a whole, so that the induction is on the length
  induction hlength : text.length using Nat.strongRecOn generalizing text with
  | _ length ih =>
    subst hlength
    have htail {p : Char → Bool} (c : Char) (rest : List Char) :
        (rest.dropWhile p).length < (c :: rest).length :=
      Nat.lt_succ_of_le (List.dropWhile_suffix p).length_le
    cases text with
    | nil => exact ⟨[], .nil⟩
    | cons c rest =>
      by_cases hword : isWordChar c = true
      · have hdrop : ((c :: rest).dropWhile isWordChar).length < (c :: rest).length := by
          rw [List.dropWhile_cons_of_pos hword]
          exact htail c rest
        obtain ⟨cuts, hcuts⟩ := ih _ hdrop _ rfl
        have hne : (c :: rest).takeWhile isWordChar ≠ [] := by
          rw [List.takeWhile_cons_of_pos hword]
          exact List.cons_ne_nil _ _
        refine ⟨_, List.takeWhile_append_dropWhile ▸ Cuts.word hne ?_ ?_ hcuts⟩
        · exact fun d hd => List.mem_takeWhile_imp hd
        · exact fun d hd => eq_false_of_head?_dropWhile hd
      · obtain ⟨cuts, hcuts⟩ := ih _ (Nat.lt_succ_self rest.length) rest rfl
        by_cases hblank : Text.isBlank c = true
        · exact ⟨cuts, .blank hblank hcuts⟩
        by_cases hopening : c = '('
        · subst hopening
          exact ⟨_, .opening hcuts⟩
        by_cases hclosing : c = ')'
        · subst hclosing
          exact ⟨_, .closing hcuts⟩
        -- nothing is left but a comment
        obtain rfl : c = ';' := by
          by_contra hsemicolon
          exact hword (isWordChar_eq_true_iff.mpr
            ⟨Bool.eq_false_iff.mpr hblank, hopening, hclosing, hsemicolon⟩)
        obtain ⟨cuts, hcuts⟩ := ih _ (htail (p := (· != '\n')) ';' rest) _ rfl
        refine ⟨cuts, List.takeWhile_append_dropWhile (p := (· != '\n')) (l := rest) ▸
          Cuts.comment ?_ ?_ hcuts⟩
        · exact fun hmem => absurd (List.mem_takeWhile_imp hmem) (by decide)
        · exact fun d hd => by simpa using eq_false_of_head?_dropWhile hd

theorem cuts_iff {text : List Char} {cuts : List Token} : Cuts text cuts ↔ cuts = tokens text := by
  refine ⟨Cuts.eq_tokens, ?_⟩
  rintro rfl
  obtain ⟨cuts, hcuts⟩ := exists_cuts text
  exact hcuts.eq_tokens ▸ hcuts

/-! ### The grammar -/

mutual

/-- The tokens derived from a node, with the tree of the derivation.  The leaves are counted from
the first number on; the last number is the one after the last leaf. -/
inductive Derives : Nat → List Token → Derivation → Nat → Prop where
  | leaf {first : Nat} {category word : String} :
      Derives first [.opening, .word category, .word word, .closing]
        (.leaf category word ⟨first, first + 1⟩) (first + 1)
  | node {first last : Nat} {category : String} {inner : List Token}
      {children : List Derivation} (hne : children ≠ []) (h : DerivesAll first inner children last) :
      Derives first (.opening :: .word category :: (inner ++ [.closing]))
        (.node category (children.map Derivation.category) children ⟨first, last⟩) last

/-- The tokens derived from several nodes. -/
inductive DerivesAll : Nat → List Token → List Derivation → Nat → Prop where
  | nil {first : Nat} : DerivesAll first [] [] first
  | cons {first middle last : Nat} {tokens more : List Token} {tree : Derivation}
      {rest : List Derivation} (h : Derives first tokens tree middle)
      (hs : DerivesAll middle more rest last) :
      DerivesAll first (tokens ++ more) (tree :: rest) last

end

mutual

/-- The tokens that a tree is written with. -/
def spelled : Derivation → List Token
  | .leaf category word _ => [.opening, .word category, .word word, .closing]
  | .node lhs _ children _ => .opening :: .word lhs :: (forestSpelled children ++ [.closing])

/-- The tokens that several trees are written with. -/
def forestSpelled : List Derivation → List Token
  | [] => []
  | tree :: rest => spelled tree ++ forestSpelled rest

end

/-- A tree as the machine builds it, before its spans are counted out. -/
inductive Bare : Derivation → Prop where
  | word (category word : String) : Bare (.word category word)
  | apply (category : String) {children : List Derivation} (hne : children ≠ [])
      (h : ∀ child ∈ children, Bare child) : Bare (.apply category children)

lemma forestSpelled_append (trees more : List Derivation) :
    forestSpelled (trees ++ more) = forestSpelled trees ++ forestSpelled more := by
  induction trees with
  | nil => rfl
  | cons tree rest ih => rw [List.cons_append, forestSpelled, ih, forestSpelled, List.append_assoc]

/-! ### The grammar and the trees without spans -/

open PhraseScript.Derivation in
lemma category_reindexFrom (next : Nat) (tree : Derivation) :
    (reindexFrom next tree).1.category = tree.category := by
  cases tree <;> rfl

open PhraseScript.Derivation in
lemma map_category_reindexForest (next : Nat) (trees : List Derivation) :
    (reindexForest next trees).1.map category = trees.map category := by
  induction trees generalizing next with
  | nil => rfl
  | cons tree rest ih =>
    rw [reindexForest, List.map_cons, List.map_cons, category_reindexFrom, ih]

open PhraseScript.Derivation in
lemma reindexForest_ne_nil {next : Nat} {trees : List Derivation} (h : trees ≠ []) :
    (reindexForest next trees).1 ≠ [] := by
  intro hnil
  have hmap := map_category_reindexForest next trees
  rw [hnil] at hmap
  exact h (List.map_eq_nil_iff.mp hmap.symm)

/-- A tree whose nodes have children, and apply the rules that these call for. -/
inductive Proper : Derivation → Prop where
  | leaf {category word : String} {span : Span} : Proper (.leaf category word span)
  | node {lhs : String} {children : List Derivation} {span : Span} (hne : children ≠ [])
      (h : ∀ child ∈ children, Proper child) :
      Proper (.node lhs (children.map Derivation.category) children span)

lemma Bare.proper {tree : Derivation} (h : Bare tree) : Proper tree := by
  induction h with
  | word category word => exact .leaf
  | apply category hne _ ih => exact .node hne ih

open PhraseScript.Derivation in
lemma Proper.derives {tree : Derivation} (h : Proper tree) (first : Nat) :
    Derives first (spelled tree) (reindexFrom first tree).1 (reindexFrom first tree).2 := by
  induction h generalizing first with
  | leaf => exact .leaf
  | @node lhs children span hne _ ih =>
    have hall : ∀ (trees : List Derivation) (first : Nat), (∀ child ∈ trees, child ∈ children) →
        DerivesAll first (forestSpelled trees) (reindexForest first trees).1
          (reindexForest first trees).2 := by
      intro trees
      induction trees with
      | nil => exact fun _ _ => .nil
      | cons tree rest ihrest =>
        intro first hmem
        exact .cons (ih tree (hmem tree (by simp)) first)
          (ihrest _ fun child hchild => hmem child (by simp [hchild]))
    have hchildren := hall children first fun _ => id
    rw [spelled, reindexFrom, ← map_category_reindexForest first children]
    exact .node (reindexForest_ne_nil hne) hchildren

open PhraseScript.Derivation in
mutual

lemma Derives.exists_bare {first last : Nat} {tokens : List Token} {tree : Derivation}
    (h : Derives first tokens tree last) :
    ∃ bare, Bare bare ∧ spelled bare = tokens ∧ reindexFrom first bare = (tree, last) := by
  cases h with
  | @leaf _ category word => exact ⟨_, .word category word, rfl, rfl⟩
  | @node _ _ category _ children hne h =>
    obtain ⟨bares, hbares, hspelled, hreindex⟩ := h.exists_bare
    have hmap := map_category_reindexForest first bares
    rw [hreindex] at hmap
    have hne' : bares ≠ [] := by
      rintro rfl
      exact hne (List.map_eq_nil_iff.mp hmap)
    refine ⟨.apply category bares, .apply category hne' hbares, ?_, ?_⟩
    · rw [Derivation.apply, spelled, hspelled]
    · rw [Derivation.apply, reindexFrom, hreindex, ← hmap]

lemma DerivesAll.exists_bare {first last : Nat} {tokens : List Token} {trees : List Derivation}
    (h : DerivesAll first tokens trees last) :
    ∃ bares, (∀ bare ∈ bares, Bare bare) ∧ forestSpelled bares = tokens ∧
      reindexForest first bares = (trees, last) := by
  cases h with
  | nil => exact ⟨[], by simp, rfl, rfl⟩
  | cons h hs =>
    obtain ⟨bare, hbare, hspelled, hreindex⟩ := h.exists_bare
    obtain ⟨bares, hbares, hspelleds, hreindexes⟩ := hs.exists_bare
    refine ⟨bare :: bares, ?_, ?_, ?_⟩
    · simpa using ⟨hbare, hbares⟩
    · rw [forestSpelled, hspelled, hspelleds]
    · rw [reindexForest, hreindex]
      simp only [hreindexes]

end

/-- What is derived is what is spelled by a tree without spans, which are counted out from the
leaves afterwards. -/
theorem derives_iff {first last : Nat} {tokens : List Token} {tree : Derivation} :
    Derives first tokens tree last ↔
      ∃ bare, Bare bare ∧ spelled bare = tokens ∧
        Derivation.reindexFrom first bare = (tree, last) := by
  constructor
  · exact Derives.exists_bare
  · rintro ⟨bare, hbare, rfl, hreindex⟩
    have h := hbare.proper.derives first
    rwa [hreindex] at h

/-! ### The machine -/

/-- The tokens of nodes that are still open, the outermost first. -/
def framesSpelled : List Frame → List Token
  | [] => []
  | ⟨category, children⟩ :: outer =>
    framesSpelled outer ++ .opening :: .word category :: forestSpelled children.reverse

/-- The tokens that have been taken on the way to a state. -/
def State.spelled : State → List Token
  | .start => []
  | .opened outer => framesSpelled outer ++ [.opening]
  | .body innermost outer => framesSpelled (innermost :: outer)
  | .leaf category word outer => framesSpelled outer ++ [.opening, .word category, .word word]
  | .finished tree => Bracketed.spelled tree

/-- The finished children of open nodes are trees as the machine builds them. -/
def FramesBare (frames : List Frame) : Prop :=
  ∀ frame ∈ frames, ∀ child ∈ frame.children, Bare child

/-- The trees of a state are trees as the machine builds them. -/
def State.Bare : State → Prop
  | .start => True
  | .opened outer => FramesBare outer
  | .body innermost outer => FramesBare (innermost :: outer)
  | .leaf _ _ outer => FramesBare outer
  | .finished tree => Bracketed.Bare tree

lemma spelled_close (tree : Derivation) (outer : List Frame) :
    (close tree outer).spelled = framesSpelled outer ++ spelled tree := by
  cases outer with
  | nil => rfl
  | cons frame outer =>
    rw [close, State.spelled, framesSpelled, List.reverse_cons, forestSpelled_append]
    simp [framesSpelled, forestSpelled]

lemma bare_close {tree : Derivation} {outer : List Frame} (htree : Bare tree)
    (houter : FramesBare outer) : (close tree outer).Bare := by
  cases outer with
  | nil => exact htree
  | cons frame outer =>
    rintro f hf child hchild
    rcases List.mem_cons.mp hf with rfl | hf
    · rcases List.mem_cons.mp hchild with rfl | hchild
      · exact htree
      · exact houter frame (by simp) child hchild
    · exact houter f (by simp [hf]) child hchild

/-- A step adds its token to those that have been taken. -/
lemma spelled_step {state after : State} {token : Token} (hbare : state.Bare)
    (h : step state token = .ok after) :
    after.spelled = state.spelled ++ [token] ∧ after.Bare := by
  cases state with
  | start =>
    cases token <;> simp only [step, reduceCtorEq, Except.ok.injEq] at h
    subst h
    exact ⟨rfl, by simp [State.Bare, FramesBare]⟩
  | opened outer =>
    cases token <;> simp only [step, reduceCtorEq, Except.ok.injEq] at h
    subst h
    refine ⟨by simp [State.spelled, framesSpelled, forestSpelled], ?_⟩
    simpa [State.Bare, FramesBare] using hbare
  | body innermost outer =>
    obtain ⟨category, children⟩ := innermost
    have houter : FramesBare outer := fun f hf => hbare f (by simp [hf])
    cases token with
    | opening =>
      cases children <;> obtain rfl := Except.ok.inj h <;> exact ⟨rfl, hbare⟩
    | word word =>
      cases children with
      | nil =>
        obtain rfl := Except.ok.inj h
        refine ⟨?_, houter⟩
        simp [State.spelled, framesSpelled, forestSpelled]
      | cons child children => cases h
    | closing =>
      cases children with
      | nil => cases h
      | cons child children =>
        obtain rfl := Except.ok.inj h
        constructor
        · rw [spelled_close, Derivation.apply, spelled]
          simp [State.spelled, framesSpelled]
        · refine bare_close (.apply category (by simp) ?_) houter
          intro tree htree
          exact hbare ⟨category, child :: children⟩ (by simp) tree (List.mem_reverse.mp htree)
  | leaf category word outer =>
    cases token <;> simp only [step, reduceCtorEq, Except.ok.injEq] at h
    subst h
    refine ⟨?_, bare_close (.word category word) hbare⟩
    rw [spelled_close]
    simp [State.spelled, spelled, Derivation.word]
  | finished tree => cases h

/-- A run that ends with a tree has taken the tokens of the tree. -/
lemma spelled_run {state : State} {tokens : List Token} {tree : Derivation} (hbare : state.Bare)
    (h : run state tokens = .ok tree) : spelled tree = state.spelled ++ tokens ∧ Bare tree := by
  induction tokens generalizing state with
  | nil =>
    cases state <;> simp only [run, result, reduceCtorEq, Except.ok.injEq] at h
    subst h
    exact ⟨(List.append_nil _).symm, hbare⟩
  | cons token rest ih =>
    rw [run] at h
    cases hstep : step state token with
    | error cause =>
      rw [hstep] at h
      cases h
    | ok after =>
      rw [hstep] at h
      obtain ⟨hspelled, hafter⟩ := spelled_step hbare hstep
      obtain ⟨htree, hbare⟩ := ih hafter h
      exact ⟨by rw [htree, hspelled, List.append_assoc, List.singleton_append], hbare⟩

/-- After an opening bracket the rest of a tree is read to its end. -/
lemma run_opened {tree : Derivation} (h : Bare tree) (outer : List Frame) (rest : List Token) :
    ∃ inner, spelled tree = .opening :: inner ∧
      run (.opened outer) (inner ++ rest) = run (close tree outer) rest := by
  induction h generalizing outer rest with
  | word category word => exact ⟨_, rfl, rfl⟩
  | @apply category children hne _ ih =>
    refine ⟨_, rfl, ?_⟩
    have hchildren : ∀ (trees done : List Derivation) (rest : List Token),
        (∀ child ∈ trees, child ∈ children) →
        run (.body ⟨category, done⟩ outer) (forestSpelled trees ++ rest) =
          run (.body ⟨category, trees.reverse ++ done⟩ outer) rest := by
      intro trees
      induction trees with
      | nil => exact fun _ _ _ => rfl
      | cons tree trees ihtrees =>
        intro done rest hmem
        obtain ⟨inner, hinner, hrun⟩ := ih tree (hmem tree (by simp)) (⟨category, done⟩ :: outer)
          (forestSpelled trees ++ rest)
        have hopen : step (.body ⟨category, done⟩ outer) .opening =
            .ok (.opened (⟨category, done⟩ :: outer)) := by
          cases done <;> rfl
        calc run (.body ⟨category, done⟩ outer) (forestSpelled (tree :: trees) ++ rest)
            = run (.body ⟨category, done⟩ outer)
                (.opening :: (inner ++ (forestSpelled trees ++ rest))) := by
              rw [forestSpelled, hinner]
              simp
          _ = run (.opened (⟨category, done⟩ :: outer)) (inner ++ (forestSpelled trees ++ rest)) := by
              rw [run, hopen]
              rfl
          _ = run (.body ⟨category, tree :: done⟩ outer) (forestSpelled trees ++ rest) := hrun
          _ = run (.body ⟨category, (tree :: trees).reverse ++ done⟩ outer) rest := by
              rw [ihtrees _ _ fun child hchild => hmem child (by simp [hchild])]
              simp
    have hclose : step (.body ⟨category, children.reverse⟩ outer) .closing =
        .ok (close (.apply category children) outer) := by
      cases hreverse : children.reverse with
      | nil => exact absurd (List.reverse_eq_nil_iff.mp hreverse) hne
      | cons child done => rw [step, ← hreverse, List.reverse_reverse]; simp
    calc run (.opened outer) (.word category :: (forestSpelled children ++ [.closing]) ++ rest)
        = run (.body ⟨category, []⟩ outer) (forestSpelled children ++ (.closing :: rest)) := by
          rw [List.cons_append, List.append_assoc]
          rfl
      _ = run (.body ⟨category, children.reverse⟩ outer) (.closing :: rest) := by
          rw [hchildren children [] _ fun _ => id, List.append_nil]
      _ = run (close (.apply category children) outer) rest := by
          rw [run, hclose]
          rfl

/-- The machine reads exactly the tokens of the trees that it builds. -/
theorem ofTokens_eq_ok_iff {tokens : List Token} {tree : Derivation} :
    ofTokens tokens = .ok tree ↔ Bare tree ∧ spelled tree = tokens := by
  constructor
  · intro h
    have hstart : State.start.Bare := trivial
    obtain ⟨hspelled, hbare⟩ := spelled_run hstart h
    exact ⟨hbare, hspelled⟩
  · rintro ⟨hbare, rfl⟩
    obtain ⟨inner, hinner, hrun⟩ := run_opened hbare [] []
    rw [List.append_nil] at hrun
    rw [hinner]
    exact hrun

/-! ### The reader -/

lemma read_eq_ok_iff {text : List Char} {tree : Derivation} :
    read text = .ok tree ↔ ∃ bare, ofTokens (tokens text) = .ok bare ∧ bare.reindexed = tree := by
  rw [read]
  cases ofTokens (tokens text) <;> simp

/-- What the reader complains about is always the writing of a tree. -/
lemma exists_treeSyntax_of_read {text : List Char} {fault : Fault} (h : read text = .error fault) :
    ∃ cause, fault = .treeSyntax cause := by
  rw [read] at h
  cases hrun : ofTokens (tokens text) with
  | ok tree => rw [hrun] at h; cases h
  | error cause =>
    rw [hrun] at h
    exact ⟨cause, (Except.error.inj h).symm⟩

/-- The reader accepts exactly the texts whose tokens are derived from the grammar, and gives the
tree of the derivation, of which there is one at most.  Every text falls into tokens in one way,
and a text that is not accepted is refused for the writing of a tree. -/
theorem read_eq_ok_iff_derives (text : List Char) :
    ∃ tokens, (∀ other, Cuts text other ↔ other = tokens) ∧
      (∀ tree, read text = .ok tree ↔ ∃ last, Derives 0 tokens tree last) ∧
      (∀ tree tree' last last', Derives 0 tokens tree last → Derives 0 tokens tree' last' →
        tree = tree') ∧
      ((¬ ∃ tree last, Derives 0 tokens tree last) →
        ∃ fault, read text = .error fault ∧ fault.code = "TREE_SYNTAX") := by
  have haccepts : ∀ tree, read text = .ok tree ↔ ∃ last, Derives 0 (tokens text) tree last := by
    intro tree
    rw [read_eq_ok_iff]
    constructor
    · rintro ⟨bare, hbare, rfl⟩
      obtain ⟨hbare, hspelled⟩ := ofTokens_eq_ok_iff.mp hbare
      exact ⟨_, derives_iff.mpr ⟨bare, hbare, hspelled, rfl⟩⟩
    · rintro ⟨last, h⟩
      obtain ⟨bare, hbare, hspelled, hreindex⟩ := derives_iff.mp h
      exact ⟨bare, ofTokens_eq_ok_iff.mpr ⟨hbare, hspelled⟩, congrArg Prod.fst hreindex⟩
  refine ⟨tokens text, fun _ => cuts_iff, haccepts, ?_, ?_⟩
  · intro tree tree' last last' h h'
    have hread := (haccepts tree).mpr ⟨last, h⟩
    rw [(haccepts tree').mpr ⟨last', h'⟩] at hread
    exact (Except.ok.inj hread).symm
  · intro hnone
    cases hread : read text with
    | ok tree =>
      obtain ⟨last, h⟩ := (haccepts tree).mp hread
      exact absurd ⟨tree, last, h⟩ hnone
    | error fault =>
      obtain ⟨cause, rfl⟩ := exists_treeSyntax_of_read hread
      exact ⟨_, rfl, rfl⟩

end PhraseScript.Bracketed
