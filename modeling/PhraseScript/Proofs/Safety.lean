import PhraseScript.Proofs.Shapes
import PhraseScript.Proofs.Standard

/-!
# Safety of the categories

Whatever tree is evaluated in the standard language, in whatever session: a meaning has the sense
of the category of the tree, and a failure lies at a node of the tree where its fault can arise
(`Language.Foreseen`).  A child of the wrong kind is never the cause, apart from the three
cases of `Call.Misfit`.

The invariant of the induction is `Sense.Admits`.  It says more than `Sense.Covers`, so that the
evaluation of a tree can also be used for what is inside a meaning: all blocks of a translated
script are well-formed, and the script can be written (`Language.isBlock_of_translate`).
-/

namespace PhraseScript

namespace Derivation

mutual

/-- A tree and all trees inside it. -/
def subtrees : Derivation → List Derivation
  | .leaf category word span => [.leaf category word span]
  | .node lhs rhs children span => .node lhs rhs children span :: forestSubtrees children

/-- The trees of a forest and all trees inside them. -/
def forestSubtrees : List Derivation → List Derivation
  | [] => []
  | tree :: rest => subtrees tree ++ forestSubtrees rest

end

lemma mem_subtrees_self (tree : Derivation) : tree ∈ tree.subtrees := by
  cases tree <;> simp [subtrees]

lemma forestSubtrees_eq (trees : List Derivation) :
    forestSubtrees trees = trees.flatMap subtrees := by
  induction trees with
  | nil => rfl
  | cons tree rest ih => rw [forestSubtrees, ih, List.flatMap_cons]

/-- What is inside a child is inside the node. -/
lemma subtrees_subset_of_mem {lhs : String} {rhs : List String} {children : List Derivation}
    {span : Span} {child : Derivation} (h : child ∈ children) :
    child.subtrees ⊆ (node lhs rhs children span).subtrees := by
  rw [subtrees, forestSubtrees_eq]
  exact fun tree htree => List.mem_cons_of_mem _ (List.mem_flatMap.mpr ⟨child, h, htree⟩)

/-- The place of a tree in a failure. -/
def place (tree : Derivation) : Place := ⟨tree.category, tree.span⟩

end Derivation

namespace Language

/-- The faults that can arise at a node of a tree.

A word can be unknown, or no ordinal.  An inner node can be misshapen, or it has no rule, or its
rule has a fault which it can have although all children have the senses that it expects; these
children are what the trees below the node mean. -/
inductive Foreseen (language : Language) : Derivation → Fault → Prop where
  | word {category word : String} {span : Span} {fault : Fault}
      (h : Lexicon.WordFault category word fault) :
      Foreseen language (.leaf category word span) fault
  | misshapen {lhs : String} {rhs : List String} {children : List Derivation} {span : Span}
      {fault : Fault} (h : shapeFault? ⟨lhs, rhs⟩ children = some fault) :
      Foreseen language (.node lhs rhs children span) fault
  | unknownRule {lhs : String} {rhs : List String} {children : List Derivation} {span : Span}
      (h : language.rules.lookup? ⟨lhs, rhs⟩ = none) :
      Foreseen language (.node lhs rhs children span) (.unknownRule (RuleKey.text ⟨lhs, rhs⟩))
  | tolerated {lhs : String} {rhs : List String} {children : List Derivation} {span : Span}
      {before between : Session} {parts : List Meaning} {fault : Fault}
      (hparts : Gives (evaluateForest language children) before parts between)
      (h : Call.Tolerates ⟨⟨lhs, rhs⟩, parts, language.numbers⟩ fault) :
      Foreseen language (.node lhs rhs children span) fault

/-- What is found in a role that it does not fit is a handler, or a number that is not the right
one. -/
lemma Foreseen.expected_found_of_typeMismatch {language : Language} {tree : Derivation}
    {rule : String} {position : Nat} {expected found : String}
    (h : language.Foreseen tree (.typeMismatch rule position expected found)) :
    (expected, found) ∈
      [("action", "event handler"), ("whole count", "number"), ("1-based index", "number")] := by
  cases h with
  | word hword => rcases hword with hword | ⟨-, hword⟩ <;> cases hword
  | misshapen hshape => cases shapeFault?_eq_some_iff.mp hshape
  | tolerated hparts htolerated =>
    cases htolerated with
    | misfit hmisfit => cases hmisfit <;> decide

/-- A failure lies at one of some trees, with a fault that can arise there. -/
def FailsAmong (language : Language) (trees : List Derivation) (failure : Failure) : Prop :=
  ∃ tree ∈ trees, failure.place = some tree.place ∧ language.Foreseen tree failure.fault

section

variable {language : Language} {trees others : List Derivation} {failure : Failure}

lemma FailsAmong.mono (h : language.FailsAmong trees failure) (hsub : trees ⊆ others) :
    language.FailsAmong others failure := by
  obtain ⟨tree, htree, hplace, hfault⟩ := h
  exact ⟨tree, hsub htree, hplace, hfault⟩

/-- The faults of what is located at a node are failures at this node. -/
lemma ensures_located {α : Type} (tree : Derivation) {attempt : Attempt α} {good : α → Prop}
    (h : Ensures attempt good (language.Foreseen tree)) :
    Ensures (located tree.category tree.span attempt) good
      (language.FailsAmong tree.subtrees) where
  result he := h.result (gives_located.mp he)
  fault he := by
    obtain ⟨fault, hfault, rfl⟩ := fails_located.mp he
    exact ⟨tree, tree.mem_subtrees_self, rfl, h.fault hfault⟩

end

section

variable {admissible : Double → Prop} {sounds : List String} {numbers : NumberWords}

/-- The action of a node is found when the node is made like a rule of the standard grammar. -/
lemma yields_action (lhs : String) (rhs : List String) (children : List Derivation)
    (span : Span) :
    Yields ((standard sounds numbers).action ⟨lhs, rhs⟩ children)
      (fun action => children.map Derivation.category = rhs ∧
        ∃ construction, (⟨lhs, rhs⟩, construction) ∈ Grammar.standard ∧
          action = construction.build)
      ((standard sounds numbers).Foreseen (.node lhs rhs children span)) := by
  rw [action]
  split
  · next fault hshape => exact .error (.misshapen hshape)
  · next hshape =>
    split
    · next action haction =>
      exact .ok ⟨shapeFault?_eq_none_iff.mp hshape,
        Grammar.exists_of_lookup?_standardTable haction⟩
    · next haction => exact .error (.unknownRule haction)

mutual

/-- What a tree means has the sense of its category, and a failure lies at a node of the tree
where it can arise. -/
theorem ensures_evaluate (hnumbers : numbers.Only admissible)
    (hfinite : ∀ x : Double, x.IsFinite → admissible x) : (tree : Derivation) →
    Ensures ((standard sounds numbers).evaluate tree)
      ((Sense.ofCategory tree.category).Admits admissible)
      ((standard sounds numbers).FailsAmong tree.subtrees)
  | .leaf category word span => by
    have hword := Lexicon.yields_lookup_standard sounds category word
    exact ensures_located (.leaf category word span)
      (.lift ⟨fun he => (hword.result he).admits hfinite, fun he => .word (hword.fault he)⟩)
  | .node lhs rhs children span => by
    have haction : Yields ((standard sounds numbers).action ⟨lhs, rhs⟩ children) _ _ :=
      yields_action lhs rhs children span
    refine .bind (ensures_located (.node lhs rhs children span) (.lift haction)) ?_
    -- from here on the node is made like a rule of the standard grammar
    rintro action ⟨hcategories, construction, hrule, rfl⟩
    have hchildren := (ensures_evaluateForest hnumbers hfinite children).weaken
      fun failure h => h.mono (List.subset_cons_self (Derivation.node lhs rhs children span) _)
    refine .bind hchildren.given ?_
    -- that the children mean `parts` is kept, since a fault of the call is about these
    rintro parts ⟨hparts, before, between, hgiven⟩
    rw [hcategories] at hparts
    let call : Call := ⟨⟨lhs, rhs⟩, parts, numbers⟩
    have hbuild : Ensures (construction.build call) _ call.Tolerates :=
      Grammar.Rule.ensures_build hnumbers hfinite
        (Grammar.standard_fitsSenses hrule) hparts
    exact ensures_located (.node lhs rhs children span)
      (hbuild.weaken fun fault h => .tolerated hgiven h)

/-- What some trees mean has the senses of their categories, one by one. -/
theorem ensures_evaluateForest (hnumbers : numbers.Only admissible)
    (hfinite : ∀ x : Double, x.IsFinite → admissible x) : (trees : List Derivation) →
    Ensures ((standard sounds numbers).evaluateForest trees)
      (Sense.AdmitsAll admissible (trees.map Derivation.category))
      ((standard sounds numbers).FailsAmong (Derivation.forestSubtrees trees))
  | [] => .pure .nil
  | tree :: rest => by
    have htree := (ensures_evaluate hnumbers hfinite tree).weaken
      fun failure h => h.mono (List.subset_append_left _ (Derivation.forestSubtrees rest))
    have hrest := (ensures_evaluateForest hnumbers hfinite rest).weaken
      fun failure h => h.mono (List.subset_append_right tree.subtrees _)
    refine .bind htree fun part hpart => ?_
    exact .bind hrest fun parts hparts => .pure (.cons hpart hparts)

end

/-- Category safety: a meaning has the sense of the category of its tree, and a failure lies at
a node of the tree where its fault can arise.  In particular there are three roles only in
which a child of the wrong kind is found: an action that is a handler, and a number that is no
number of times or no place in a list. -/
theorem interpret_standard_safe (sounds : List String) (numbers : NumberWords)
    (tree : Derivation) (session : Session) :
    match (standard sounds numbers).interpret tree session with
    | .ok (meaning, _) => (Sense.ofCategory tree.category).Covers meaning
    | .error failure =>
      (standard sounds numbers).FailsAmong tree.subtrees failure ∧
        ∀ rule position expected found,
          failure.fault = .typeMismatch rule position expected found →
            (expected, found) ∈
              [("action", "event handler"), ("whole count", "number"),
                ("1-based index", "number")] := by
  have hsafe : Ensures ((standard sounds numbers).evaluate tree)
      ((Sense.ofCategory tree.category).Admits fun _ => True)
      ((standard sounds numbers).FailsAmong tree.subtrees) :=
    ensures_evaluate (fun _ _ _ => trivial) (fun _ _ => trivial) tree
  split
  · next meaning after hmeaning =>
    exact (hsafe.result (interpret_eq_ok_iff.mp hmeaning)).covers
  · next failure hfailure =>
    have hamong := hsafe.fault (interpret_eq_error_iff.mp hfailure)
    refine ⟨hamong, fun rule position expected found hmismatch => ?_⟩
    obtain ⟨node, -, -, hforeseen⟩ := hamong
    exact (hmismatch ▸ hforeseen).expected_found_of_typeMismatch

/-! ### Induction over evaluations -/

/-- What has to be shown of successful evaluations: `P` of words and of nodes, where it may be
assumed that the children have `Q` and that everything has the sense of its category, and `Q` of
forests, tree by tree. -/
structure EvaluationCases (sounds : List String) (numbers : NumberWords)
    (P : Derivation → Session → Meaning → Session → Prop)
    (Q : List Derivation → Session → List Meaning → Session → Prop) : Prop where
  leaf : ∀ {category word span session meaning},
    Lexicon.Means category (Text.toLower word) meaning →
      P (.leaf category word span) session meaning session
  node : ∀ {rule : Grammar.Rule} {children span parts before between meaning after},
    rule ∈ Grammar.standard → children.map Derivation.category = rule.1.rhs →
    Sense.CoversAll rule.1.rhs parts → (Sense.ofCategory rule.1.lhs).Covers meaning →
    Q children before parts between →
    Gives (rule.2.build ⟨rule.1, parts, numbers⟩) between meaning after →
      P (.node rule.1.lhs rule.1.rhs children span) before meaning after
  nil : ∀ {session}, Q [] session [] session
  cons : ∀ {tree rest before part between parts after},
    P tree before part between → Q rest between parts after →
      Q (tree :: rest) before (part :: parts) after

section

variable {P : Derivation → Session → Meaning → Session → Prop}
  {Q : List Derivation → Session → List Meaning → Session → Prop}

lemma covers_of_gives {tree : Derivation} {before after : Session} {meaning : Meaning}
    (h : Gives ((standard sounds numbers).evaluate tree) before meaning after) :
    (Sense.ofCategory tree.category).Covers meaning :=
  ((ensures_evaluate (fun _ _ _ => trivial) (fun _ _ => trivial) tree).result h).covers

lemma covers_of_givesForest {trees : List Derivation} {before after : Session}
    {parts : List Meaning}
    (h : Gives ((standard sounds numbers).evaluateForest trees) before parts after) :
    Sense.CoversAll (trees.map Derivation.category) parts :=
  ((ensures_evaluateForest (fun _ _ _ => trivial) (fun _ _ => trivial) trees).result h).imp
    fun _ _ hadmits => hadmits.covers

mutual

/-- Induction over the evaluation of a tree. -/
theorem EvaluationCases.evaluate (h : EvaluationCases sounds numbers P Q) :
    (tree : Derivation) → ∀ before meaning after,
      Gives ((standard sounds numbers).evaluate tree) before meaning after →
        P tree before meaning after
  | .leaf category word span => by
    intro before meaning after hgives
    rw [Language.evaluate, gives_located, gives_lift] at hgives
    obtain ⟨hlookup, rfl⟩ := hgives
    exact h.leaf ((Lexicon.yields_lookup_standard sounds category word).result hlookup)
  | .node lhs rhs children span => by
    intro before meaning after hgives
    have hcovers := covers_of_gives hgives
    -- `simp only` rather than `gives_bind.mp`: unifying with `hgives` would run the evaluation
    simp only [Language.evaluate, gives_bind, gives_located, gives_lift] at hgives
    obtain ⟨action, start, ⟨haction, rfl⟩, parts, between, hparts, hbuild⟩ := hgives
    obtain ⟨hcategories, construction, hrule, rfl⟩ :=
      (yields_action lhs rhs children span).result haction
    have hsenses := covers_of_givesForest hparts
    rw [hcategories] at hsenses
    exact h.node hrule hcategories hsenses hcovers (h.evaluateForest children _ _ _ hparts) hbuild

/-- Induction over the evaluation of a forest. -/
theorem EvaluationCases.evaluateForest (h : EvaluationCases sounds numbers P Q) :
    (trees : List Derivation) → ∀ before parts after,
      Gives ((standard sounds numbers).evaluateForest trees) before parts after →
        Q trees before parts after
  | [] => by
    intro before parts after hgives
    rw [Language.evaluateForest, gives_pure] at hgives
    obtain ⟨rfl, rfl⟩ := hgives
    exact h.nil
  | tree :: rest => by
    intro before parts after hgives
    obtain ⟨part, between, others, hpart, hothers, rfl⟩ := gives_forest_cons.mp hgives
    exact h.cons (h.evaluate tree _ _ _ hpart) (h.evaluateForest rest _ _ _ hothers)

end

end

/-! ### Translated scripts -/

/-- The commands of a meaning of any sense are well-formed. -/
lemma allCommands_of_commandsOf {sense : Sense} {meaning : Meaning} {blocks : List Block}
    (h : sense.Admits admissible meaning) (hblocks : Script.commandsOf meaning = .ok blocks) :
    Sense.AllCommands admissible blocks := by
  -- commands are of a kind that few senses cover, and these admit well-formed blocks only
  have hcovers := h.covers
  cases meaning with
  | null =>
    obtain rfl := Except.ok.inj hblocks
    simp [Sense.AllCommands]
  | command block =>
    obtain rfl := Except.ok.inj hblocks
    have hblock : IsBlock admissible .command block := by
      cases sense <;> first | exact h | exact hcovers.elim
    simpa [Sense.AllCommands] using hblock
  | commands blocks | handler blocks =>
    obtain rfl := Except.ok.inj hblocks
    cases sense <;> first | exact h | exact hcovers.elim
  | _ => cases hblocks

end

/-- Every script that a resolver of finite numbers leads to is a well-formed block program,
down to the last operand, and has a form in scripts. -/
theorem isBlock_of_translate_standard {sounds : List String} {numbers : NumberWords}
    {tree : Derivation} {session : Session} {outcome : Outcome}
    (hnumbers : numbers.Only Double.IsFinite)
    (h : (standard sounds numbers).translate tree session = .ok outcome) :
    (∀ block ∈ outcome.script.commands, IsBlock Double.IsFinite .command block) ∧
      (Meaning.commands outcome.script.commands).toWire =
        .ok (.array (Meaning.blocksWire outcome.script.commands)) ∧
      ∃ text, outcome.script.write = .ok text := by
  obtain ⟨meaning, hmeaning, hcommands, -⟩ := translate_eq_ok_iff.mp h
  have hadmits := (ensures_evaluate hnumbers (fun _ hx => hx) tree).result hmeaning
  have hblocks := allCommands_of_commandsOf hadmits hcommands
  have hdeferred : (Meaning.commands outcome.script.commands).firstDeferred? = none :=
    (Fits.body hblocks).firstDeferred?_eq_none
  refine ⟨hblocks, Meaning.toWire_eq_ok hdeferred, ?_⟩
  rw [Script.write, Meaning.write_eq_ok hdeferred]
  exact ⟨_, rfl⟩

/-- The resolver that reads numerals gives finite numbers only. -/
lemma numerals_only_isFinite : NumberWords.numerals.Only Double.IsFinite :=
  fun _ _ h => Lexicon.isFinite_of_numeral? h

open PhraseScript.Derivation in
/-- "Make a variable x and set x to 5 and repeat multiply x by 2 3 times." -/
def countingSentence : Derivation :=
  let numeral (text : String) := apply "NP" [word "Unk" text]
  let x := word "VARIABLE_NAME" "x"
  let make := apply "CreateCommand" [word "Make" "make", apply "VARIABLE_LIST"
    [apply "VARIABLE_NAME" [apply "Variable" [word "Det" "a", word "Variable" "variable"], x]]]
  let set := apply "DataCommand" [word "Set" "set", x, word "To" "to", numeral "5"]
  let double := apply "DataCommand" [word "Multiply" "multiply", x, word "By" "by", numeral "2"]
  let repetition := apply "ControlCommand" [word "Repeat" "repeat",
    apply "AL" [apply "AP" [double]], word "Unk" "3", word "Times" "times"]
  let and := word "And" "and"
  apply "S" [apply "AL" [apply "AP" [make], and, apply "AL" [apply "AP" [set], and,
    apply "AL" [apply "AP" [repetition]]]]]

lemma exists_translate_countingSentence :
    ∃ outcome, (standard [] .numerals).translate countingSentence {} = .ok outcome := by
  have h : ((standard [] .numerals).translate countingSentence {}).toBool = true := by
    rw [translate, interpret, evaluate_standard]
    decide +kernel
  cases houtcome : (standard [] .numerals).translate countingSentence {} with
  | error failure =>
    rw [houtcome] at h
    cases h
  | ok outcome => exact ⟨outcome, rfl⟩

theorem isBlock_of_translate_countingSentence :
    ∃ outcome, (standard [] .numerals).translate countingSentence {} = .ok outcome ∧
      (∀ block ∈ outcome.script.commands, IsBlock Double.IsFinite .command block) ∧
      ∃ text, outcome.script.write = .ok text := by
  obtain ⟨outcome, h⟩ := exists_translate_countingSentence
  obtain ⟨hblocks, -, htext⟩ := isBlock_of_translate_standard numerals_only_isFinite h
  exact ⟨outcome, h, hblocks, htext⟩

end Language

end PhraseScript
