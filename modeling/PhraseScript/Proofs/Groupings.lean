import PhraseScript.Proofs.Compounds
import PhraseScript.Proofs.Failures
import PhraseScript.Proofs.Indifference

/-!
# Grouping does not matter

A sequence of actions can be said in many ways: with or without an "and" between two actions, and
with several of them taken together as one action behind an ordinal or a word like "then".  The
trees for it are the groupings of the sequence (`Language.Grouping`).  Each does what its actions
do one after another, in the order of the words: it means all their commands, or it fails as the
first action does that fails.  Groupings differ only in what a recording holds afterwards, since
"then" records the actions behind it.

By induction over groupings each of them is compared with the plain list of its actions
(`Language.Grouping.follows`).  The main statement is `Language.evaluate_groupings`, for two
groupings of the same actions.
-/

namespace PhraseScript

namespace Derivation

/-- A sequence behind an adverb, taken together as one action. -/
def adverbial (phrase adverb word : String) (sequence : Derivation) (outer inner leaf : Span) :
    Derivation :=
  .node "AP" [phrase] [.node phrase [adverb, "AL"] [.leaf adverb word leaf, sequence] inner] outer

end Derivation

namespace Language

open PhraseScript.Derivation

variable {sounds : List String} {numbers : NumberWords}

/-- A tree is a grouping of actions: these are its actions in the order of the words, as far as it
is opened.  Groupings of category `AP` are single actions, those of category `AL` sequences. -/
inductive Grouping (sounds : List String) : List Derivation → Derivation → Prop where
  | action {action : Derivation} (h : action.category = "AP") : Grouping sounds [action] action
  /-- "First", and then a sequence. -/
  | ordered {actions : List Derivation} {sequence : Derivation} {word : String}
      {meaning : Meaning} {outer inner leaf : Span} (hsequence : sequence.category = "AL")
      (hword : (Lexicon.standard sounds).lookup "OrderAdverb" word = .ok meaning)
      (h : Grouping sounds actions sequence) :
      Grouping sounds actions
        (adverbial "OrderedCommand" "OrderAdverb" word sequence outer inner leaf)
  /-- "Then", and then a sequence. -/
  | sequential {actions : List Derivation} {sequence : Derivation} {word : String}
      {meaning : Meaning} {outer inner leaf : Span} (hsequence : sequence.category = "AL")
      (hword : (Lexicon.standard sounds).lookup "SequenceAdverb" word = .ok meaning)
      (h : Grouping sounds actions sequence) :
      Grouping sounds actions
        (adverbial "SequentialCommand" "SequenceAdverb" word sequence outer inner leaf)
  | alone {actions : List Derivation} {action : Derivation} {span : Span}
      (haction : action.category = "AP") (h : Grouping sounds actions action) :
      Grouping sounds actions (Derivation.alone action span)
  | prepend {actions others joint : List Derivation} {action rest : Derivation} {span : Span}
      (haction : action.category = "AP") (hjoint : Joint joint) (hrest : rest.category = "AL")
      (h : Grouping sounds actions action) (hothers : Grouping sounds others rest) :
      Grouping sounds (actions ++ others) (Derivation.prepend action joint rest span)

/-! ### Actions one after another -/

/-- Carried out one after another, as far as this goes, none of the actions means a handler. -/
def WithoutHandlers (language : Language) : List Derivation → Session → Prop
  | [], _ => True
  | action :: rest, session => ∀ part after, Gives (language.evaluate action) session part after →
      (∀ body, part ≠ .handler body) ∧ WithoutHandlers language rest after

section

variable {language : Language} {tree : Derivation} {trees more : List Derivation}
  {before between after : Session} {parts : List Meaning} {failure : Failure}

lemma withoutHandlers_append :
    language.WithoutHandlers (trees ++ more) before ↔
      language.WithoutHandlers trees before ∧
        ∀ parts between, Gives (language.evaluateForest trees) before parts between →
          language.WithoutHandlers more between := by
  induction trees generalizing before with
  | nil =>
    constructor
    · refine fun h => ⟨trivial, fun parts between hparts => ?_⟩
      obtain ⟨-, rfl⟩ := gives_pure.mp hparts
      exact h
    · exact fun h => h.2 [] before (gives_pure.mpr ⟨rfl, rfl⟩)
  | cons first trees ih =>
    simp only [List.cons_append, WithoutHandlers, ih]
    constructor
    · refine fun h => ⟨fun part after hpart => ⟨(h part after hpart).1, (h part after hpart).2.1⟩,
        fun parts between hparts => ?_⟩
      obtain ⟨part, start, others, hpart, hothers, -⟩ := gives_forest_cons.mp hparts
      exact (h part start hpart).2.2 others between hothers
    · refine fun h part after hpart => ⟨(h.1 part after hpart).1, (h.1 part after hpart).2, ?_⟩
      exact fun others between hothers =>
        h.2 _ between (gives_forest_cons.mpr ⟨part, after, others, hpart, hothers, rfl⟩)

lemma fails_forest_cons :
    Fails (language.evaluateForest (tree :: trees)) before failure ↔
      Fails (language.evaluate tree) before failure ∨
        ∃ part between, Gives (language.evaluate tree) before part between ∧
          Fails (language.evaluateForest trees) between failure := by
  simp only [evaluateForest, fails_bind, fails_pure, and_false, exists_false, or_false]

lemma fails_forest_append :
    Fails (language.evaluateForest (trees ++ more)) before failure ↔
      Fails (language.evaluateForest trees) before failure ∨
        ∃ parts between, Gives (language.evaluateForest trees) before parts between ∧
          Fails (language.evaluateForest more) between failure := by
  induction trees generalizing before with
  | nil => simp [evaluateForest]
  | cons first trees ih =>
    simp only [List.cons_append, fails_forest_cons, ih, gives_forest_cons]
    constructor
    · rintro (h | ⟨part, start, hpart, h | ⟨others, between, hothers, h⟩⟩)
      · exact .inl (.inl h)
      · exact .inl (.inr ⟨part, start, hpart, h⟩)
      · exact .inr ⟨_, between, ⟨part, start, others, hpart, hothers, rfl⟩, h⟩
    · rintro ((h | ⟨part, start, hpart, h⟩) |
        ⟨-, between, ⟨part, start, others, hpart, hothers, rfl⟩, h⟩)
      · exact .inl h
      · exact .inr ⟨part, start, hpart, .inl h⟩
      · exact .inr ⟨part, start, hpart, .inr ⟨others, between, hothers, h⟩⟩

/-- Trees fail if the first does. -/
lemma fails_forest_of_head (h : Fails (language.evaluate tree) before failure) :
    Fails (language.evaluateForest (tree :: trees)) before failure :=
  fails_forest_cons.mpr (.inl h)

/-- A node that is made like a rule fails if its children do. -/
lemma fails_node_of_forest {lhs : String} {rhs : List String} {span : Span}
    (happlies : language.Applies (.node lhs rhs trees span))
    (h : Fails (language.evaluateForest trees) before failure) :
    Fails (language.evaluate (.node lhs rhs trees span)) before failure := by
  obtain ⟨after, hstops⟩ := fails_iff_exists_stops.mp h
  exact fails_iff_exists_stops.mpr ⟨after, stops_node_iff.mpr (.inr ⟨happlies, hstops⟩)⟩

end

/-! ### Sessions with the same environment -/

section

variable {tree : Derivation} {before before' after : Session} {meaning : Meaning}
  {failure : Failure}

lemma alike_of_environment (h : before.environment = before'.environment) :
    before.Alike before' :=
  ⟨fun _ => by rw [h], fun _ => by rw [h]⟩

/-- A tree means the same from two sessions with the same environment, and leaves the same
environment. -/
lemma exists_gives_of_environment (henv : before.environment = before'.environment)
    (h : Gives ((standard sounds numbers).evaluate tree) before meaning after) :
    ∃ after', Gives ((standard sounds numbers).evaluate tree) before' meaning after' ∧
      after.environment = after'.environment := by
  have hends := inStep_evaluate sounds numbers tree (alike_of_environment henv)
  rw [show ending _ before = _ from h] at hends
  generalize hend : ending ((standard sounds numbers).evaluate tree) before' = endOf at hends
  cases hends with
  | @ok _ meaning' _ after' heq _ =>
    subst heq
    refine ⟨after', hend, ?_⟩
    obtain ⟨effects, herase, hreplay, hstored⟩ := (traced_cases.evaluate tree _ _ _ h).2
    obtain ⟨effects', herase', hreplay', hstored'⟩ := (traced_cases.evaluate tree _ _ _ hend).2
    rw [hreplay, hreplay', henv,
      Effect.eq_of_map_erase (herase.trans herase'.symm) (hstored.trans hstored'.symm)]

lemma fails_of_environment (henv : before.environment = before'.environment)
    (h : Fails ((standard sounds numbers).evaluate tree) before failure) :
    Fails ((standard sounds numbers).evaluate tree) before' failure := by
  have hends := inStep_evaluate sounds numbers tree (alike_of_environment henv)
  obtain ⟨after, hstops⟩ := fails_iff_exists_stops.mp h
  rw [show ending _ before = _ from hstops] at hends
  generalize hend : ending ((standard sounds numbers).evaluate tree) before' = endOf at hends
  cases hends with
  | error => exact congrArg Prod.fst hend

end

/-! ### Groupings -/

/-- From sessions with the same environment a tree does what actions do one after another. -/
structure Follows (sounds : List String) (numbers : NumberWords) (actions : List Derivation)
    (tree : Derivation) (session session' : Session) : Prop where
  gives : ∀ parts after, Gives ((standard sounds numbers).evaluateForest actions) session parts
    after → ∃ part after', Gives ((standard sounds numbers).evaluate tree) session' part after' ∧
      (∀ body, part ≠ .handler body) ∧ part.blocks = parts.flatMap Meaning.blocks ∧
      after.environment = after'.environment
  fails : ∀ failure, Fails ((standard sounds numbers).evaluateForest actions) session failure →
    Fails ((standard sounds numbers).evaluate tree) session' failure

section Follows

variable {actions others joint : List Derivation} {action sequence rest : Derivation}
  {session session' : Session} {word : String} {meaning : Meaning} {outer inner leaf span : Span}

/-- A meaning of a sequence that is no handler is its commands. -/
lemma eq_commands_of_gives (hsequence : sequence.category = "AL") {before after : Session}
    (h : Gives ((standard sounds numbers).evaluate sequence) before meaning after)
    (hhandler : ∀ body, meaning ≠ .handler body) : meaning = .commands meaning.blocks := by
  have hcovers := covers_of_gives h
  rw [hsequence] at hcovers
  cases meaning with
  | commands blocks => rfl
  | handler body => exact absurd rfl (hhandler body)
  | _ => exact hcovers.elim

lemma firstDeferred?_of_sequence (hsequence : sequence.category = "AL") {before after : Session}
    (h : Gives ((standard sounds numbers).evaluate sequence) before meaning after) :
    meaning.firstDeferred? = none := by
  have hadmits := (ensures_evaluate (fun _ _ _ => trivial) (fun _ _ => trivial) sequence).result h
  rw [hsequence] at hadmits
  exact Construction.firstDeferred?_eq_none_of_script hadmits

lemma follows_action (henv : session.environment = session'.environment)
    (hhandlers : (standard sounds numbers).WithoutHandlers [action] session) :
    Follows sounds numbers [action] action session session' where
  gives parts after hparts := by
    obtain ⟨part, between, others, hpart, hothers, rfl⟩ := gives_forest_cons.mp hparts
    obtain ⟨rfl, rfl⟩ := gives_pure.mp hothers
    obtain ⟨after', hpart', henv'⟩ := exists_gives_of_environment henv hpart
    exact ⟨part, after', hpart', (hhandlers part _ hpart).1, by simp, henv'⟩
  fails failure hfails := by
    rcases fails_forest_cons.mp hfails with h | ⟨part, between, -, h⟩
    · exact fails_of_environment henv h
    · exact absurd h fails_pure

/-- A sequence behind an adverb means what the sequence does, if its rule keeps this meaning and
the environment. -/
lemma follows_adverbial {phrase adverb : String} {construction : Construction}
    (hphrase : phrase ∈ Grammar.actionPhrases)
    (hrule : (⟨phrase, [adverb, "AL"]⟩, construction) ∈ Grammar.standard)
    (hbuild : ∀ part between between',
      Gives ((standard sounds numbers).evaluate sequence) between part between' →
      (∀ body, part ≠ .handler body) → ∃ after, after.environment = between'.environment ∧
        Gives (construction.build ⟨⟨phrase, [adverb, "AL"]⟩, [meaning, part], numbers⟩) between'
          part after)
    (hsequence : sequence.category = "AL")
    (hword : (Lexicon.standard sounds).lookup adverb word = .ok meaning)
    (h : Follows sounds numbers actions sequence session session') :
    Follows sounds numbers actions (adverbial phrase adverb word sequence outer inner leaf)
      session session' := by
  have haction : (⟨"AP", [phrase]⟩, .pass 0) ∈ Grammar.standard := by
    have hmem : (⟨"AP", [phrase]⟩, .pass 0) ∈ Grammar.structureRules := by
      simp [Grammar.structureRules, Grammar.rule, hphrase]
    simp [Grammar.standard, hmem]
  have hcategories : [.leaf adverb word leaf, sequence].map category = [adverb, "AL"] := by
    rw [List.map_cons, List.map_singleton, hsequence, category]
  have hleaf : Gives ((standard sounds numbers).evaluate (.leaf adverb word leaf)) session' meaning
      session' :=
    gives_leaf_iff.mpr ⟨hword, rfl⟩
  constructor
  · intro parts after hparts
    obtain ⟨part, between, hpart, hhandler, hblocks, henv⟩ := h.gives parts after hparts
    obtain ⟨after', henv', hbuild⟩ := hbuild part _ between hpart hhandler
    refine ⟨part, after', ?_, hhandler, hblocks, henv.trans henv'.symm⟩
    exact (gives_pass_iff haction rfl).mpr ((gives_rule_iff hrule hcategories).mpr
      ⟨[meaning, part], between, .cons hleaf (.cons hpart .nil), hbuild⟩)
  · intro failure hfails
    refine fails_node_of_forest (applies_of_mem_standard haction rfl)
      (fails_forest_of_head ?_)
    refine fails_node_of_forest (applies_of_mem_standard hrule hcategories)
      (fails_forest_cons.mpr (.inr ⟨meaning, session', hleaf, ?_⟩))
    exact fails_forest_of_head (h.fails failure hfails)

/-- Behind an ordinal a sequence means the same. -/
lemma follows_ordered (hsequence : sequence.category = "AL")
    (hword : (Lexicon.standard sounds).lookup "OrderAdverb" word = .ok meaning)
    (h : Follows sounds numbers actions sequence session session') :
    Follows sounds numbers actions
      (adverbial "OrderedCommand" "OrderAdverb" word sequence outer inner leaf) session
      session' := by
  have hrule : Grammar.rule "OrderedCommand" ["OrderAdverb", "AL"] (.pass 1) ∈
      Grammar.standard := by
    simp [Grammar.standard, Grammar.structureRules]
  refine follows_adverbial (by decide) hrule ?_ hsequence hword h
  exact fun part _ between' _ _ => ⟨between', rfl, gives_lift.mpr ⟨rfl, rfl⟩⟩

/-- Behind a word like "then" a sequence means the same, and is recorded if there is a
recording. -/
lemma follows_sequential (hsequence : sequence.category = "AL")
    (hword : (Lexicon.standard sounds).lookup "SequenceAdverb" word = .ok meaning)
    (h : Follows sounds numbers actions sequence session session') :
    Follows sounds numbers actions
      (adverbial "SequentialCommand" "SequenceAdverb" word sequence outer inner leaf) session
      session' := by
  have hrule : Grammar.rule "SequentialCommand" ["SequenceAdverb", "AL"] .recordSequence ∈
      Grammar.standard := by
    simp [Grammar.standard, Grammar.structureRules]
  refine follows_adverbial (by decide) hrule ?_ hsequence hword h
  intro part between between' hpart hhandler
  have hbody : Call.scriptBody
      ⟨⟨"SequentialCommand", ["SequenceAdverb", "AL"]⟩, [meaning, part], numbers⟩ 1 = .ok part := by
    rw [eq_commands_of_gives hsequence hpart hhandler]
    rfl
  refine ⟨between'.record part.wire, rfl, ?_⟩
  rw [Gives, Construction.ending_recordSequence, hbody]
  intro actions hactions
  rw [← Except.ok.inj (hbody.symm.trans hactions)]
  exact firstDeferred?_of_sequence hsequence hpart

lemma follows_alone (haction : action.category = "AP")
    (h : Follows sounds numbers actions action session session') :
    Follows sounds numbers actions (alone action span) session session' where
  gives parts after hparts := by
    obtain ⟨part, after', hpart, hhandler, hblocks, henv⟩ := h.gives parts after hparts
    refine ⟨part.asScript, after', (gives_alone_iff haction).mpr ⟨part, hpart, rfl⟩, ?_,
      part.blocks_asScript.trans hblocks, henv⟩
    intro body hbody
    cases part with
    | handler blocks => exact hhandler blocks rfl
    | _ => cases hbody
  fails failure hfails :=
    fails_node_of_forest
      (applies_of_mem_standard (mem_standard_of_sequence (_, .singleAction)
        (by simp [Grammar.rule])) (by simp [haction]))
      (fails_forest_of_head (h.fails failure hfails))

lemma follows_prepend (haction : action.category = "AP") (hjoint : Joint joint)
    (hrest : rest.category = "AL") (h : Follows sounds numbers actions action session session')
    (hothers : ∀ parts between between',
      Gives ((standard sounds numbers).evaluateForest actions) session parts between →
      between.environment = between'.environment →
        Follows sounds numbers others rest between between') :
    Follows sounds numbers (actions ++ others) (prepend action joint rest span) session
      session' where
  gives parts after hparts := by
    obtain ⟨first, between, second, hfirst, hsecond, rfl⟩ := gives_forest_append.mp hparts
    obtain ⟨part, start, hpart, hhandler, hblocks, henv⟩ := h.gives first between hfirst
    obtain ⟨other, after', hother, hhandler', hblocks', henv'⟩ :=
      (hothers first between start hfirst henv).gives second after hsecond
    refine ⟨_, after', (gives_prepend_iff haction hrest hjoint).mpr
      ⟨part, start, other, hpart, hother, hhandler, hhandler', rfl⟩, by simp, ?_, henv'⟩
    rw [List.flatMap_append, ← hblocks, ← hblocks']
    rfl
  fails failure hfails := by
    refine fails_node_of_forest
      (applies_of_mem_standard (mem_standard_of_joint hjoint) (by simp [haction, hrest])) ?_
    rcases fails_forest_append.mp hfails with hfails | ⟨first, between, hfirst, hfails⟩
    · exact fails_forest_of_head (h.fails failure hfails)
    · obtain ⟨part, start, hpart, -, -, henv⟩ := h.gives first between hfirst
      have hrest := (hothers first between start hfirst henv).fails failure hfails
      have hnothing : Threads (fun tree => Gives ((standard sounds numbers).evaluate tree))
          (joint ++ []) start (List.replicate joint.length .null ++ []) start :=
        (threads_joint_iff hjoint).mpr ⟨[], rfl, .nil⟩
      rw [List.append_nil] at hnothing
      refine fails_forest_cons.mpr (.inr ⟨part, start, hpart, ?_⟩)
      exact fails_forest_append.mpr
        (.inr ⟨_, start, gives_forest_iff.mpr hnothing, fails_forest_of_head hrest⟩)

end Follows

/-- A grouping does what its actions do one after another. -/
theorem Grouping.follows {actions : List Derivation} {tree : Derivation}
    (h : Grouping sounds actions tree) {session session' : Session}
    (henv : session.environment = session'.environment)
    (hhandlers : (standard sounds numbers).WithoutHandlers actions session) :
    Follows sounds numbers actions tree session session' := by
  induction h generalizing session session' with
  | action h => exact follows_action henv hhandlers
  | ordered hsequence hword _ ih => exact follows_ordered hsequence hword (ih henv hhandlers)
  | sequential hsequence hword _ ih => exact follows_sequential hsequence hword (ih henv hhandlers)
  | alone haction _ ih => exact follows_alone haction (ih henv hhandlers)
  | prepend haction hjoint hrest _ _ ih ihothers =>
    obtain ⟨hactions, hothers⟩ := withoutHandlers_append.mp hhandlers
    exact follows_prepend haction hjoint hrest (ih henv hactions)
      fun parts between between' hparts henv' => ihothers henv' (hothers parts between hparts)

/-- Two evaluations have ended as actions do one after another: with all their commands and the
environment after them, or with the failure of the first action that fails, as it is after the
actions before it. -/
inductive EndAsActions (language : Language) (actions : List Derivation) (session : Session) :
    Except Failure Meaning × Session → Except Failure Meaning × Session → Prop where
  | ok {parts : List Meaning} {between after after' : Session}
      (h : Gives (language.evaluateForest actions) session parts between)
      (environment : after.environment = between.environment)
      (environment' : after'.environment = between.environment) :
      EndAsActions language actions session (.ok (.commands (parts.flatMap Meaning.blocks)), after)
        (.ok (.commands (parts.flatMap Meaning.blocks)), after')
  | error {position : Nat} {action : Derivation} {parts : List Meaning}
      {between after after' : Session} {failure : Failure}
      (haction : actions[position]? = some action)
      (h : Gives (language.evaluateForest (actions.take position)) session parts between)
      (hfails : Fails (language.evaluate action) between failure) :
      EndAsActions language actions session (.error failure, after) (.error failure, after')

lemma Follows.eq_commands {actions : List Derivation} {tree : Derivation} {session : Session}
    (h : Follows sounds numbers actions tree session session) (htree : tree.category = "AL")
    {parts : List Meaning} {between : Session}
    (hparts : Gives ((standard sounds numbers).evaluateForest actions) session parts between) :
    ∃ after, ending ((standard sounds numbers).evaluate tree) session =
        (.ok (.commands (parts.flatMap Meaning.blocks)), after) ∧
      after.environment = between.environment := by
  obtain ⟨part, after, hpart, hhandler, hblocks, henv⟩ := h.gives parts between hparts
  have hmeaning := eq_commands_of_gives htree hpart hhandler
  rw [hblocks] at hmeaning
  exact ⟨after, hmeaning ▸ hpart, henv.symm⟩

/-- How a sequence of actions is grouped does not matter.  If none of the actions means a handler,
two groupings of them end alike from the same session: both mean the commands of the actions, one
after another, and leave the same environment, or both fail with the failure of the same action. -/
theorem evaluate_groupings {actions : List Derivation} {tree tree' : Derivation}
    (h : Grouping sounds actions tree) (h' : Grouping sounds actions tree')
    (htree : tree.category = "AL") (htree' : tree'.category = "AL") (session : Session)
    (hhandlers : (standard sounds numbers).WithoutHandlers actions session) :
    EndAsActions (standard sounds numbers) actions session
      (ending ((standard sounds numbers).evaluate tree) session)
      (ending ((standard sounds numbers).evaluate tree') session) := by
  have hfollows : Follows sounds numbers actions tree session session := h.follows rfl hhandlers
  have hfollows' : Follows sounds numbers actions tree' session session :=
    h'.follows rfl hhandlers
  rcases hends : ending ((standard sounds numbers).evaluateForest actions) session with
    ⟨failure | parts, between⟩
  · obtain ⟨after, hstops⟩ := fails_iff_exists_stops.mp
      (hfollows.fails failure (congrArg Prod.fst hends))
    obtain ⟨after', hstops'⟩ := fails_iff_exists_stops.mp
      (hfollows'.fails failure (congrArg Prod.fst hends))
    obtain ⟨position, action, parts, start, haction, hparts, hfails⟩ := stops_forest_iff.mp hends
    rw [show ending _ session = _ from hstops, show ending _ session = _ from hstops']
    exact .error haction hparts (fails_iff_exists_stops.mpr ⟨_, hfails⟩)
  · obtain ⟨after, hend, henv⟩ := hfollows.eq_commands htree hends
    obtain ⟨after', hend', henv'⟩ := hfollows'.eq_commands htree' hends
    rw [hend, hend']
    exact .ok hends henv henv'

/-- "Make x and set x to negative x", and "first, make x, then set x to negative x" as one
action. -/
theorem evaluate_groupings_of_making :
    let actions := [apply "AP" [making], apply "AP" [setting 1]]
    let tree := prepend (apply "AP" [making]) [word "And" "and"]
      (alone (apply "AP" [setting 1]) .unset) .unset
    let tree' := alone (adverbial "OrderedCommand" "OrderAdverb" "first"
      (prepend (apply "AP" [making]) []
        (alone (adverbial "SequentialCommand" "SequenceAdverb" "then"
          (alone (apply "AP" [setting 1]) .unset) .unset .unset .unset) .unset) .unset)
      .unset .unset .unset) .unset
    Grouping [] actions tree ∧ Grouping [] actions tree' ∧
      (standard [] .numerals).WithoutHandlers actions {} ∧
      EndAsActions (standard [] .numerals) actions {}
        (ending ((standard [] .numerals).evaluate tree) {})
        (ending ((standard [] .numerals).evaluate tree') {}) := by
  intro actions tree tree'
  have hfirst : (Lexicon.standard []).lookup "OrderAdverb" "first" = .ok (.number (.ofInt 1)) := by
    rw [Lexicon.lookup, Lexicon.producer?_standard]
    rfl
  have hthen : ("SequenceAdverb", ["then", "after", "finally"]) ∈ Lexicon.keywords := by
    decide +kernel
  have hmaking : Grouping [] [apply "AP" [making]] (apply "AP" [making]) := .action rfl
  have hsetting : Grouping [] [apply "AP" [setting 1]]
      (alone (apply "AP" [setting 1]) .unset) := .alone rfl (.action rfl)
  have htree : Grouping [] actions tree :=
    .prepend rfl (.and (by decide +kernel)) rfl hmaking hsetting
  have htree' : Grouping [] actions tree' :=
    .alone rfl (.ordered rfl hfirst (.prepend rfl .nothing rfl hmaking
      (.alone rfl (.sequential rfl (Lexicon.lookup_keyword hthen (by simp)) hsetting))))
  have hhandlers : (standard [] .numerals).WithoutHandlers actions {} := by
    refine fun part after hpart => ?_
    obtain ⟨rfl, rfl⟩ := hpart.unique ((gives_action_iff (by decide)).mpr gives_making)
    refine ⟨by simp, fun part after hpart => ?_⟩
    obtain ⟨rfl, -⟩ := hpart.unique ((gives_action_iff (by decide)).mpr (gives_setting 1))
    exact ⟨by simp, trivial⟩
  exact ⟨htree, htree', hhandlers, evaluate_groupings htree htree' rfl rfl {} hhandlers⟩

end Language

end PhraseScript
