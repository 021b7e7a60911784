import PhraseScript.Proofs.DeepSessions

/-!
# Compound sentences

A sentence that puts an action before others, with or without an "and" between them, does what the
two do one after the other: the action as a sentence of its own, and then the other actions as a
sentence in the session that the first one leaves.  The script is the commands of the first with
those of the second, and the session is that of the second (`Outcome.followedBy`).

The only thing that a compound adds is a way to fail, since a handler stands alone.  All this is
`Language.translate_prepend_iff`.
-/

namespace PhraseScript

/-! ### Sentences of actions -/

namespace Derivation

/-- Actions as a whole sentence. -/
def asSentence (actions : Derivation) (outer inner : Span) : Derivation :=
  .node "Start" ["S"] [.node "S" ["AL"] [actions] inner] outer

/-- An action by itself, as a sequence. -/
def alone (action : Derivation) (span : Span) : Derivation := .node "AL" ["AP"] [action] span

/-- An action before others, with something between them. -/
def prepend (action : Derivation) (joint : List Derivation) (rest : Derivation) (span : Span) :
    Derivation :=
  .node "AL" ("AP" :: (joint.map category ++ ["AL"])) (action :: (joint ++ [rest])) span

/-- What can stand between an action and others: nothing, or an "and". -/
inductive Joint : List Derivation → Prop where
  | nothing : Joint []
  | and {word : String} {span : Span} (h : Text.toLower word = "and") :
      Joint [.leaf "And" word span]

end Derivation

/-- The outcome of a sentence that is followed by another one in its session. -/
def Outcome.followedBy (first second : Outcome) : Outcome where
  script := { second.script with commands := first.script.commands ++ second.script.commands }
  session := second.session

lemma Outcome.eq_followedBy_iff {outcome first second : Outcome} :
    outcome = first.followedBy second ↔
      outcome.script.commands = first.script.commands ++ second.script.commands ∧
        outcome.script.environment = second.script.environment ∧
        outcome.session = second.session := by
  obtain ⟨⟨commands, vars, lists⟩, session⟩ := outcome
  simp [followedBy, Script.environment, and_assoc]

/-! ### Actions of a sequence -/

/-- An action as a script of its own. -/
def Meaning.asScript : Meaning → Meaning
  | .handler blocks => .handler blocks
  | meaning => .commands meaning.blocks

@[simp] lemma Meaning.blocks_asScript (meaning : Meaning) :
    meaning.asScript.blocks = meaning.blocks := by
  cases meaning <;> rfl

section Actions

variable {call : Call} {position : Nat} {part : Meaning}

/-- What an action means can be an element of a sequence unless it is a handler. -/
lemma Call.flatten_eq_ok_iff {blocks : List Block} (h : Sense.Covers .action part) :
    call.flatten position part = .ok blocks ↔
      (∀ body, part ≠ .handler body) ∧ blocks = part.blocks := by
  constructor
  · refine fun hblocks => ⟨?_, blocks_of_flatten hblocks⟩
    rintro body rfl
    cases hblocks
  · rintro ⟨hhandler, rfl⟩
    cases part with
    | handler body => exact absurd rfl (hhandler body)
    | null | command _ | commands _ => rfl
    | _ => exact h.elim

/-- As a script an action is its commands, unless it is a handler. -/
lemma Call.scriptBody_eq (hpart : call.part position = .ok part)
    (h : Sense.Covers .action part) : call.scriptBody position = .ok part.asScript := by
  rw [scriptBody, hpart]
  cases part with
  | handler body => rfl
  | null | command _ | commands _ => rfl
  | _ => exact h.elim

lemma Sense.Covers.action_of_script (h : Sense.Covers .script part) :
    Sense.Covers .action part := by
  cases part <;> trivial

lemma Script.commandsOf_of_script (h : Sense.Covers .script part) :
    commandsOf part = .ok part.blocks := by
  cases part <;> first | rfl | exact h.elim

end Actions

namespace Language

open PhraseScript.Derivation

variable {sounds : List String} {numbers : NumberWords} {action rest : Derivation}
  {joint : List Derivation} {outer inner span : Span} {before after : Session}

/-- The rules of sentences and sequences. -/
lemma mem_standard_of_sequence : ∀ rule ∈
    [Grammar.rule "Start" ["S"] (.pass 0), Grammar.rule "S" ["AL"] (.pass 0),
      Grammar.rule "AL" ["AP"] .singleAction, Grammar.rule "AL" ["AP", "AL"] (.concatenate 0 1),
      Grammar.rule "AL" ["AP", "And", "AL"] (.concatenate 0 2)],
    rule ∈ Grammar.standard := by
  simp [Grammar.standard, Grammar.structureRules]

/-- A node that passes its only child on means what the child does. -/
lemma gives_pass_iff {lhs category : String} {tree : Derivation} {meaning : Meaning}
    (hrule : (⟨lhs, [category]⟩, .pass 0) ∈ Grammar.standard) (htree : tree.category = category) :
    Gives ((standard sounds numbers).evaluate (.node lhs [category] [tree] span)) before meaning
        after ↔
      Gives ((standard sounds numbers).evaluate tree) before meaning after := by
  rw [gives_rule_iff hrule (by simp [htree])]
  constructor
  · rintro ⟨_, _, ⟨⟩, hbuild⟩
    next part parts hpart hparts =>
      cases hparts
      obtain ⟨hmeaning, rfl⟩ := gives_lift.mp hbuild
      obtain rfl := Except.ok.inj hmeaning
      exact hpart
  · exact fun h => ⟨[meaning], after, .cons h .nil, gives_lift.mpr ⟨rfl, rfl⟩⟩

lemma gives_asSentence_iff {actions : Derivation} (hactions : actions.category = "AL")
    {meaning : Meaning} :
    Gives ((standard sounds numbers).evaluate (asSentence actions outer inner)) before meaning
        after ↔
      Gives ((standard sounds numbers).evaluate actions) before meaning after := by
  have houter : (⟨"Start", ["S"]⟩, .pass 0) ∈ Grammar.standard :=
    mem_standard_of_sequence _ (by simp [Grammar.rule])
  have hinner : (⟨"S", ["AL"]⟩, .pass 0) ∈ Grammar.standard :=
    mem_standard_of_sequence _ (by simp [Grammar.rule])
  rw [asSentence, gives_pass_iff houter rfl, gives_pass_iff hinner hactions]

/-- The outcome of a sentence of actions. -/
lemma translate_asSentence_iff {actions : Derivation} (hactions : actions.category = "AL")
    {outcome : Outcome} :
    (standard sounds numbers).translate (asSentence actions outer inner) before = .ok outcome ↔
      ∃ meaning, Gives ((standard sounds numbers).evaluate actions) before meaning
          outcome.session ∧
        outcome.script.commands = meaning.blocks ∧
        outcome.script.environment = outcome.session.environment := by
  simp only [translate_eq_ok_iff, gives_asSentence_iff hactions]
  refine exists_congr fun meaning => and_congr_right fun hmeaning => and_congr_left fun _ => ?_
  have hcovers := covers_of_gives hmeaning
  rw [hactions] at hcovers
  rw [Script.commandsOf_of_script hcovers, Except.ok.injEq, eq_comm]

/-! ### An action by itself -/

lemma covers_action (haction : action.category = "AP") {part : Meaning}
    (h : Gives ((standard sounds numbers).evaluate action) before part after) :
    Sense.Covers .action part := by
  have hcovers := covers_of_gives h
  rwa [haction] at hcovers

lemma gives_alone_iff (haction : action.category = "AP") {meaning : Meaning} :
    Gives ((standard sounds numbers).evaluate (alone action span)) before meaning after ↔
      ∃ part, Gives ((standard sounds numbers).evaluate action) before part after ∧
        part.asScript = meaning := by
  have hrule : (⟨"AL", ["AP"]⟩, .singleAction) ∈ Grammar.standard :=
    mem_standard_of_sequence _ (by simp [Grammar.rule])
  have hbody {part : Meaning} {after : Session}
      (hpart : Gives ((standard sounds numbers).evaluate action) before part after) :
      Call.scriptBody ⟨⟨"AL", ["AP"]⟩, [part], numbers⟩ 0 = .ok part.asScript :=
    Call.scriptBody_eq rfl (covers_action haction hpart)
  rw [alone, gives_rule_iff hrule (by simp [haction])]
  constructor
  · rintro ⟨_, _, ⟨⟩, hbuild⟩
    next part parts hpart hparts =>
      cases hparts
      obtain ⟨hmeaning, rfl⟩ := gives_lift.mp hbuild
      exact ⟨part, hpart, Except.ok.inj ((hbody hpart).symm.trans hmeaning)⟩
  · rintro ⟨part, hpart, rfl⟩
    exact ⟨[part], _, .cons hpart .nil, gives_lift.mpr ⟨hbody hpart, rfl⟩⟩

/-- The outcome of an action as a sentence of its own: its commands. -/
lemma translate_alone_iff (haction : action.category = "AP") {outcome : Outcome} :
    (standard sounds numbers).translate (asSentence (alone action span) outer inner) before =
        .ok outcome ↔
      ∃ part, Gives ((standard sounds numbers).evaluate action) before part outcome.session ∧
        outcome.script.commands = part.blocks ∧
        outcome.script.environment = outcome.session.environment := by
  simp only [translate_asSentence_iff (show (alone action span).category = "AL" from rfl),
    gives_alone_iff haction]
  constructor
  · rintro ⟨_, ⟨part, hpart, rfl⟩, hcommands, hscript⟩
    exact ⟨part, hpart, part.blocks_asScript ▸ hcommands, hscript⟩
  · rintro ⟨part, hpart, hcommands, hscript⟩
    exact ⟨_, ⟨part, hpart, rfl⟩, part.blocks_asScript.symm ▸ hcommands, hscript⟩

/-! ### An action before others -/

/-- The commands of two actions one after the other, none of which is a handler. -/
lemma gives_concatenate_iff {call : Call} {second : Nat} {part other meaning : Meaning}
    (hpart : call.part 0 = .ok part) (hother : call.part second = .ok other)
    (hfirst : Sense.Covers .action part) (hsecond : Sense.Covers .action other) :
    Gives (Construction.build (.concatenate 0 second) call) before meaning after ↔
      ((∀ body, part ≠ .handler body) ∧ (∀ body, other ≠ .handler body) ∧
        meaning = .commands (part.blocks ++ other.blocks)) ∧ before = after := by
  have hactions {position : Nat} {part : Meaning} (h : call.part position = .ok part) :
      call.actions position = call.flatten position part := by
    rw [Call.actions, h]
    rfl
  simp only [Construction.build, gives_bind, gives_lift, gives_pure, hactions hpart,
    hactions hother, Call.flatten_eq_ok_iff hfirst, Call.flatten_eq_ok_iff hsecond]
  constructor
  · rintro ⟨_, _, ⟨⟨hfirst, rfl⟩, rfl⟩, _, _, ⟨⟨hsecond, rfl⟩, rfl⟩, rfl, rfl⟩
    exact ⟨⟨hfirst, hsecond, rfl⟩, rfl⟩
  · rintro ⟨⟨hfirst, hsecond, rfl⟩, rfl⟩
    exact ⟨_, _, ⟨⟨hfirst, rfl⟩, rfl⟩, _, _, ⟨⟨hsecond, rfl⟩, rfl⟩, rfl, rfl⟩

/-- What stands between two actions means nothing and changes nothing. -/
lemma threads_joint_iff (hjoint : Joint joint) {trees : List Derivation}
    {parts : List Meaning} :
    Threads (fun tree => Gives ((standard sounds numbers).evaluate tree)) (joint ++ trees) before
        parts after ↔
      ∃ others, parts = List.replicate joint.length .null ++ others ∧
        Threads (fun tree => Gives ((standard sounds numbers).evaluate tree)) trees before others
          after := by
  cases hjoint with
  | nothing => simp
  | @and word span hword =>
    have hand : ("And", ["and"]) ∈ Lexicon.keywords := by decide
    have hlookup : (Lexicon.standard sounds).lookup "And" word = .ok .null :=
      Lexicon.lookup_keyword_of_toLower hand (by rw [hword]; decide)
    constructor
    · rintro ⟨⟩
      next between part others hpart hothers =>
        obtain ⟨hmeaning, rfl⟩ := gives_leaf_iff.mp hpart
        obtain rfl := Except.ok.inj (hlookup.symm.trans hmeaning)
        exact ⟨others, rfl, hothers⟩
    · rintro ⟨others, rfl, hothers⟩
      exact .cons (gives_leaf_iff.mpr ⟨hlookup, rfl⟩) hothers

/-- The rule of an action before others. -/
lemma mem_standard_of_joint (hjoint : Joint joint) :
    (⟨"AL", "AP" :: (joint.map category ++ ["AL"])⟩, .concatenate 0 (joint.length + 1)) ∈
      Grammar.standard := by
  cases hjoint with
  | nothing => exact mem_standard_of_sequence _ (by simp [Grammar.rule])
  | and _ => exact mem_standard_of_sequence _ (by simp [Grammar.rule, category])

/-- An action before others means the commands of both, each of which is evaluated in the session
that the one before it leaves. -/
lemma gives_prepend_iff (haction : action.category = "AP") (hrest : rest.category = "AL")
    (hjoint : Joint joint) {meaning : Meaning} :
    Gives ((standard sounds numbers).evaluate (prepend action joint rest span)) before meaning
        after ↔
      ∃ part between other,
        Gives ((standard sounds numbers).evaluate action) before part between ∧
        Gives ((standard sounds numbers).evaluate rest) between other after ∧
        (∀ body, part ≠ .handler body) ∧ (∀ body, other ≠ .handler body) ∧
        meaning = .commands (part.blocks ++ other.blocks) := by
  have hcovers {other : Meaning} {between after : Session}
      (h : Gives ((standard sounds numbers).evaluate rest) between other after) :
      Sense.Covers .action other := by
    have hcovers := covers_of_gives h
    rw [hrest] at hcovers
    exact hcovers.action_of_script
  -- the call of the rule: what the joint means stands between the two
  let call (part other : Meaning) : Call :=
    ⟨⟨"AL", "AP" :: (joint.map category ++ ["AL"])⟩,
      part :: (List.replicate joint.length .null ++ [other]), numbers⟩
  have hother (part other : Meaning) : (call part other).part (joint.length + 1) = .ok other :=
    Call.part_eq_ok_iff.mpr (by simp [call])
  rw [prepend, gives_rule_iff (mem_standard_of_joint hjoint) (by simp [haction, hrest])]
  constructor
  · rintro ⟨_, _, ⟨⟩, hbuild⟩
    next between finish part parts hpart hparts =>
      obtain ⟨_, rfl, hrest⟩ := (threads_joint_iff hjoint).mp hparts
      cases hrest with
      | cons hgives hnil =>
        cases hnil
        obtain ⟨hmeaning, rfl⟩ := (gives_concatenate_iff rfl (hother part _)
          (covers_action haction hpart) (hcovers hgives)).mp hbuild
        exact ⟨_, _, _, hpart, hgives, hmeaning⟩
  · rintro ⟨part, between, other, hpart, hgives, hmeaning⟩
    exact ⟨_, _, .cons hpart ((threads_joint_iff hjoint).mpr ⟨_, rfl, .cons hgives .nil⟩),
      (gives_concatenate_iff rfl (hother part other) (covers_action haction hpart)
        (hcovers hgives)).mpr ⟨hmeaning, rfl⟩⟩

/-! ### Two sentences -/

/-- From a session the tree means a handler. -/
def MeansHandler (language : Language) (tree : Derivation) (session : Session) : Prop :=
  ∃ body after, language.interpret tree session = .ok (.handler body, after)

lemma not_meansHandler_iff {language : Language} {tree : Derivation} {part : Meaning}
    (h : Gives (language.evaluate tree) before part after) :
    ¬language.MeansHandler tree before ↔ ∀ body, part ≠ .handler body := by
  constructor
  · rintro hnot body rfl
    exact hnot ⟨body, after, interpret_eq_ok_iff.mpr h⟩
  · rintro hnot ⟨body, _, hbody⟩
    exact hnot body (h.unique (interpret_eq_ok_iff.mp hbody)).1

/-- A compound sentence is its parts, one after the other: it has an outcome if and only if its
first action has one as a sentence, the other actions have one as a sentence after it, and none
of the two is a handler.  Its commands are those of the two sentences, its session is that of
the second one. -/
theorem translate_prepend_iff (haction : action.category = "AP") (hrest : rest.category = "AL")
    (hjoint : Joint joint) (session : Session) (outcome : Outcome)
    (outer₁ inner₁ span₁ outer₂ inner₂ : Span) :
    (standard sounds numbers).translate (asSentence (prepend action joint rest span) outer inner)
        session = .ok outcome ↔
      ∃ first second,
        (standard sounds numbers).translate (asSentence (alone action span₁) outer₁ inner₁)
            session = .ok first ∧
        ¬(standard sounds numbers).MeansHandler action session ∧
        ¬(standard sounds numbers).MeansHandler rest first.session ∧
        (standard sounds numbers).translate (asSentence rest outer₂ inner₂) first.session =
            .ok second ∧
        outcome = first.followedBy second := by
  rw [translate_asSentence_iff rfl]
  simp only [translate_alone_iff haction, translate_asSentence_iff hrest,
    gives_prepend_iff haction hrest hjoint, Outcome.eq_followedBy_iff]
  constructor
  · rintro ⟨_, ⟨part, between, other, hpart, hother, hfirst, hsecond, rfl⟩, hcommands, hscript⟩
    -- the outcomes of the two sentences show the environments of the sessions after them
    let first : Outcome :=
      ⟨⟨part.blocks, between.environment.vars, between.environment.lists⟩, between⟩
    let second : Outcome :=
      ⟨⟨other.blocks, outcome.session.environment.vars, outcome.session.environment.lists⟩,
        outcome.session⟩
    exact ⟨first, second, ⟨part, hpart, rfl, rfl⟩, (not_meansHandler_iff hpart).mpr hfirst,
      (not_meansHandler_iff hother).mpr hsecond, ⟨other, hother, rfl, rfl⟩, hcommands, hscript,
      rfl⟩
  · rintro ⟨first, second, ⟨part, hpart, hfirst, -⟩, hnotFirst, hnotSecond,
      ⟨other, hother, hsecond, hscript⟩, hcommands, henvironment, hsession⟩
    rw [not_meansHandler_iff hpart] at hnotFirst
    rw [not_meansHandler_iff hother] at hnotSecond
    rw [hfirst, hsecond] at hcommands
    rw [hsession, henvironment]
    exact ⟨_, ⟨part, _, other, hpart, hother, hnotFirst, hnotSecond, rfl⟩, hcommands, hscript⟩

/-- An action is the phrase that it is made of. -/
lemma gives_action_iff {phrase : Derivation} (h : phrase.category ∈ Grammar.actionPhrases)
    {meaning : Meaning} :
    Gives ((standard sounds numbers).evaluate (apply "AP" [phrase])) before meaning after ↔
      Gives ((standard sounds numbers).evaluate phrase) before meaning after := by
  have hrule : (⟨"AP", [phrase.category]⟩, .pass 0) ∈ Grammar.structureRules := by
    simp [Grammar.structureRules, Grammar.rule, h]
  exact gives_pass_iff (by simp [Grammar.standard, hrule]) rfl

/-- "Make x and set x to negative x." -/
theorem translate_making_and_setting :
    ∃ first second,
      (standard [] .numerals).translate
          (asSentence (alone (apply "AP" [making]) .unset) .unset .unset) {} = .ok first ∧
        (standard [] .numerals).translate
          (asSentence (alone (apply "AP" [setting 1]) .unset) .unset .unset) first.session =
            .ok second ∧
        (standard [] .numerals).translate
          (asSentence (prepend (apply "AP" [making]) [word "And" "And"]
            (alone (apply "AP" [setting 1]) .unset) .unset) .unset .unset) {} =
              .ok (first.followedBy second) := by
  have hjoint : Joint [word "And" "And"] := .and (by decide +kernel)
  have hmaking : Gives ((standard [] .numerals).evaluate (apply "AP" [making])) {} .null
      Session.withX :=
    (gives_action_iff (by decide)).mpr gives_making
  have hsetting : Gives ((standard [] .numerals).evaluate (apply "AP" [setting 1])) Session.withX
      (.command (.mk Opcode.setVariable [.text "x", negation 1])) (Session.negatedX 1) :=
    (gives_action_iff (by decide)).mpr (gives_setting 1)
  obtain ⟨first, hsession, hfirst⟩ : ∃ first : Outcome, first.session = Session.withX ∧
      (standard [] .numerals).translate
        (asSentence (alone (apply "AP" [making]) .unset) .unset .unset) {} = .ok first :=
    ⟨⟨⟨_, _, _⟩, _⟩, rfl, (translate_alone_iff rfl).mpr ⟨_, hmaking, rfl, rfl⟩⟩
  obtain ⟨second, hsecond⟩ : ∃ second, (standard [] .numerals).translate
      (asSentence (alone (apply "AP" [setting 1]) .unset) .unset .unset) Session.withX =
        .ok second :=
    ⟨⟨⟨_, _, _⟩, _⟩, (translate_alone_iff rfl).mpr ⟨_, hsetting, rfl, rfl⟩⟩
  refine ⟨first, second, hfirst, hsession ▸ hsecond, ?_⟩
  refine (translate_prepend_iff rfl rfl hjoint {} _ .unset .unset .unset .unset .unset).mpr
    ⟨first, second, hfirst, ?_, ?_, hsession ▸ hsecond, rfl⟩
  · exact (not_meansHandler_iff hmaking).mpr (by simp)
  · rw [hsession]
    exact (not_meansHandler_iff ((gives_alone_iff rfl).mpr ⟨_, hsetting, rfl⟩)).mpr
      (by simp [Meaning.asScript])

end Language

end PhraseScript
