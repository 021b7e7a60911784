import PhraseScript.Proofs.Effects
import PhraseScript.Proofs.Evaluations

/-!
# Handlers

A handler is a trigger with the commands that it sets off.  The commands that can be triggers, the
*hats* (`Opcode.hats`), begin a script or do not occur in it, and a handler is never part of
anything else: between the root of a tree and a handler there are only nodes of rules that pass on
what their last child means (`Grammar.passesOn`).  A translated tree has one handler at most, and
then its script is this handler.  All this is `Language.handlers_of_translate_standard`.

A construction treats a child that is a handler in one of two ways.  Either it hands the handler
on as it is (`Construction.handsOn?`), or it asks for commands to put into a sequence
(`Construction.sequencePositions`), which a handler is not.
-/

namespace PhraseScript

/-- The commands that begin a handler. -/
def Opcode.hats : List String :=
  [whenGreenFlag, whenKeyPressed, whenClicked, whenSceneStarts, whenIReceive]

/-- No command begins a handler, in the bodies of the commands neither. -/
def Calm (blocks : List Block) : Prop :=
  ∀ block ∈ blocks.flatMap Block.traversal, block.opcode ∉ Opcode.hats

lemma calm_nil : Calm [] := by
  simp [Calm]

lemma calm_append {blocks others : List Block} :
    Calm (blocks ++ others) ↔ Calm blocks ∧ Calm others := by
  simp only [Calm, List.flatMap_append, List.mem_append, or_imp, forall_and]

lemma calm_flatMap {α : Type} {l : List α} {f : α → List Block} :
    Calm (l.flatMap f) ↔ ∀ a ∈ l, Calm (f a) := by
  induction l with
  | nil => simp [calm_nil]
  | cons a l ih => rw [List.flatMap_cons, calm_append, ih, List.forall_mem_cons]

/-- A command and what is in its bodies. -/
lemma calm_singleton {block : Block} :
    Calm [block] ↔ block.opcode ∉ Opcode.hats ∧ Calm block.bodies.flatten := by
  rw [Calm, List.flatMap_singleton, block.traversal_eq, List.forall_mem_cons]
  rfl

/-- A hat is the first command or does not occur, in the bodies of the commands neither. -/
def HatFirst (blocks : List Block) : Prop :=
  Calm blocks.tail ∧ ∀ block ∈ blocks.head?, Calm block.bodies.flatten

lemma Calm.hatFirst {blocks : List Block} (h : Calm blocks) : HatFirst blocks := by
  cases blocks with
  | nil => exact ⟨h, by simp⟩
  | cons block rest =>
    rw [← List.singleton_append, calm_append, calm_singleton] at h
    obtain ⟨⟨-, hbodies⟩, hrest⟩ := h
    exact ⟨hrest, by simpa using hbodies⟩

lemma hatFirst_cons {block : Block} {rest : List Block} (hblock : block.bodies = [])
    (hrest : Calm rest) : HatFirst (block :: rest) :=
  ⟨hrest, by simp [hblock, calm_nil]⟩

/-! ### Constructions and handlers -/

/-- The senses whose meanings can be handlers. -/
def Sense.mayHandle : Sense → Bool
  | .sentence | .script | .action | .handler => true
  | _ => false

lemma Sense.Covers.mayHandle {sense : Sense} {blocks : List Block}
    (h : sense.Covers (.handler blocks)) : sense.mayHandle = true := by
  cases sense <;> first | rfl | exact h.elim

namespace Construction

/-- The child that a construction hands on as it is if it is a handler. -/
def handsOn? : Construction → Option Nat
  | .pass position => some position
  | .singleAction => some 0
  | .recordSequence => some 1
  | _ => none

/-- The children whose commands a construction puts into a sequence. -/
def sequencePositions : Construction → List Nat
  | .concatenate first second => [first, second]
  | .doIf => [3]
  | .doIfElse => [3, 7]
  | .repeatUntil | .repeatForever | .repeatTimes | .handler => [1]
  | .repeatFor body _ => [body]
  | _ => []

section

variable {call : Call} {position : Nat} {before after : Session} {meaning : Meaning}
  {blocks : List Block}

lemma part_eq_of_getElem? (h : call.parts[position]? = some meaning) :
    call.part position = .ok meaning :=
  Call.part_eq_ok_iff.mpr h

/-- A handler is not put into a sequence. -/
lemma actions_ne_ok (h : call.parts[position]? = some (.handler blocks)) {found : List Block} :
    call.actions position ≠ .ok found := by
  intro hfound
  obtain ⟨part, hpart, hflatten⟩ := bind_eq_ok_iff.mp hfound
  obtain rfl := Except.ok.inj ((part_eq_of_getElem? h).symm.trans hpart)
  cases hflatten

lemma scriptBody_of_handler (h : call.parts[position]? = some (.handler blocks)) :
    call.scriptBody position = .ok (.handler blocks) := by
  rw [Call.scriptBody, part_eq_of_getElem? h]
  rfl

/-- A script that is a handler is the child as it is. -/
lemma getElem?_of_scriptBody (h : call.scriptBody position = .ok (.handler blocks)) :
    call.parts[position]? = some (.handler blocks) := by
  obtain ⟨part, hpart, hhandler⟩ := bind_eq_ok_iff.mp h
  split at hhandler
  · cases Except.ok.inj hhandler
    exact Call.part_eq_ok_iff.mp hpart
  · obtain ⟨commands, -, hcommands⟩ := bind_eq_ok_iff.mp hhandler
    cases hcommands

/-- A sequence that is recorded is given as it is. -/
lemma scriptBody_of_recordSequence (h : Gives (build .recordSequence call) before meaning after) :
    call.scriptBody 1 = .ok meaning := by
  cases does_of_gives h with
  | nothing hchanges => cases hchanges
  | recordSequence hactions => exact hactions

/-- A handler that is handed on is given as it is. -/
lemma eq_handler_of_handsOn? {construction : Construction}
    (h : construction.handsOn? = some position)
    (hpart : call.parts[position]? = some (.handler blocks))
    (hbuild : Gives (construction.build call) before meaning after) :
    meaning = .handler blocks := by
  cases construction <;> simp only [handsOn?, reduceCtorEq, Option.some.injEq] at h
  case pass =>
    subst h
    obtain ⟨hmeaning, -⟩ := gives_lift.mp hbuild
    exact (Except.ok.inj ((part_eq_of_getElem? hpart).symm.trans hmeaning)).symm
  case singleAction =>
    subst h
    obtain ⟨hmeaning, -⟩ := gives_lift.mp hbuild
    exact (Except.ok.inj ((scriptBody_of_handler hpart).symm.trans hmeaning)).symm
  case recordSequence =>
    subst h
    have hmeaning := scriptBody_of_recordSequence hbuild
    exact (Except.ok.inj ((scriptBody_of_handler hpart).symm.trans hmeaning)).symm

/-- Where commands are put into a sequence, a handler makes the construction fail. -/
lemma not_gives_of_sequence {construction : Construction}
    (h : position ∈ construction.sequencePositions)
    (hpart : call.parts[position]? = some (.handler blocks)) :
    ¬Gives (construction.build call) before meaning after := by
  intro hbuild
  cases construction <;>
    simp only [sequencePositions, List.mem_cons, List.not_mem_nil, or_false] at h
  case concatenate =>
    simp only [build, gives_bind, gives_lift] at hbuild
    obtain ⟨_, -, ⟨hfirst, -⟩, _, -, ⟨hsecond, -⟩, -⟩ := hbuild
    rcases h with rfl | rfl
    · exact actions_ne_ok hpart hfirst
    · exact actions_ne_ok hpart hsecond
  case doIfElse =>
    simp only [build, gives_bind, gives_lift] at hbuild
    obtain ⟨-, -, -, _, -, ⟨hbody, -⟩, _, -, ⟨hotherwise, -⟩, -⟩ := hbuild
    rcases h with rfl | rfl
    · exact actions_ne_ok hpart hbody
    · exact actions_ne_ok hpart hotherwise
  case doIf | handler =>
    simp only [build, gives_bind, gives_lift] at hbuild
    obtain ⟨-, -, -, _, -, ⟨hbody, -⟩, -⟩ := hbuild
    exact actions_ne_ok (h ▸ hpart) hbody
  case repeatUntil | repeatForever | repeatTimes | repeatFor =>
    simp only [build, gives_bind, gives_lift] at hbuild
    obtain ⟨_, -, ⟨hbody, -⟩, -⟩ := hbuild
    exact actions_ne_ok (h ▸ hpart) hbody

end

end Construction

/-! ### Rules and handlers -/

namespace Grammar

/-- The rules that pass on what one child means, when this child is an action or a sentence. -/
def passesOn (rule : RuleKey) : Bool :=
  rule.lhs ∈ ["Start", "S", "AP", "OrderedCommand", "SequentialCommand", "EventHandler"] ||
    rule = ⟨"AL", ["AP"]⟩

/-- The phrase of a handler. -/
def handlerPhrase : RuleKey := ⟨"SimpleEventHandler", ["EVENT", "AL"]⟩

/-- A category has no phrases, only words. -/
def isWordCategory (category : String) : Bool := standard.all fun rule => rule.1.lhs ≠ category

/-- Where a handler can stand the rule puts commands into a sequence, or it passes on what it
finds, and there are only words before it. -/
def Rule.keepsApart (rule : Rule) : Bool :=
  (List.range rule.1.rhs.length).all fun position =>
    !Sense.isAt Sense.mayHandle rule.1.rhs position ||
      position ∈ rule.2.sequencePositions ||
      (rule.2.handsOn? = some position && passesOn rule.1 &&
        (rule.1.rhs.take position).all isWordCategory)

/-- A rule that can give a handler is that of the phrase of a handler, or it passes on what it
finds, or it makes a sequence. -/
def Rule.givesHandler (rule : Rule) : Bool :=
  match rule.2 with
  | .handler => rule.1 = handlerPhrase
  | .pass _ | .singleAction | .recordSequence | .concatenate _ _ =>
    rule.1.lhs ≠ handlerPhrase.lhs
  | _ => !(Sense.ofCategory rule.1.lhs).mayHandle

/-- A trigger makes a command without bodies, any other rule makes no hat, and only a handler has
a trigger. -/
def Rule.settlesHats (rule : Rule) : Bool :=
  if rule.1.lhs = "EVENT" then
    repetitions.lookup rule.1 = none && (opcode? rule.1).isSome &&
      rule.1.rhs.all fun category => !(Sense.ofCategory category).acts
  else
    (opcode? rule.1).all (· ∉ Opcode.hats) &&
      ("EVENT" ∉ rule.1.rhs || rule.1 = handlerPhrase)

theorem standard_keepsApart {rule : Rule} (h : rule ∈ standard) : rule.keepsApart = true := by
  have hall : standard.all Rule.keepsApart = true := by decide +kernel
  exact List.all_eq_true.mp hall rule h

theorem standard_givesHandler {rule : Rule} (h : rule ∈ standard) : rule.givesHandler = true := by
  have hall : standard.all Rule.givesHandler = true := by decide +kernel
  exact List.all_eq_true.mp hall rule h

lemma eq_handlerPhrase {rule : Rule} (hrule : rule ∈ standard) (h : rule.2 = .handler) :
    rule.1 = handlerPhrase := by
  have hgives := standard_givesHandler hrule
  rw [Rule.givesHandler, h] at hgives
  exact of_decide_eq_true hgives

/-- The phrase of a handler is the only one for a handler. -/
lemma lhs_ne_of_ne_handler {rule : Rule} (hrule : rule ∈ standard) (h : rule.2 ≠ .handler) :
    rule.1.lhs ≠ handlerPhrase.lhs := by
  have hgives := standard_givesHandler hrule
  rw [Rule.givesHandler] at hgives
  split at hgives
  · next hconstruction => exact absurd hconstruction h
  · exact of_decide_eq_true hgives
  · exact of_decide_eq_true hgives
  · exact of_decide_eq_true hgives
  · exact of_decide_eq_true hgives
  · intro hlhs
    rw [hlhs] at hgives
    cases hgives

theorem standard_settlesHats {rule : Rule} (h : rule ∈ standard) : rule.settlesHats = true := by
  have hall : standard.all Rule.settlesHats = true := by decide +kernel
  exact List.all_eq_true.mp hall rule h

end Grammar

namespace Derivation

/-- The handlers in a tree. -/
def handlers (tree : Derivation) : List Derivation :=
  tree.subtrees.filter fun inner => inner.category = Grammar.handlerPhrase.lhs

/-- The handlers in several trees. -/
def forestHandlers (trees : List Derivation) : List Derivation := trees.flatMap handlers

lemma handlers_node (lhs : String) (rhs : List String) (children : List Derivation) (span : Span) :
    handlers (.node lhs rhs children span) =
      if lhs = Grammar.handlerPhrase.lhs then
        .node lhs rhs children span :: forestHandlers children
      else forestHandlers children := by
  have hforest : (forestSubtrees children).filter
      (fun inner => inner.category = Grammar.handlerPhrase.lhs) = forestHandlers children := by
    rw [forestSubtrees_eq, List.filter_flatMap]
    rfl
  rw [handlers, subtrees]
  by_cases h : lhs = Grammar.handlerPhrase.lhs
  · have hnode : decide (category (.node lhs rhs children span) = Grammar.handlerPhrase.lhs) =
        true := decide_eq_true h
    rw [if_pos h, List.filter_cons, if_pos hnode, hforest]
  · have hnode : decide (category (.node lhs rhs children span) = Grammar.handlerPhrase.lhs) =
        false := decide_eq_false h
    rw [if_neg h, List.filter_cons, hnode, if_neg Bool.false_ne_true, hforest]

lemma forestHandlers_eq_nil {trees : List Derivation} :
    forestHandlers trees = [] ↔ ∀ tree ∈ trees, tree.handlers = [] :=
  List.flatMap_eq_nil_iff

/-- If only the tree at one position has handlers, these are all handlers of the forest. -/
lemma forestHandlers_eq {trees : List Derivation} {position : Nat} {tree : Derivation}
    (htree : trees[position]? = some tree)
    (hothers : ∀ other inner, trees[other]? = some inner → other ≠ position →
      inner.handlers = []) :
    forestHandlers trees = tree.handlers := by
  induction trees generalizing position with
  | nil => cases htree
  | cons first rest ih =>
    rw [forestHandlers, List.flatMap_cons]
    cases position with
    | zero =>
      obtain rfl := Option.some.inj htree
      have hrest : forestHandlers rest = [] := by
        refine forestHandlers_eq_nil.mpr fun inner hinner => ?_
        obtain ⟨other, hother⟩ := List.getElem?_of_mem hinner
        exact hothers (other + 1) inner hother (by simp)
      rw [← forestHandlers, hrest, List.append_nil]
    | succ position =>
      have hfirst : first.handlers = [] := hothers 0 first rfl (by simp)
      rw [hfirst, List.nil_append]
      exact ih htree fun other inner hother hne => hothers (other + 1) inner hother (by simpa)

end Derivation

namespace Language

/-- A tree has one handler.  From the session before the tree, its trigger means a command, and
from the session after that its actions mean other commands. -/
def HasHandler (language : Language) (tree : Derivation) (session : Session) (trigger : Block)
    (body : List Block) : Prop :=
  ∃ event actions span between after,
    tree.handlers = [.node "SimpleEventHandler" ["EVENT", "AL"] [event, actions] span] ∧
    language.interpret event session = .ok (.command trigger, between) ∧
    language.interpret actions between = .ok (.commands body, after)

/-- What holds of a tree and what it means.  A meaning without a handler in its tree is no handler
and has no hats, unless the tree is a trigger. -/
structure Settled (language : Language) (tree : Derivation) (before : Session)
    (meaning : Meaning) : Prop where
  passesOn : ∀ lhs rhs children span, .node lhs rhs children span ∈ tree.subtrees →
    Derivation.forestHandlers children ≠ [] → Grammar.passesOn ⟨lhs, rhs⟩ = true
  quiet : tree.handlers = [] → ∀ blocks, meaning ≠ .handler blocks
  calm : tree.handlers = [] → tree.category ≠ "EVENT" → Calm meaning.blocks
  trigger : tree.category = "EVENT" → ∃ block, meaning = .command block ∧ block.bodies = []
  handler : tree.handlers ≠ [] → ∃ trigger body, language.HasHandler tree before trigger body ∧
    meaning = .handler (trigger :: body) ∧ trigger.bodies = [] ∧ Calm body

variable {sounds : List String} {numbers : NumberWords}

lemma settled_leaf {category word : String} {span : Span} {session : Session} {meaning : Meaning}
    (h : (Lexicon.standard sounds).lookup category word = .ok meaning) :
    (standard sounds numbers).Settled (.leaf category word span) session meaning := by
  have hmeans := (Lexicon.yields_lookup_standard sounds category word).result h
  have hadmits : (Sense.ofCategory category).Admits (fun _ => True) meaning :=
    hmeans.admits fun _ _ => trivial
  have hcovers := hadmits.covers
  -- a word is no command and no handler, so that it is neither a trigger nor the phrase of one
  have hquiet : ∀ blocks, meaning ≠ .handler blocks := by
    rintro blocks rfl
    cases hmeans
  have hnone : Derivation.handlers (.leaf category word span) = [] := by
    refine List.filter_cons_of_neg fun hcategory => ?_
    have hcategory : category = Grammar.handlerPhrase.lhs := of_decide_eq_true hcategory
    rw [hcategory] at hcovers
    cases meaning <;> first | exact hquiet _ rfl | exact hcovers
  refine ⟨?_, fun _ => hquiet, ?_, ?_, fun hsome => absurd hnone hsome⟩
  · rintro lhs rhs children span' hmem
    simp [Derivation.subtrees] at hmem
  · rw [hmeans.blocks_eq_nil]
    exact fun _ _ => calm_nil
  · intro hcategory
    rw [show category = "EVENT" from hcategory] at hcovers
    cases meaning with
    | command block => cases hmeans
    | _ => exact hcovers.elim

/-- A tree of a category that has only words keeps the session. -/
lemma eq_of_isWordCategory {tree : Derivation} (h : Grammar.isWordCategory tree.category = true)
    {before after : Session} {meaning : Meaning}
    (hgives : Gives ((standard sounds numbers).evaluate tree) before meaning after) :
    before = after := by
  cases tree with
  | leaf category word span => exact (gives_leaf_iff.mp hgives).2
  | node lhs rhs children span =>
    obtain ⟨construction, -, -, hrule, -⟩ := gives_node_iff.mp hgives
    have hne : lhs ≠ lhs := of_decide_eq_true (List.all_eq_true.mp h _ hrule)
    exact absurd rfl hne

section Node

variable {rule : Grammar.Rule} {children : List Derivation} {parts : List Meaning}
  {before between after : Session} {meaning : Meaning}

/-- Where a rule finds a handler it passes it on. -/
lemma handsOn_of_handler (hrule : rule ∈ Grammar.standard)
    (hsenses : Sense.CoversAll rule.1.rhs parts)
    (hbuild : Gives (rule.2.build ⟨rule.1, parts, numbers⟩) between meaning after)
    {position : Nat} {blocks : List Block} (hpart : parts[position]? = some (.handler blocks)) :
    rule.2.handsOn? = some position ∧ Grammar.passesOn rule.1 = true ∧
      (rule.1.rhs.take position).all Grammar.isWordCategory = true := by
  obtain ⟨hlt, hget⟩ := List.getElem?_eq_some_iff.mp hpart
  have hposition : position < rule.1.rhs.length := hsenses.length_eq ▸ hlt
  have hmay : Sense.isAt Sense.mayHandle rule.1.rhs position = true := by
    have hcovers := hsenses.get hposition hlt
    rw [List.get_eq_getElem, List.get_eq_getElem, hget] at hcovers
    rw [Sense.isAt, List.getElem?_eq_getElem hposition]
    exact hcovers.mayHandle
  have hapart := List.all_eq_true.mp (Grammar.standard_keepsApart hrule) position
    (List.mem_range.mpr hposition)
  simp only [hmay, Bool.not_true, Bool.false_or, Bool.or_eq_true, Bool.and_eq_true,
    decide_eq_true_eq] at hapart
  rcases hapart with hsequence | ⟨⟨hhands, hpasses⟩, hwords⟩
  · exact absurd hbuild (Construction.not_gives_of_sequence hsequence hpart)
  · exact ⟨hhands, hpasses, hwords⟩

/-- A handler is given by the phrase of a handler, or a handler is passed on. -/
lemma handler_of_build (hrule : rule ∈ Grammar.standard)
    (hmeaning : (Sense.ofCategory rule.1.lhs).Covers meaning)
    (hbuild : Gives (rule.2.build ⟨rule.1, parts, numbers⟩) between meaning after)
    {blocks : List Block} (h : meaning = .handler blocks) :
    rule.2 = .handler ∨ ∃ position : Nat, parts[position]? = some (.handler blocks) := by
  subst h
  have hgives := Grammar.standard_givesHandler hrule
  rw [Grammar.Rule.givesHandler] at hgives
  split at hgives
  · next hconstruction => exact .inl hconstruction
  · next position hconstruction =>
    rw [hconstruction] at hbuild
    obtain ⟨hpart, -⟩ := gives_lift.mp hbuild
    exact .inr ⟨position, Call.part_eq_ok_iff.mp hpart⟩
  · next hconstruction =>
    rw [hconstruction] at hbuild
    obtain ⟨hscript, -⟩ := gives_lift.mp hbuild
    exact .inr ⟨0, Construction.getElem?_of_scriptBody hscript⟩
  · next hconstruction =>
    rw [hconstruction] at hbuild
    have hscript := Construction.scriptBody_of_recordSequence hbuild
    exact .inr ⟨1, Construction.getElem?_of_scriptBody hscript⟩
  · next first second hconstruction =>
    rw [hconstruction] at hbuild
    simp only [Construction.build, gives_bind, gives_pure] at hbuild
    obtain ⟨_, _, -, _, _, -, hcommands, -⟩ := hbuild
    cases hcommands
  · exact absurd hmeaning.mayHandle (by simpa using hgives)

/-- What is made without a trigger or a handler among the children has no hats. -/
lemma calm_build (hrule : rule ∈ Grammar.standard) (hevent : rule.1.lhs ≠ "EVENT")
    (hsenses : Sense.CoversAll rule.1.rhs parts)
    (hmeaning : (Sense.ofCategory rule.1.lhs).Covers meaning)
    (hbuild : Gives (rule.2.build ⟨rule.1, parts, numbers⟩) between meaning after)
    (hparts : ∀ part ∈ parts, Calm part.blocks) : Calm meaning.blocks := by
  have hcarries := Grammar.Rule.carries_build
    (Grammar.standard_tellsCommands hrule) hsenses hmeaning hbuild
  have hcalm : Calm (parts.flatMap Meaning.blocks) := calm_flatMap.mpr hparts
  have hhats := Grammar.standard_settlesHats hrule
  rw [Grammar.Rule.settlesHats, if_neg hevent, Bool.and_eq_true, Option.all_eq_true] at hhats
  rw [Call.Carries] at hcarries
  split at hcarries
  · next opcode hopcode =>
    obtain ⟨block, rfl, rfl, -, hbodies, -⟩ := hcarries
    refine calm_singleton.mpr ⟨?_, hbodies ▸ hcalm⟩
    have hrepetitions : ∀ opcode ∈ [Opcode.repeatTimes, Opcode.repeatForever],
        opcode ∉ Opcode.hats := by decide
    rcases Call.opcode?_eq_some hopcode with hrepetition | hopcode
    · exact hrepetitions _ hrepetition
    · exact of_decide_eq_true (hhats.1 _ hopcode)
  · rwa [hcarries]

/-- A trigger is a command without bodies. -/
lemma exists_trigger (hrule : rule ∈ Grammar.standard) (hevent : rule.1.lhs = "EVENT")
    (hsenses : Sense.CoversAll rule.1.rhs parts)
    (hmeaning : (Sense.ofCategory rule.1.lhs).Covers meaning)
    (hbuild : Gives (rule.2.build ⟨rule.1, parts, numbers⟩) between meaning after) :
    ∃ block, meaning = .command block ∧ block.bodies = [] := by
  have hcarries := Grammar.Rule.carries_build
    (Grammar.standard_tellsCommands hrule) hsenses hmeaning hbuild
  have hhats := Grammar.standard_settlesHats hrule
  simp only [Grammar.Rule.settlesHats, hevent, if_true, Bool.and_eq_true,
    decide_eq_true_eq] at hhats
  obtain ⟨⟨hrepetition, hopcode⟩, hacts⟩ := hhats
  obtain ⟨opcode, hopcode⟩ := Option.isSome_iff_exists.mp hopcode
  simp only [Call.Carries, Call.opcode?, hrepetition, hopcode] at hcarries
  obtain ⟨block, rfl, -, hbodies, -⟩ := hcarries
  refine ⟨block, rfl, ?_⟩
  -- the bodies would be actions, which are not there
  rw [hbodies, Call.bodies, List.map_eq_nil_iff, List.filter_eq_nil_iff]
  rintro ⟨category, part⟩ hmem hbody
  have hquiet := List.all_eq_true.mp hacts category (List.of_mem_zip hmem).1
  have hbodies : ∀ phrase ∈ Grammar.bodyPhrases, (Sense.ofCategory phrase).acts = true := by decide
  simp [hbodies category (of_decide_eq_true hbody)] at hquiet

/-- What is known of the children of a node. -/
abbrev SettledAll (sounds : List String) (numbers : NumberWords) :
    List Derivation → Session → List Meaning → Session → Prop :=
  Threads fun tree before part after =>
    Gives ((standard sounds numbers).evaluate tree) before part after ∧
      (standard sounds numbers).Settled tree before part

/-- A child that has a handler means a handler, which its node passes on.  No other child has one,
and the child is evaluated from the session before the node. -/
lemma exists_of_forestHandlers_ne_nil (hrule : rule ∈ Grammar.standard)
    (hcategories : children.map Derivation.category = rule.1.rhs)
    (hsenses : Sense.CoversAll rule.1.rhs parts)
    (hsettled : SettledAll sounds numbers children before parts between)
    (hbuild : Gives (rule.2.build ⟨rule.1, parts, numbers⟩) between meaning after)
    (h : Derivation.forestHandlers children ≠ []) :
    ∃ child, child.handlers ≠ [] ∧ Derivation.forestHandlers children = child.handlers ∧
      Grammar.passesOn rule.1 = true ∧ rule.2 ≠ .handler ∧
      (standard sounds numbers).Settled child before meaning := by
  -- a child with a handler is at the position that the rule hands on
  have hhandsOn : ∀ (position : Nat) (child : Derivation), children[position]? = some child →
      child.handlers ≠ [] → ∃ start blocks, parts[position]? = some (.handler blocks) ∧
        (standard sounds numbers).Settled child start (.handler blocks) ∧
        rule.2.handsOn? = some position ∧ Grammar.passesOn rule.1 = true ∧ before = start := by
    intro position child hchild hne
    obtain ⟨start, part, stop, hpart, ⟨-, hsettled⟩, hstart⟩ := hsettled.exists_of_getElem? hchild
    obtain ⟨trigger, body, -, rfl, -⟩ := hsettled.handler hne
    obtain ⟨hhands, hpasses, hwords⟩ := handsOn_of_handler hrule hsenses hbuild hpart
    refine ⟨start, _, hpart, hsettled, hhands, hpasses, hstart ?_⟩
    rintro other hother before part after ⟨hgives, -⟩
    rw [← hcategories, ← List.map_take] at hwords
    exact eq_of_isWordCategory
      (List.all_eq_true.mp hwords _ (List.mem_map_of_mem hother)) hgives
  have hsome : ∃ child ∈ children, child.handlers ≠ [] := by
    by_contra hnone
    refine h (Derivation.forestHandlers_eq_nil.mpr fun child hchild => ?_)
    by_contra hne
    exact hnone ⟨child, hchild, hne⟩
  obtain ⟨child, hmem, hne⟩ := hsome
  obtain ⟨position, hchild⟩ := List.getElem?_of_mem hmem
  obtain ⟨start, blocks, hpart, hsettled, hhands, hpasses, rfl⟩ :=
    hhandsOn position child hchild hne
  refine ⟨child, hne, ?_, hpasses, ?_, ?_⟩
  · refine Derivation.forestHandlers_eq hchild fun other inner hother hdifferent => ?_
    by_contra hinner
    obtain ⟨-, -, -, -, hhands', -⟩ := hhandsOn other inner hother hinner
    exact hdifferent (Option.some.inj (hhands'.symm.trans hhands))
  · rintro hconstruction
    rw [hconstruction] at hhands
    cases hhands
  · rwa [Construction.eq_handler_of_handsOn? hhands hpart hbuild]

/-- The phrase of a handler. -/
lemma exists_handler (hconstruction : rule.2 = .handler) (hkey : rule.1 = Grammar.handlerPhrase)
    (hcategories : children.map Derivation.category = rule.1.rhs)
    (hsenses : Sense.CoversAll rule.1.rhs parts)
    (hsettled : SettledAll sounds numbers children before parts between)
    (hbuild : Gives (rule.2.build ⟨rule.1, parts, numbers⟩) between meaning after)
    (hnone : Derivation.forestHandlers children = []) (span : Span) :
    ∃ trigger body,
      (standard sounds numbers).HasHandler (.node rule.1.lhs rule.1.rhs children span) before
        trigger body ∧
      meaning = .handler (trigger :: body) ∧ trigger.bodies = [] ∧ Calm body := by
  obtain ⟨key, construction⟩ := rule
  obtain rfl : key = Grammar.handlerPhrase := hkey
  obtain rfl : construction = .handler := hconstruction
  obtain ⟨event, rest, rfl, hevent, hrest⟩ := List.map_eq_cons_iff.mp hcategories
  obtain ⟨actions, rest, rfl, hactions, hrest⟩ := List.map_eq_cons_iff.mp hrest
  obtain rfl := List.map_eq_nil_iff.mp hrest
  cases hsettled with
  | @cons _ _ _ middle _ part _ h hs =>
  obtain ⟨heventGives, heventSettled⟩ := h
  cases hs with
  | @cons _ _ _ _ _ other _ h hs =>
  cases hs
  obtain ⟨hactionsGives, hactionsSettled⟩ := h
  obtain ⟨trigger, rfl, hbodies⟩ := heventSettled.trigger hevent
  simp only [Construction.build, gives_bind, gives_lift, gives_pure] at hbuild
  obtain ⟨found, _, ⟨hfound, rfl⟩, body, _, ⟨hbody, rfl⟩, rfl, rfl⟩ := hbuild
  obtain rfl : trigger = found := Except.ok.inj hfound
  simp only [Derivation.forestHandlers, List.flatMap_cons, List.append_eq_nil_iff] at hnone
  have hcovers : Sense.Covers .script other := by
    obtain ⟨-, hsenses⟩ := List.forall₂_cons.mp hsenses
    exact (List.forall₂_cons.mp hsenses).1
  -- the actions are no handler, which could not be put into the sequence
  obtain rfl : other = .commands body := by
    cases other with
    | commands blocks => rw [Except.ok.inj hbody]
    | handler blocks => exact absurd rfl (hactionsSettled.quiet hnone.2.1 blocks)
    | _ => exact hcovers.elim
  have hcalm : Calm body := hactionsSettled.calm hnone.2.1 (by rw [hactions]; decide)
  refine ⟨trigger, body, ?_, rfl, hbodies, hcalm⟩
  refine ⟨event, actions, span, middle, _, ?_, interpret_eq_ok_iff.mpr heventGives,
    interpret_eq_ok_iff.mpr hactionsGives⟩
  rw [Derivation.handlers_node, if_pos rfl, Derivation.forestHandlers]
  simp only [List.flatMap_cons, hnone, List.append_nil]
  rfl

/-- A node passes on a handler below it, and so do the nodes below the node. -/
lemma passesOn_of_mem_subtrees (hrule : rule ∈ Grammar.standard)
    (hcategories : children.map Derivation.category = rule.1.rhs)
    (hsenses : Sense.CoversAll rule.1.rhs parts)
    (hsettled : SettledAll sounds numbers children before parts between)
    (hbuild : Gives (rule.2.build ⟨rule.1, parts, numbers⟩) between meaning after) {span : Span}
    {lhs : String} {rhs : List String} {forest : List Derivation} {inner : Span}
    (hmem : .node lhs rhs forest inner ∈
      Derivation.subtrees (.node rule.1.lhs rule.1.rhs children span))
    (hsome : Derivation.forestHandlers forest ≠ []) : Grammar.passesOn ⟨lhs, rhs⟩ = true := by
  rw [Derivation.subtrees, List.mem_cons, Derivation.forestSubtrees_eq, List.mem_flatMap] at hmem
  rcases hmem with hself | ⟨child, hchild, hmem⟩
  · obtain ⟨rfl, rfl, rfl, -⟩ := Derivation.node.inj hself
    obtain ⟨-, -, -, hpasses, -⟩ :=
      exists_of_forestHandlers_ne_nil hrule hcategories hsenses hsettled hbuild hsome
    exact hpasses
  · obtain ⟨_, part, _, -, -, hsettled⟩ := hsettled.exists_part hchild
    exact hsettled.passesOn _ _ _ _ hmem hsome

/-- A node that is no handler and has none below it does not mean one. -/
lemma ne_handler_of_build (hrule : rule ∈ Grammar.standard)
    (hmeaning : (Sense.ofCategory rule.1.lhs).Covers meaning)
    (hsettled : SettledAll sounds numbers children before parts between)
    (hbuild : Gives (rule.2.build ⟨rule.1, parts, numbers⟩) between meaning after)
    (hlhs : rule.1.lhs ≠ Grammar.handlerPhrase.lhs)
    (hnone : Derivation.forestHandlers children = []) (blocks : List Block) :
    meaning ≠ .handler blocks := by
  intro hblocks
  rcases handler_of_build hrule hmeaning hbuild hblocks with hconstruction | ⟨position, hpart⟩
  · exact hlhs (congrArg RuleKey.lhs (Grammar.eq_handlerPhrase hrule hconstruction))
  · obtain ⟨child, hchild, _, _, -, hsettled⟩ := hsettled.exists_tree (List.mem_of_getElem? hpart)
    exact hsettled.quiet (Derivation.forestHandlers_eq_nil.mp hnone child hchild) _ rfl

/-- Only the phrase of a handler has a trigger. -/
lemma category_ne_event (hrule : rule ∈ Grammar.standard) (hevent : rule.1.lhs ≠ "EVENT")
    (hlhs : rule.1.lhs ≠ Grammar.handlerPhrase.lhs)
    (hcategories : children.map Derivation.category = rule.1.rhs) {child : Derivation}
    (hchild : child ∈ children) : child.category ≠ "EVENT" := by
  intro hcategory
  have hhats := Grammar.standard_settlesHats hrule
  rw [Grammar.Rule.settlesHats, if_neg hevent, Bool.and_eq_true, Bool.or_eq_true] at hhats
  rcases hhats.2 with hrhs | hkey
  · refine of_decide_eq_true hrhs ?_
    rw [← hcategories, ← hcategory]
    exact List.mem_map_of_mem hchild
  · exact hlhs (congrArg RuleKey.lhs (of_decide_eq_true hkey))

/-- A handler of a node is the node itself, or the one that a child has. -/
lemma exists_handler_of_node (hrule : rule ∈ Grammar.standard)
    (hcategories : children.map Derivation.category = rule.1.rhs)
    (hsenses : Sense.CoversAll rule.1.rhs parts)
    (hsettled : SettledAll sounds numbers children before parts between)
    (hbuild : Gives (rule.2.build ⟨rule.1, parts, numbers⟩) between meaning after) {span : Span}
    (hsome : Derivation.handlers (.node rule.1.lhs rule.1.rhs children span) ≠ []) :
    ∃ trigger body,
      (standard sounds numbers).HasHandler (.node rule.1.lhs rule.1.rhs children span) before
        trigger body ∧
      meaning = .handler (trigger :: body) ∧ trigger.bodies = [] ∧ Calm body := by
  have hhandlers := Derivation.handlers_node rule.1.lhs rule.1.rhs children span
  by_cases hforest : Derivation.forestHandlers children = []
  · have hconstruction : rule.2 = .handler := by
      by_contra hne
      rw [hhandlers, if_neg (Grammar.lhs_ne_of_ne_handler hrule hne)] at hsome
      exact hsome hforest
    exact exists_handler hconstruction (Grammar.eq_handlerPhrase hrule hconstruction) hcategories
      hsenses hsettled hbuild hforest span
  · obtain ⟨child, hchild, hsame, -, hconstruction, hsettled⟩ :=
      exists_of_forestHandlers_ne_nil hrule hcategories hsenses hsettled hbuild hforest
    obtain ⟨trigger, body, hhandler, hrest⟩ := hsettled.handler hchild
    refine ⟨trigger, body, ?_, hrest⟩
    rwa [HasHandler, hhandlers, if_neg (Grammar.lhs_ne_of_ne_handler hrule hconstruction), hsame]

/-- What a node adds to what is known of its children. -/
lemma settled_node (hrule : rule ∈ Grammar.standard)
    (hcategories : children.map Derivation.category = rule.1.rhs)
    (hsenses : Sense.CoversAll rule.1.rhs parts)
    (hmeaning : (Sense.ofCategory rule.1.lhs).Covers meaning)
    (hsettled : SettledAll sounds numbers children before parts between)
    (hbuild : Gives (rule.2.build ⟨rule.1, parts, numbers⟩) between meaning after) (span : Span) :
    (standard sounds numbers).Settled (.node rule.1.lhs rule.1.rhs children span) before
      meaning := by
  have hnone (h : Derivation.handlers (.node rule.1.lhs rule.1.rhs children span) = []) :
      rule.1.lhs ≠ Grammar.handlerPhrase.lhs ∧ Derivation.forestHandlers children = [] := by
    rw [Derivation.handlers_node] at h
    split at h
    · cases h
    · next hlhs => exact ⟨hlhs, h⟩
  exact
    { passesOn := fun _ _ _ _ hmem hsome =>
        passesOn_of_mem_subtrees hrule hcategories hsenses hsettled hbuild hmem hsome
      quiet := fun h =>
        ne_handler_of_build hrule hmeaning hsettled hbuild (hnone h).1 (hnone h).2
      calm := by
        intro h hevent
        obtain ⟨hlhs, hforest⟩ := hnone h
        refine calm_build hrule hevent hsenses hmeaning hbuild fun part hpart => ?_
        obtain ⟨child, hchild, _, _, -, hsettled⟩ := hsettled.exists_tree hpart
        exact hsettled.calm (Derivation.forestHandlers_eq_nil.mp hforest child hchild)
          (category_ne_event hrule hevent hlhs hcategories hchild)
      trigger := fun hevent => exists_trigger hrule hevent hsenses hmeaning hbuild
      handler := fun hsome =>
        exists_handler_of_node hrule hcategories hsenses hsettled hbuild hsome }

end Node

lemma settled_steps : EvaluationSteps sounds numbers
    fun tree before meaning _ => (standard sounds numbers).Settled tree before meaning where
  leaf h := settled_leaf h
  node hrule hcategories hsenses hmeaning hsettled hbuild :=
    settled_node hrule hcategories hsenses hmeaning hsettled hbuild _

lemma Settled.hatFirst {language : Language} {tree : Derivation} {before : Session}
    {meaning : Meaning} (h : language.Settled tree before meaning) : HatFirst meaning.blocks := by
  by_cases hnone : tree.handlers = []
  · by_cases hevent : tree.category = "EVENT"
    · obtain ⟨block, rfl, hbodies⟩ := h.trigger hevent
      exact hatFirst_cons hbodies calm_nil
    · exact (h.calm hnone hevent).hatFirst
  · obtain ⟨trigger, body, -, rfl, hbodies, hcalm⟩ := h.handler hnone
    exact hatFirst_cons hbodies hcalm

/-- Handlers stand alone.  In the script of a tree only the first command can be a hat.  If the
tree has a handler it has no other, all nodes above it only pass it on, and the script is the
command of its trigger with the commands of its actions.  A tree in which a handler is part of
anything else has no script. -/
theorem handlers_of_translate_standard (sounds : List String) (numbers : NumberWords)
    (tree : Derivation) (session : Session) :
    (∀ outcome, (standard sounds numbers).translate tree session = .ok outcome →
      HatFirst outcome.script.commands ∧
      (tree.handlers ≠ [] → ∃ trigger body,
        (standard sounds numbers).HasHandler tree session trigger body ∧
          outcome.script.commands = trigger :: body) ∧
      ∀ lhs rhs children span, .node lhs rhs children span ∈ tree.subtrees →
        Derivation.forestHandlers children ≠ [] → Grammar.passesOn ⟨lhs, rhs⟩ = true) ∧
    ∀ lhs rhs children span, .node lhs rhs children span ∈ tree.subtrees →
      Derivation.forestHandlers children ≠ [] → Grammar.passesOn ⟨lhs, rhs⟩ = false →
        ∃ failure, (standard sounds numbers).translate tree session = .error failure := by
  have hsettled : ∀ outcome, (standard sounds numbers).translate tree session = .ok outcome →
      ∃ meaning, (standard sounds numbers).Settled tree session meaning ∧
        outcome.script.commands = meaning.blocks := by
    intro outcome h
    obtain ⟨meaning, hmeaning, hcommands, -⟩ := translate_eq_ok_iff.mp h
    exact ⟨meaning, settled_steps.evaluate tree _ _ _ hmeaning, Script.commandsOf_eq_ok hcommands⟩
  constructor
  · intro outcome h
    obtain ⟨meaning, hsettled, hcommands⟩ := hsettled outcome h
    rw [hcommands]
    refine ⟨hsettled.hatFirst, fun hsome => ?_, hsettled.passesOn⟩
    obtain ⟨trigger, body, hhandler, rfl, -⟩ := hsettled.handler hsome
    exact ⟨trigger, body, hhandler, rfl⟩
  · intro lhs rhs children span hmem hsome hpasses
    cases houtcome : (standard sounds numbers).translate tree session with
    | error failure => exact ⟨failure, rfl⟩
    | ok outcome =>
      obtain ⟨meaning, hsettled, -⟩ := hsettled outcome houtcome
      exact absurd (hsettled.passesOn _ _ _ _ hmem hsome) (by simp [hpasses])

open PhraseScript.Derivation in
/-- "When the program starts, stop, that's it." -/
def startSentence : Derivation :=
  let event := apply "EVENT" [word "When" "when", word "Det" "the", word "Program" "program",
    word "Starts" "starts"]
  let actions := apply "AL" [apply "AP" [apply "SoundCommand" [word "Stop" "stop"]]]
  apply "S" [apply "AL" [apply "AP" [apply "EventHandler"
    [apply "SimpleEventHandler" [event, actions], word "Thats" "that's", word "It" "it"]]]]

theorem handlers_of_translate_startSentence :
    ∃ outcome, (standard [] .numerals).translate startSentence {} = .ok outcome ∧
      HatFirst outcome.script.commands ∧ ∃ trigger body,
        (standard [] .numerals).HasHandler startSentence {} trigger body ∧
          outcome.script.commands = trigger :: body := by
  have htranslated : ((standard [] .numerals).translate startSentence {}).toBool = true := by
    rw [translate, interpret, evaluate_standard]
    decide +kernel
  have hhandler : startSentence.handlers.isEmpty = false := by decide +kernel
  cases houtcome : (standard [] .numerals).translate startSentence {} with
  | error failure =>
    rw [houtcome] at htranslated
    cases htranslated
  | ok outcome =>
    obtain ⟨hfirst, hhandlers, -⟩ :=
      (handlers_of_translate_standard [] .numerals startSentence {}).1 outcome houtcome
    refine ⟨outcome, rfl, hfirst, hhandlers fun hnil => ?_⟩
    rw [hnil] at hhandler
    cases hhandler

end Language

end PhraseScript
