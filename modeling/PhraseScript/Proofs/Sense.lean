import Mathlib.Data.List.Forall2
import PhraseScript.Lexicon.Standard
import PhraseScript.Proofs.BlockForm

/-!
# What the categories stand for

The meanings of all phrases of a category have something in common, the *sense* of the category
(`Sense.ofCategory`).  `Sense.Covers` looks at a meaning from outside: its kind, and for a few
senses a little more.  `Sense.Admits` looks through to the bottom: all blocks inside the meaning
are well-formed.  Some senses are special cases of others (`Sense.includes`).
-/

namespace PhraseScript

/-- What the meanings of a category have in common. -/
inductive Sense where
  /-- Words that only steer the grammar. -/
  | nothing
  /-- What can be said by itself. -/
  | sentence
  /-- Commands in order, or a handler. -/
  | script
  /-- What can be an element of a sequence, as far as the grammar goes. -/
  | action
  | command
  /-- A command, or a change of the session that leaves no command. -/
  | statement
  | handler
  /-- A number, or what reports one. -/
  | value
  /-- What is true or false. -/
  | condition
  | reporter
  /-- A value or a text. -/
  | operand
  /-- What a variable can hold. -/
  | content
  /-- A word that may be a numeral. -/
  | word
  /-- The name of anything but a variable or a list. -/
  | name
  | ordinal
  | truth
  | comparator
  | modifier
  | variableName
  | listName
  /-- Variables to be declared. -/
  | declaration
  | duration
deriving DecidableEq, Repr

namespace Sense

/-- The categories that do not stand for nothing. -/
def categories : List (String × Sense) :=
  [("Start", .sentence), ("S", .sentence), ("AL", .script), ("OrderedCommand", .script),
    ("SequentialCommand", .script), ("AP", .action), ("EVENT", .command),
    ("SoundCommand", .command), ("ControlCommand", .command), ("LoopCommand", .command),
    ("LoopCommandP", .command), ("ConditionalCommand", .command), ("TimerCommand", .command),
    ("BroadcastCommand", .command), ("CreateCommand", .statement), ("DataCommand", .statement),
    ("SimpleEventHandler", .handler), ("EventHandler", .handler), ("NP", .value),
    ("BP", .condition), ("Boolean", .condition), ("DataReporter", .reporter), ("NPP", .reporter),
    ("Timer", .reporter), ("ITEM", .operand), ("Unk", .word), ("NAME_OF_SOUND", .name),
    ("MESSAGE_NAME", .name), ("KEY_NAME", .name), ("BACKDROP_NAME", .name),
    ("OrderAdverb", .ordinal), ("BooleanLiteral", .truth), ("CBP", .comparator),
    ("LMOD", .modifier), ("POS", .modifier), ("NEG", .modifier),
    ("VARIABLE_NAME", .variableName), ("LIST_NAME", .listName), ("VARIABLE_LIST", .declaration),
    ("Duration", .duration)]

/-- The sense of a category.  Keywords, and the phrases around names, stand for nothing. -/
def ofCategory (category : String) : Sense := (categories.lookup category).getD .nothing

/-- The kinds of meaning that a sense covers.  A declaration is one of variables, and a duration
is a whole number from zero on, or the word for an endless one. -/
def Covers : Sense → Meaning → Prop
  | .nothing, .null => True
  | .sentence, .commands _ | .sentence, .handler _ => True
  | .sentence, .number _ | .sentence, .expression _ => True
  | .script, .commands _ | .script, .handler _ => True
  | .action, .null | .action, .command _ | .action, .commands _ | .action, .handler _ => True
  | .command, .command _ => True
  | .statement, .null | .statement, .command _ => True
  | .handler, .handler _ => True
  | .value, .number _ | .value, .expression _ => True
  | .condition, .number _ | .condition, .expression _ => True
  | .reporter, .expression _ => True
  | .operand, .number _ | .operand, .text _ | .operand, .expression _ => True
  | .content, .number _ | .content, .text _ | .content, .expression _ => True
  | .word, .number _ | .word, .text _ => True
  | .name, .text _ => True
  | .ordinal, .number _ => True
  | .truth, .number _ => True
  | .comparator, .comparator _ => True
  | .modifier, .modifier _ => True
  | .variableName, .variableName _ => True
  | .listName, .listName _ => True
  | .declaration, .declaration ⟨kind, _⟩ => kind = .vars
  | .duration, .number count => count.IsCount
  | .duration, .text phrase => phrase = Lexicon.forever
  | _, _ => False

variable (admissible : Double → Prop)

/-- All blocks are well-formed commands. -/
def AllCommands (blocks : List Block) : Prop := ∀ block ∈ blocks, IsBlock admissible .command block

/-- A meaning is what a sense stands for, and so is everything inside it. -/
def Admits : Sense → Meaning → Prop
  | .nothing, .null => True
  | .sentence, .commands blocks | .sentence, .handler blocks => AllCommands admissible blocks
  | .sentence, meaning => Fits admissible .condition meaning
  | .script, .commands blocks | .script, .handler blocks => AllCommands admissible blocks
  | .action, .null => True
  | .action, .command block => IsBlock admissible .command block
  | .action, .commands blocks | .action, .handler blocks => AllCommands admissible blocks
  | .command, .command block => IsBlock admissible .command block
  | .statement, .null => True
  | .statement, .command block => IsBlock admissible .command block
  | .handler, .handler blocks => AllCommands admissible blocks
  | .value, meaning => Fits admissible .value meaning
  | .condition, meaning => Fits admissible .condition meaning
  | .reporter, .expression block => IsBlock admissible .reporter block
  | .operand, meaning => Fits admissible .operand meaning
  | .content, meaning => Fits admissible .content meaning
  | .word, .number x => admissible x
  | .word, .text _ => True
  | .name, .text _ => True
  | .ordinal, .number x => admissible x
  | .truth, .number x => admissible x ∧ x.IsTruthValue
  | .comparator, .comparator _ => True
  | .modifier, .modifier _ => True
  | .variableName, .variableName _ => True
  | .listName, .listName _ => True
  | .declaration, .declaration ⟨kind, _⟩ => kind = .vars
  | .duration, .number count => admissible count ∧ count.IsCount
  | .duration, .text phrase => phrase = Lexicon.forever
  | _, _ => False

/-- Meanings are covered by the senses of categories, one by one. -/
abbrev CoversAll (categories : List String) (meanings : List Meaning) : Prop :=
  List.Forall₂ (fun category => (ofCategory category).Covers) categories meanings

/-- Meanings are admitted by the senses of categories, one by one. -/
abbrev AdmitsAll (categories : List String) (meanings : List Meaning) : Prop :=
  List.Forall₂ (fun category => (ofCategory category).Admits admissible) categories meanings

/-- The special cases of a sense. -/
def includes : Sense → List Sense
  | .sentence => [.sentence, .script, .condition]
  | .action => [.action, .command, .statement, .handler, .script]
  | .statement => [.statement, .command]
  | .value => [.value, .reporter, .ordinal]
  | .condition => [.condition, .truth]
  | .operand => [.operand, .value, .reporter, .name, .word]
  | .content => [.content, .operand, .value, .condition]
  | sense => [sense]

variable {admissible : Double → Prop} {sense special : Sense} {meaning : Meaning}

lemma Admits.sentence_of_script (h : Admits admissible .script meaning) :
    Admits admissible .sentence meaning := by
  cases meaning <;> first | exact h | exact h.elim

lemma Admits.sentence_of_condition (h : Fits admissible .condition meaning) :
    Admits admissible .sentence meaning := by
  cases h with
  | truth hx htruth => exact Fits.truth hx htruth
  | predicate hblock => exact Fits.predicate hblock

lemma Admits.action_of_special (hspecial : special ∈ includes .action)
    (h : Admits admissible special meaning) : Admits admissible .action meaning := by
  simp only [includes, List.mem_cons, List.not_mem_nil, or_false] at hspecial
  rcases hspecial with rfl | rfl | rfl | rfl | rfl <;> cases meaning <;>
    first | exact h | exact h.elim

lemma Admits.value_of_reporter (h : Admits admissible .reporter meaning) :
    Fits admissible .value meaning := by
  cases meaning <;> first | exact .reporter h | exact h.elim

lemma Admits.value_of_ordinal (h : Admits admissible .ordinal meaning) :
    Fits admissible .value meaning := by
  cases meaning <;> first | exact .constant h | exact h.elim

lemma Admits.condition_of_truth (h : Admits admissible .truth meaning) :
    Fits admissible .condition meaning := by
  cases meaning <;> first | exact .truth h.1 h.2 | exact h.elim

lemma Admits.operand_of_name (h : Admits admissible .name meaning) :
    Fits admissible .operand meaning := by
  cases meaning <;> first | exact .textOperand _ | exact h.elim

lemma Admits.operand_of_word (h : Admits admissible .word meaning) :
    Fits admissible .operand meaning := by
  cases meaning <;> first | exact .textOperand _ | exact .valueOperand (.constant h) | exact h.elim

/-- What a special case admits, the sense admits, too. -/
theorem Admits.of_special (h : Admits admissible special meaning)
    (hspecial : special ∈ sense.includes) : Admits admissible sense meaning := by
  cases sense
  case action => exact action_of_special hspecial h
  -- the other senses include few others, which are taken one by one
  all_goals simp only [includes, List.mem_cons, List.not_mem_nil, or_false] at hspecial
  case sentence =>
    rcases hspecial with rfl | rfl | rfl
    · exact h
    · exact sentence_of_script h
    · exact sentence_of_condition h
  case statement =>
    rcases hspecial with rfl | rfl
    · exact h
    · cases meaning <;> first | exact h | exact h.elim
  case value =>
    rcases hspecial with rfl | rfl | rfl
    · exact h
    · exact value_of_reporter h
    · exact value_of_ordinal h
  case condition =>
    rcases hspecial with rfl | rfl
    · exact h
    · exact condition_of_truth h
  case operand =>
    rcases hspecial with rfl | rfl | rfl | rfl | rfl
    · exact h
    · exact .valueOperand h
    · exact .valueOperand (value_of_reporter h)
    · exact operand_of_name h
    · exact operand_of_word h
  case content =>
    rcases hspecial with rfl | rfl | rfl | rfl
    · exact h
    · exact .operandContent h
    · exact .operandContent (.valueOperand h)
    · exact .conditionContent h
  all_goals
    subst hspecial
    exact h

lemma covers_of_fits_value (h : Fits admissible .value meaning) : Covers .value meaning := by
  cases h <;> trivial

lemma covers_of_fits_condition (h : Fits admissible .condition meaning) :
    Covers .condition meaning := by
  cases h <;> trivial

lemma covers_of_fits_operand (h : Fits admissible .operand meaning) : Covers .operand meaning := by
  cases h with
  | valueOperand hvalue => cases hvalue <;> trivial
  | textOperand => trivial

lemma covers_of_fits_content (h : Fits admissible .content meaning) : Covers .content meaning := by
  cases h with
  | operandContent hoperand =>
    cases hoperand with
    | valueOperand hvalue => cases hvalue <;> trivial
    | textOperand => trivial
  | conditionContent hcondition => cases hcondition <;> trivial

/-- A sense covers what it admits. -/
theorem Admits.covers (h : Admits admissible sense meaning) : sense.Covers meaning := by
  cases sense
  case sentence => cases meaning <;> trivial
  case value => exact covers_of_fits_value h
  case condition => exact covers_of_fits_condition h
  case operand => exact covers_of_fits_operand h
  case content => exact covers_of_fits_content h
  case duration =>
    cases meaning <;> first | exact h.2 | exact h
  all_goals cases meaning <;> trivial

end Sense

end PhraseScript
