import PhraseScript.Proofs.Changes
import PhraseScript.Proofs.DeepSessions
import PhraseScript.Proofs.Evaluations

/-!
# What conversations leave behind

In a conversation sentences follow one another.  A sentence that has an outcome leaves the session
of this outcome, one that fails leaves the session as it was (`Session.after`).

All sessions of a conversation are *sound* (`Session.Sound`): lists are empty, what is stored under
a variable is a number, a text or the form of a well-formed expression, and what has been recorded
are forms of well-formed commands.  The main statement is `Session.sound_converse`.
-/

namespace PhraseScript

/-! ### Sound sessions -/

/-- What can be stored under a variable. -/
inductive Json.IsStorable : Json → Prop where
  | number (value : Json.Number) : IsStorable (.number value)
  | text (value : String) : IsStorable (.string value)
  | reporter {block : Block} (h : IsBlock Double.IsFinite .reporter block) :
      IsStorable (Meaning.blockWire block)
  | predicate {block : Block} (h : IsBlock Double.IsFinite .predicate block) :
      IsStorable (Meaning.blockWire block)

/-- What can be recorded: the form of well-formed commands. -/
def Json.IsRecordable (value : Json) : Prop :=
  ∃ blocks, Sense.AllCommands Double.IsFinite blocks ∧ value = .array (Meaning.blocksWire blocks)

/-- What is true of all sessions that sentences lead to, from one with or without a recording. -/
structure Session.Sound (recorded : Bool) (session : Session) : Prop where
  lists : ∀ name items, session.environment.lists.get? name = some items → items = []
  vars : ∀ name value, session.environment.vars.get? name = some value → value.IsStorable
  recording : session.program.isSome = recorded
  program : ∀ sequence ∈ session.program.getD [], sequence.IsRecordable

/-! ### Values -/

lemma Double.exists_toJson {x : Double} (h : x.IsFinite) : ∃ value, x.toJson = .number value := by
  cases x with
  | finite negative magnitude =>
    rw [toJson]
    split <;> exact ⟨_, rfl⟩
  | _ => exact h.elim

namespace Fits

variable {meaning : Meaning}

lemma isStorable_number {x : Double} (h : x.IsFinite) : (Meaning.number x).wire.IsStorable := by
  obtain ⟨value, hvalue⟩ := Double.exists_toJson h
  rw [Meaning.wire, hvalue]
  exact .number value

lemma isStorable_value (h : Fits Double.IsFinite .value meaning) : meaning.wire.IsStorable := by
  cases h with
  | constant hx => exact isStorable_number hx
  | reporter hblock =>
    rw [Meaning.wire]
    exact .reporter hblock

lemma isStorable_operand (h : Fits Double.IsFinite .operand meaning) :
    meaning.wire.IsStorable := by
  cases h with
  | valueOperand h => exact h.isStorable_value
  | textOperand text =>
    rw [Meaning.wire]
    exact .text text

lemma isStorable_condition (h : Fits Double.IsFinite .condition meaning) :
    meaning.wire.IsStorable := by
  cases h with
  | truth hx => exact isStorable_number hx
  | predicate hblock =>
    rw [Meaning.wire]
    exact .predicate hblock

/-- What a variable can hold can be stored. -/
lemma isStorable_content (h : Fits Double.IsFinite .content meaning) :
    meaning.wire.IsStorable := by
  cases h with
  | operandContent h => exact h.isStorable_operand
  | conditionContent h => exact h.isStorable_condition

end Fits

/-- A command that sets a variable sets it to what a variable can hold. -/
lemma IsBlock.fits_of_setVariable {admissible : Double → Prop} {name value : Meaning}
    (h : IsBlock admissible .command (.mk Opcode.setVariable [name, value])) :
    Fits admissible .content value := by
  have hslots : ∀ form ∈ BlockKind.command.forms, form.1 = Opcode.setVariable →
      form.2 = [.text, .content] := by
    decide
  cases h with
  | intro form fill =>
    obtain rfl := hslots _ form rfl
    cases fill with
    | cons _ fill =>
    cases fill with
    | cons hvalue _ => exact hvalue

/-! ### Changes -/

namespace Session.Sound

variable {recorded : Bool} {session : Session} {name : String}

lemma store (h : session.Sound recorded) {value : Json} (hvalue : value.IsStorable) :
    (session.store name value).Sound recorded where
  lists := h.lists
  vars other found hfound := by
    rw [Session.store, Dictionary.get?_insert] at hfound
    split at hfound
    · exact Option.some.inj hfound ▸ hvalue
    · exact h.vars other found hfound
  recording := h.recording
  program := h.program

lemma declareVariables (h : session.Sound recorded) (names : List String) :
    Sound recorded
      { session with environment := names.foldl .declareVariable session.environment } := by
  induction names generalizing session with
  | nil => exact h
  | cons name rest ih => exact ih (h.store (.number _))

lemma declareList (h : session.Sound recorded) :
    Sound recorded { session with environment := session.environment.declareList name } where
  lists other items hitems := by
    rw [Environment.declareList, Dictionary.get?_insert] at hitems
    split at hitems
    · exact (Option.some.inj hitems).symm
    · exact h.lists other items hitems
  vars := h.vars
  recording := h.recording
  program := h.program

lemma eraseVariable (h : session.Sound recorded) :
    Sound recorded { session with environment :=
      { session.environment with vars := session.environment.vars.erase name } } where
  lists := h.lists
  vars other value hvalue := by
    rw [Dictionary.get?_erase] at hvalue
    split at hvalue
    · cases hvalue
    · exact h.vars other value hvalue
  recording := h.recording
  program := h.program

lemma record (h : session.Sound recorded) {sequence : Json} (hsequence : sequence.IsRecordable) :
    (session.record sequence).Sound recorded where
  lists := h.lists
  vars := h.vars
  recording := by rw [Session.record, Option.isSome_map, h.recording]
  program := by
    have hprogram := h.program
    rw [Session.record]
    cases hsequences : session.program with
    | none => exact List.forall_mem_nil _
    | some sequences =>
      rw [hsequences] at hprogram
      exact List.forall_mem_append.mpr ⟨hprogram, List.forall_mem_singleton.mpr hsequence⟩

end Session.Sound

/-- A sequence has the form of its commands. -/
lemma Call.exists_of_scriptBody {call : Call} {position : Nat} {actions : Meaning}
    (h : call.scriptBody position = .ok actions) :
    ∃ blocks, Script.commandsOf actions = .ok blocks ∧
      actions.wire = .array (Meaning.blocksWire blocks) := by
  obtain ⟨part, -, hactions⟩ := bind_eq_ok_iff.mp h
  split at hactions
  · obtain rfl := Except.ok.inj hactions
    exact ⟨_, rfl, rfl⟩
  · obtain ⟨blocks, -, hcommands⟩ := bind_eq_ok_iff.mp hactions
    obtain rfl := Except.ok.inj hcommands
    exact ⟨_, rfl, rfl⟩

/-- Whatever a construction does when it gives a well-formed meaning, the session stays sound. -/
theorem Construction.Does.sound {recorded : Bool} {call : Call} {construction : Construction}
    {before after : Session} {meaning : Meaning} {sense : Sense}
    (h : Construction.Does call construction before meaning after)
    (hmeaning : sense.Admits Double.IsFinite meaning) (hbefore : before.Sound recorded) :
    after.Sound recorded := by
  -- the command that sets a variable is well-formed, and so is what it sets the variable to
  have hset {name value : Meaning}
      (hcommand : meaning = .command (.mk Opcode.setVariable [name, value])) :
      value.wire.IsStorable := by
    subst hcommand
    have hblocks := Language.allCommands_of_commandsOf hmeaning rfl
    exact (hblocks _ (List.mem_singleton.mpr rfl)).fits_of_setVariable.isStorable_content
  cases h with
  | nothing => exact hbefore
  | recordSequence hactions =>
    obtain ⟨blocks, hblocks, hwire⟩ := Call.exists_of_scriptBody hactions
    exact hbefore.record ⟨blocks, Language.allCommands_of_commandsOf hmeaning hblocks, hwire⟩
  | createVariables => exact hbefore.declareVariables _
  | createList => exact hbefore.declareList
  | deleteVariable => exact hbefore.eraseVariable
  | setVariable | scaleVariable => exact hbefore.store (hset rfl)

/-! ### Sentences -/

/-- What each tree preserves is preserved by trees one after another. -/
lemma Threads.preserves {R : Derivation → Session → Meaning → Session → Prop}
    {trees : List Derivation} {before after : Session} {parts : List Meaning}
    {invariant : Session → Prop} (h : Threads R trees before parts after)
    (hR : ∀ tree before part after, R tree before part after → invariant before →
      invariant after) (hbefore : invariant before) : invariant after := by
  induction h with
  | nil => exact hbefore
  | cons h _ ih => exact ih (hR _ _ _ _ h hbefore)

namespace Language

variable {sounds : List String} {numbers : NumberWords}

lemma sound_steps (hnumbers : numbers.Only Double.IsFinite) (recorded : Bool) :
    EvaluationSteps sounds numbers
      (fun _ before _ after => before.Sound recorded → after.Sound recorded) where
  leaf _ hbefore := hbefore
  node {rule children span parts before between meaning after} hrule hcategories _ _ hchildren
      hbuild hbefore := by
    have hgives := gives_of_threads hrule hcategories span hchildren hbuild
    have hmeaning := (ensures_evaluate hnumbers (fun _ hx => hx) _).result hgives
    have hbetween := hchildren.preserves (fun _ _ _ _ h => h.2) hbefore
    exact (Construction.does_of_gives hbuild).sound hmeaning hbetween

/-- A sentence leaves a sound session. -/
theorem sound_of_translate (hnumbers : numbers.Only Double.IsFinite) {tree : Derivation}
    {recorded : Bool} {session : Session} {outcome : Outcome}
    (h : (standard sounds numbers).translate tree session = .ok outcome)
    (hsession : session.Sound recorded) : outcome.session.Sound recorded := by
  obtain ⟨meaning, hmeaning, -⟩ := translate_eq_ok_iff.mp h
  exact (sound_steps hnumbers recorded).evaluate tree _ _ _ hmeaning hsession

end Language

/-! ### Conversations -/

/-- A sentence in a language with those sounds, in which words stand for finite numbers only. -/
structure Sentence where
  sounds : List String
  numbers : NumberWords
  finite : numbers.Only Double.IsFinite
  tree : Derivation

/-- A sentence without sounds, with numerals for numbers. -/
def Sentence.plain (tree : Derivation) : Sentence :=
  ⟨[], .numerals, Language.numerals_only_isFinite, tree⟩

namespace Session

/-- The session after a sentence.  A failure changes nothing. -/
def after (session : Session) (sentence : Sentence) : Session :=
  match (Language.standard sentence.sounds sentence.numbers).translate sentence.tree session with
  | .ok outcome => outcome.session
  | .error _ => session

/-- The session after sentences, one after another. -/
def converse (session : Session) (sentences : List Sentence) : Session :=
  sentences.foldl after session

lemma converse_cons (session : Session) (sentence : Sentence) (rest : List Sentence) :
    converse session (sentence :: rest) = converse (session.after sentence) rest := rfl

lemma after_plain_of_ok {session later : Session} {tree : Derivation} {script : Script}
    (h : (Language.standard [] .numerals).translate tree session = .ok ⟨script, later⟩) :
    session.after (.plain tree) = later := by
  rw [after, Sentence.plain, h]

lemma after_plain_of_error {session : Session} {tree : Derivation} {failure : Failure}
    (h : (Language.standard [] .numerals).translate tree session = .error failure) :
    session.after (.plain tree) = session := by
  rw [after, Sentence.plain, h]

lemma Sound.after {recorded : Bool} {session : Session} (h : session.Sound recorded)
    (sentence : Sentence) : (session.after sentence).Sound recorded := by
  rw [Session.after]
  split
  · next outcome houtcome => exact Language.sound_of_translate sentence.finite houtcome h
  · exact h

lemma Sound.converse {recorded : Bool} {session : Session} (h : session.Sound recorded)
    (sentences : List Sentence) : (session.converse sentences).Sound recorded := by
  induction sentences generalizing session with
  | nil => exact h
  | cons sentence rest ih => exact ih (h.after sentence)

lemma sound_empty : Sound false {} where
  lists _ _ h := by cases h
  vars _ _ h := by cases h
  recording := rfl
  program := List.forall_mem_nil _

lemma sound_recording : Sound true recording where
  lists _ _ h := by cases h
  vars _ _ h := by cases h
  recording := rfl
  program := List.forall_mem_nil _

/-- Whatever is said, the session is sound, and there is a recording if there was one at the
beginning. -/
theorem sound_converse (sentences : List Sentence) :
    (converse {} sentences).Sound false ∧ (converse recording sentences).Sound true :=
  ⟨sound_empty.converse sentences, sound_recording.converse sentences⟩

open PhraseScript.Derivation in
/-- "Then set x to x." -/
def thenSetX : Derivation :=
  let set := apply "DataCommand" [word "Set" "set", word "VARIABLE_NAME" "x", word "To" "to",
    apply "NP" [word "VARIABLE_NAME" "x"]]
  apply "S" [apply "AL" [apply "AP" [apply "SequentialCommand"
    [word "SequenceAdverb" "then", apply "AL" [apply "AP" [set]]]]]]

open PhraseScript.Derivation in
set_option maxRecDepth 1000 in
/-- "Make x", "then set x to x", and "x", which is no sentence: the variable holds an expression,
and what follows "then" is recorded. -/
theorem sound_converse_threeSentences :
    let sentences : List Sentence :=
      [.plain making, .plain thenSetX, .plain (word "VARIABLE_NAME" "x")]
    let expression := Json.array [.string "readVariable", .string "x"]
    (converse {} sentences).Sound false ∧ (converse recording sentences).Sound true ∧
    converse recording sentences =
      { environment := { vars := Dictionary.insert ∅ "x" expression },
        program := some [.array [.array [.string "setVar:to:", .string "x", expression]]] } := by
  intro sentences expression
  obtain ⟨hsound, hrecording⟩ := sound_converse sentences
  refine ⟨hsound, hrecording, ?_⟩
  let made : Session :=
    { environment := { vars := Dictionary.insert ∅ "x" (.int 0) }, program := some [] }
  let stored : Session :=
    { environment := { vars := Dictionary.insert ∅ "x" expression },
      program := some [.array [.array [.string "setVar:to:", .string "x", expression]]] }
  have hmake : (Language.standard [] .numerals).translate making recording =
      .ok ⟨⟨[], made.environment.vars, ∅⟩, made⟩ := by
    rw [Language.translate, Language.interpret, Language.evaluate_standard]
    rfl
  have hset : (Language.standard [] .numerals).translate thenSetX made =
      .ok ⟨⟨[.mk Opcode.setVariable [.text "x", .readVariable "x"]],
        stored.environment.vars, ∅⟩, stored⟩ := by
    rw [Language.translate, Language.interpret, Language.evaluate_standard]
    rfl
  have honly : (Language.standard [] .numerals).translate (word "VARIABLE_NAME" "x") stored =
      .error ⟨.unresolvedTopLevel "variable", none, some "x"⟩ := by
    rw [Language.translate, Language.interpret, Language.evaluate_standard]
    rfl
  rw [converse_cons, after_plain_of_ok hmake, converse_cons, after_plain_of_ok hset, converse_cons,
    after_plain_of_error honly]
  rfl

end Session

end PhraseScript
