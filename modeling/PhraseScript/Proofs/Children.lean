import PhraseScript.Grammar.Call
import PhraseScript.Proofs.Runs
import PhraseScript.Proofs.Sense

/-!
# Asking for children of known sense

When the sense of a child is known, so is what asking for it in a role can lead to.  Each lemma
of this file takes one of the questions that a rule can ask (`Call.operand`, `Call.actions` and
so on) and says what the answer is like, and which faults remain.

The faults that remain are those of `Call.Tolerates`: a word that is no number, a name that is
not declared, and three ways in which a child does not fit its role although it has the sense
that the rule expects (`Call.Misfit`).
-/

namespace PhraseScript

/-- A resolver gives admissible numbers only. -/
def NumberWords.Only (admissible : Double → Prop) (numbers : NumberWords) : Prop :=
  ∀ word value, numbers word = some value → admissible value

namespace Call

/-- The three ways in which a child of the expected sense does not fit its role: a handler
inside a sequence, a number of times that is not whole or below zero, and a number that is no
place in a list. -/
inductive Misfit (call : Call) (position : Nat) : Role → Meaning.Kind → Prop where
  | handler {blocks : List Block} (h : call.part position = .ok (.handler blocks)) :
      Misfit call position .action .handler
  | count {value : Double} (h : call.number position = .ok value) (hcount : ¬value.IsCount) :
      Misfit call position .wholeCount .number
  | place {value : Double} (h : call.part position = .ok (.number value))
      (hplace : ¬value.IsPlace) : Misfit call position .index .number

/-- The faults that a call can have when its children have the senses that its rule expects. -/
inductive Tolerates (call : Call) : Fault → Prop where
  | notANumber {position : Nat} {word : String} (h : call.part position = .ok (.text word))
      (hword : call.numbers word = none) : Tolerates call (.notANumber word)
  | unknownVariable (name : String) : Tolerates call (.unknownVariable name)
  | unknownList (name : String) : Tolerates call (.unknownList name)
  | misfit {position : Nat} {role : Role} {kind : Meaning.Kind}
      (h : call.Misfit position role kind) :
      Tolerates call (.typeMismatch call.rule.text position role.text kind.name)

/-- There is a child at a position, and it has a sense. -/
def Has (admissible : Double → Prop) (call : Call) (position : Nat) (sense : Sense) : Prop :=
  ∃ meaning, call.part position = .ok meaning ∧ sense.Admits admissible meaning

section

variable {admissible : Double → Prop} {call : Call} {position : Nat} {sense : Sense}
  {environment : Environment}

lemma Has.of_special {special : Sense} (h : call.Has admissible position special)
    (hspecial : special ∈ sense.includes) : call.Has admissible position sense := by
  obtain ⟨meaning, hpart, hmeaning⟩ := h
  exact ⟨meaning, hpart, hmeaning.of_special hspecial⟩

/-- A question that starts by looking at the child is answered by what it makes of the child. -/
lemma Has.yields {α : Type} {next : Meaning → Except Fault α} {good : α → Prop}
    (h : call.Has admissible position sense)
    (hnext : ∀ meaning, call.part position = .ok meaning → sense.Admits admissible meaning →
      Yields (next meaning) good call.Tolerates) :
    Yields (call.part position >>= next) good call.Tolerates := by
  obtain ⟨meaning, hpart, hmeaning⟩ := h
  rw [hpart]
  exact hnext meaning hpart hmeaning

lemma yields_part (h : call.Has admissible position sense) :
    Yields (call.part position) (sense.Admits admissible) call.Tolerates := by
  obtain ⟨meaning, hpart, hmeaning⟩ := h
  rw [hpart]
  exact .ok hmeaning

/-! ### Operands -/

lemma fits_readVariable (name : String) : Fits admissible .value (.readVariable name) :=
  .reporter (.unary (by decide) (.text name))

/-- A meaning that is well-formed as a value, an operand or the content of a variable can be
asked for as an operand. -/
lemma isOperand_of_fits_content {meaning : Meaning} (h : Fits admissible .content meaning) :
    meaning.isOperand = true := by
  cases h with
  | operandContent hoperand =>
    cases hoperand with
    | valueOperand hvalue => cases hvalue <;> rfl
    | textOperand => rfl
  | conditionContent hcondition => cases hcondition <;> rfl

lemma yields_operand (h : call.Has admissible position sense)
    (hsense : sense ∈ Sense.includes .content) :
    Yields (call.operand position) (sense.Admits admissible) call.Tolerates := by
  refine h.yields fun meaning _ hmeaning => ?_
  rw [if_pos (isOperand_of_fits_content (hmeaning.of_special hsense))]
  exact .ok hmeaning

lemma yields_requireVariable {name : String} :
    Yields (environment.requireVariable name) (fun _ => True) call.Tolerates := by
  rw [Environment.requireVariable]
  split
  · exact .ok trivial
  · exact .error (.unknownVariable name)

lemma yields_requireVariables {names : List String} :
    Yields (environment.requireVariables names) (fun _ => True) call.Tolerates := by
  induction names with
  | nil => exact .ok trivial
  | cons name rest ih => exact yields_requireVariable.bind fun _ _ => ih

lemma yields_declaredOperand (h : call.Has admissible position sense)
    (hsense : sense ∈ Sense.includes .content) :
    Yields (call.declaredOperand environment position) (sense.Admits admissible)
      call.Tolerates := by
  refine (yields_operand h hsense).bind fun meaning hmeaning => ?_
  exact yields_requireVariables.bind fun _ _ => .ok hmeaning

lemma yields_looseOperand (hnumbers : call.numbers.Only admissible)
    (h : call.Has admissible position .word) :
    Yields (call.looseOperand position) (Fits admissible .operand) call.Tolerates := by
  refine h.yields fun meaning _ hmeaning => ?_
  cases meaning with
  | number value => exact .ok (.valueOperand (.constant hmeaning))
  | text word =>
    dsimp only
    split
    · next value hvalue => exact .ok (.valueOperand (.constant (hnumbers word value hvalue)))
    · exact .ok (.textOperand word)
  | _ => exact hmeaning.elim

/-! ### Numbers -/

lemma yields_number (hnumbers : call.numbers.Only admissible)
    (h : call.Has admissible position .word) :
    Yields (call.number position) admissible call.Tolerates := by
  refine h.yields fun meaning hpart hmeaning => ?_
  cases meaning with
  | number value => exact .ok hmeaning
  | text word =>
    dsimp only
    split
    · next value hvalue => exact .ok (hnumbers word value hvalue)
    · next hword => exact .error (.notANumber hpart hword)
  | _ => exact hmeaning.elim

lemma yields_count (hnumbers : call.numbers.Only admissible)
    (h : call.Has admissible position .word) :
    Yields (call.count position) (fun value => admissible value ∧ value.IsCount)
      call.Tolerates := by
  -- the equation for the number is kept: a misfit has to say which number was found
  rcases hvalue : call.number position with fault | value
  · simp only [count, hvalue, bind, Except.bind]
    exact .error ((yields_number hnumbers h).fault hvalue)
  · simp only [count, hvalue, bind, Except.bind]
    split
    · next hcount => exact .ok ⟨(yields_number hnumbers h).result hvalue, hcount⟩
    · next hcount => exact .error (.misfit (.count hvalue hcount))

lemma yields_index (h : call.Has admissible position .value) :
    Yields (call.index environment position) (Fits admissible .place) call.Tolerates := by
  refine h.yields fun meaning hpart hmeaning => ?_
  cases hmeaning with
  | constant hx =>
    dsimp only
    split
    · next hplace => exact .ok (.place hx hplace)
    · next hplace => exact .error (.misfit (.place hpart hplace))
  | reporter hblock => exact yields_requireVariables.bind fun _ _ => .ok (.reportedPlace hblock)

/-! ### Names -/

lemma yields_variableName (h : call.Has admissible position .variableName) :
    Yields (call.variableName position) (fun _ => True) call.Tolerates := by
  refine h.yields fun meaning _ hmeaning => ?_
  cases meaning with
  | variableName name => exact .ok trivial
  | _ => exact hmeaning.elim

lemma yields_listName (h : call.Has admissible position .listName) :
    Yields (call.listName position) (fun _ => True) call.Tolerates := by
  refine h.yields fun meaning _ hmeaning => ?_
  cases meaning with
  | listName name => exact .ok trivial
  | _ => exact hmeaning.elim

lemma yields_name (h : call.Has admissible position .name) :
    Yields (call.name position) (fun _ => True) call.Tolerates := by
  refine h.yields fun meaning _ hmeaning => ?_
  cases meaning with
  | text name => exact .ok trivial
  | _ => exact hmeaning.elim

lemma yields_declaredRead (h : call.Has admissible position .variableName) :
    Yields (call.declaredRead environment position) (Fits admissible .value) call.Tolerates :=
  (yields_variableName h).bind fun name _ => yields_requireVariable.bind fun _ _ =>
    .ok (fits_readVariable name)

lemma yields_declaredVariable (h : call.Has admissible position .variableName) :
    Yields (call.declaredVariable environment position) (fun _ => True) call.Tolerates :=
  (yields_variableName h).bind fun _ _ => yields_requireVariable.bind fun _ _ => .ok trivial

lemma yields_declaredList (h : call.Has admissible position .listName) :
    Yields (call.declaredList environment position) (Fits admissible .list) call.Tolerates := by
  refine (yields_listName h).bind fun name _ => ?_
  simp only [Environment.requireList]
  split
  · exact .ok (.list name)
  · exact .error (.unknownList name)

/-! ### Conditions -/

lemma yields_condition (h : call.Has admissible position .condition) :
    Yields (call.condition position) (Fits admissible .condition) call.Tolerates := by
  refine h.yields fun meaning _ hmeaning => ?_
  cases hmeaning with
  | truth hx htruth => exact .ok (.truth hx htruth)
  | predicate hblock => exact .ok (.predicate hblock)

lemma yields_comparator (h : call.Has admissible position .comparator) :
    Yields (call.comparator position) (fun _ => True) call.Tolerates := by
  refine h.yields fun meaning _ hmeaning => ?_
  cases meaning with
  | comparator comparator => exact .ok trivial
  | _ => exact hmeaning.elim

lemma yields_modifier (h : call.Has admissible position .modifier) :
    Yields (call.modifier position) (fun _ => True) call.Tolerates := by
  refine h.yields fun meaning _ hmeaning => ?_
  cases meaning with
  | modifier modifier => exact .ok trivial
  | _ => exact hmeaning.elim

/-! ### Commands -/

/-- The only meaning of an action that cannot be an element of a sequence is a handler. -/
lemma yields_flatten {meaning : Meaning} (hpart : call.part position = .ok meaning)
    (hmeaning : Sense.Admits admissible .action meaning) :
    Yields (call.flatten position meaning) (Sense.AllCommands admissible) call.Tolerates := by
  cases meaning with
  | null => exact .ok (by simp [Sense.AllCommands])
  | command block => exact .ok (by simpa [Sense.AllCommands, Sense.Admits] using hmeaning)
  | commands blocks => exact .ok hmeaning
  | handler blocks => exact .error (.misfit (.handler hpart))
  | _ => exact hmeaning.elim

lemma yields_actions (h : call.Has admissible position .action) :
    Yields (call.actions position) (Sense.AllCommands admissible) call.Tolerates :=
  h.yields fun _ hpart hmeaning => yields_flatten hpart hmeaning

/-- A handler is a whole script, so that asking for a script leaves no fault. -/
lemma yields_scriptBody (h : call.Has admissible position .action) :
    Yields (call.scriptBody position) (Sense.Admits admissible .script) call.Tolerates := by
  refine h.yields fun meaning hpart hmeaning => ?_
  cases meaning with
  | handler blocks => exact .ok hmeaning
  | null | command _ | commands _ =>
    exact (yields_flatten hpart hmeaning).bind fun blocks hblocks => .ok hblocks
  | _ => exact hmeaning.elim

lemma yields_trigger (h : call.Has admissible position .command) :
    Yields (call.trigger position) (IsBlock admissible .command) call.Tolerates := by
  refine h.yields fun meaning _ hmeaning => ?_
  cases meaning with
  | command block => exact .ok hmeaning
  | _ => exact hmeaning.elim

/-! ### Declarations -/

lemma yields_declaration (h : call.Has admissible position .declaration) :
    Yields (call.declaration position) (fun declaration => declaration.kind = .vars)
      call.Tolerates := by
  refine h.yields fun meaning _ hmeaning => ?_
  cases meaning with
  | declaration declaration => exact .ok hmeaning
  | _ => exact hmeaning.elim

lemma yields_variableDeclaration (h : call.Has admissible position .declaration) :
    Yields (call.variableDeclaration position) (fun _ => True) call.Tolerates := by
  refine (yields_declaration h).bind fun declaration hkind => ?_
  rw [hkind]
  exact .ok trivial

end

end Call

end PhraseScript
