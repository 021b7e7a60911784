import PhraseScript.Proofs.Runs
import PhraseScript.Proofs.Serialization

/-!
# What constructions do to the session

Six constructions change the session, the others leave it as it is.  `Construction.Does` says of
each what it has asked for and what it leaves, and `Construction.does_of_gives` is the only place
where the changes are read off the constructions.
-/

namespace PhraseScript

/-- A computation leaves the session as it is. -/
def Still {α : Type} (run : Attempt α) : Prop :=
  ∀ before result after, Gives run before result after → before = after

section Still

variable {α β : Type}

lemma still_pure (value : α) : Still (pure value : Attempt α) :=
  fun _ _ _ h => (gives_pure.mp h).2

lemma still_lift (value : Except Fault α) : Still (liftM value : Attempt α) :=
  fun _ _ _ h => (gives_lift.mp h).2

lemma still_environment : Still Construction.environment :=
  fun _ _ _ h => (gives_environment.mp h).2

lemma still_bind {run : Attempt α} {next : α → Attempt β} (h : Still run)
    (hnext : ∀ value, Still (next value)) : Still (run >>= next) := by
  intro before result after hgives
  obtain ⟨value, between, hvalue, hresult⟩ := gives_bind.mp hgives
  exact (h _ _ _ hvalue).trans (hnext value _ _ _ hresult)

end Still

/-- Stores a value under the name of a variable. -/
def Session.store (session : Session) (name : String) (value : Json) : Session :=
  { session with environment :=
      { session.environment with vars := session.environment.vars.insert name value } }

/-- Declaring variables leaves the lists as they are. -/
lemma Environment.lists_foldl_declareVariable (names : List String) (environment : Environment) :
    (names.foldl declareVariable environment).lists = environment.lists := by
  induction names generalizing environment with
  | nil => rfl
  | cons name rest ih => exact ih _

namespace Construction

/-- The constructions that change the session. -/
def changesSession : Construction → Bool
  | .recordSequence | .createVariables | .createList | .deleteVariable | .setVariable
  | .scaleVariable _ _ => true
  | _ => false

/-- What a construction does to the session when it gives a meaning. -/
inductive Does (call : Call) : Construction → Session → Meaning → Session → Prop where
  | nothing {construction : Construction} {session : Session} {meaning : Meaning}
      (h : construction.changesSession = false) : Does call construction session meaning session
  /-- A recording goes on, if there is one. -/
  | recordSequence {session : Session} {actions : Meaning}
      (hactions : call.scriptBody 1 = .ok actions) :
      Does call .recordSequence session actions (session.record actions.wire)
  | createVariables {session : Session} {names : List String}
      (hnames : call.variableDeclaration 1 = .ok names) :
      Does call .createVariables session .null
        { session with environment := names.foldl .declareVariable session.environment }
  | createList {session : Session} {name : String} (hname : call.listName 2 = .ok name) :
      Does call .createList session .null
        { session with environment := session.environment.declareList name }
  | deleteVariable {session : Session} {name : String} (hname : call.variableName 1 = .ok name)
      (hdeclared : session.environment.hasVariable name = true) :
      Does call .deleteVariable session .null
        { session with environment :=
            { session.environment with vars := session.environment.vars.erase name } }
  | setVariable {session : Session} {name : String} {value : Meaning}
      (hname : call.variableName 1 = .ok name)
      (hvalue : call.declaredOperand session.environment 3 = .ok value)
      (hdeclared : session.environment.hasVariable name = true) :
      Does call .setVariable session (.command (.mk Opcode.setVariable [.text name, value]))
        (session.store name value.wire)
  | scaleVariable {opcode : String} {amount : Amount} {session : Session} {name : String}
      {operand : Meaning} (hname : call.declaredVariable session.environment 1 = .ok name)
      (hoperand : amountOf call session.environment amount = .ok operand)
      (hdeclared : session.environment.hasVariable name = true) :
      Does call (.scaleVariable opcode amount) session
        (.command (.mk Opcode.setVariable
          [.text name, .expression (.mk opcode [.readVariable name, operand])]))
        (session.store name (Meaning.expression (.mk opcode [.readVariable name, operand])).wire)

variable {call : Call} {before after : Session} {meaning : Meaning}

lemma does_recordSequence (h : Gives (build .recordSequence call) before meaning after) :
    Does call .recordSequence before meaning after := by
  simp only [build, gives_bind, gives_lift, gives_get] at h
  obtain ⟨actions, _, ⟨hactions, rfl⟩, _, _, ⟨rfl, rfl⟩, h⟩ := h
  split at h
  · simp only [gives_bind, gives_lift, gives_modify, gives_pure] at h
    obtain ⟨wire, _, ⟨hwire, rfl⟩, _, _, rfl, rfl, rfl⟩ := h
    rw [Meaning.eq_wire_of_toWire hwire]
    exact .recordSequence hactions
  · next hprogram =>
    obtain ⟨rfl, rfl⟩ := gives_pure.mp h
    -- without a recording nothing is added to it
    have hsame : before.record actions.wire = before := by
      obtain ⟨environment, program⟩ := before
      cases program with
      | none => rfl
      | some sequences => exact absurd rfl hprogram
    have hdoes : Does call .recordSequence before actions (before.record actions.wire) :=
      .recordSequence hactions
    rwa [hsame] at hdoes

lemma does_createVariables (h : Gives (build .createVariables call) before meaning after) :
    Does call .createVariables before meaning after := by
  simp only [build, gives_bind, gives_lift, gives_environment, gives_setEnvironment,
    gives_pure] at h
  obtain ⟨names, _, ⟨hnames, rfl⟩, _, _, ⟨rfl, rfl⟩, _, _, rfl, rfl, rfl⟩ := h
  exact .createVariables hnames

lemma does_createList (h : Gives (build .createList call) before meaning after) :
    Does call .createList before meaning after := by
  simp only [build, gives_bind, gives_lift, gives_environment, gives_setEnvironment,
    gives_pure] at h
  obtain ⟨name, _, ⟨hname, rfl⟩, _, _, ⟨rfl, rfl⟩, _, _, rfl, rfl, rfl⟩ := h
  exact .createList hname

lemma does_deleteVariable (h : Gives (build .deleteVariable call) before meaning after) :
    Does call .deleteVariable before meaning after := by
  simp only [build, gives_bind, gives_lift, gives_environment, gives_setEnvironment,
    gives_pure, Environment.deleteVariable_eq_ok_iff] at h
  obtain ⟨name, _, ⟨hname, rfl⟩, _, _, ⟨rfl, rfl⟩, _, _, ⟨⟨hdeclared, rfl⟩, rfl⟩, _, _, rfl, rfl,
    rfl⟩ := h
  exact .deleteVariable hname hdeclared

/-- What is stored is the value that the command sets. -/
lemma gives_assign {name : String} {value : Meaning}
    (h : Gives (assign name value) before meaning after) :
    meaning = .command (.mk Opcode.setVariable [.text name, value]) ∧
      before.environment.hasVariable name = true ∧ after = before.store name value.wire := by
  simp only [assign, gives_bind, gives_lift, gives_environment, gives_setEnvironment,
    gives_pure, Environment.assign_eq_ok_iff] at h
  obtain ⟨wire, _, ⟨hwire, rfl⟩, _, _, ⟨rfl, rfl⟩, _, _, ⟨⟨hdeclared, rfl⟩, rfl⟩, _, _, rfl, rfl,
    rfl⟩ := h
  rw [Meaning.eq_wire_of_toWire hwire]
  exact ⟨rfl, hdeclared, rfl⟩

lemma does_setVariable (h : Gives (build .setVariable call) before meaning after) :
    Does call .setVariable before meaning after := by
  simp only [build, gives_bind, gives_lift, gives_environment] at h
  obtain ⟨name, _, ⟨hname, rfl⟩, _, _, ⟨rfl, rfl⟩, value, _, ⟨hvalue, rfl⟩, hassign⟩ := h
  obtain ⟨rfl, hdeclared, rfl⟩ := gives_assign hassign
  exact .setVariable hname hvalue hdeclared

lemma does_scaleVariable {opcode : String} {amount : Amount}
    (h : Gives (build (.scaleVariable opcode amount) call) before meaning after) :
    Does call (.scaleVariable opcode amount) before meaning after := by
  simp only [build, gives_bind, gives_lift, gives_environment] at h
  obtain ⟨_, _, ⟨rfl, rfl⟩, operand, _, ⟨hoperand, rfl⟩, name, _, ⟨hname, rfl⟩, hassign⟩ := h
  obtain ⟨rfl, hdeclared, rfl⟩ := gives_assign hassign
  exact .scaleVariable hname hoperand hdeclared

lemma still_build {construction : Construction} (h : construction.changesSession = false)
    (call : Call) : Still (construction.build call) := by
  cases construction <;> simp only [changesSession, reduceCtorEq] at h
  -- none of these does more than ask for children and read the environment
  all_goals
    rw [build]
    repeat' with_reducible first
      | exact still_pure _
      | exact still_lift _
      | exact still_environment
      | refine still_bind ?_ fun _ => ?_

/-- What a construction does when it gives a meaning. -/
theorem does_of_gives {construction : Construction}
    (h : Gives (construction.build call) before meaning after) :
    Does call construction before meaning after := by
  cases hchanges : construction.changesSession with
  | false =>
    obtain rfl := still_build hchanges call _ _ _ h
    exact .nothing hchanges
  | true =>
    cases construction <;> simp only [changesSession, reduceCtorEq] at hchanges
    case recordSequence => exact does_recordSequence h
    case createVariables => exact does_createVariables h
    case createList => exact does_createList h
    case deleteVariable => exact does_deleteVariable h
    case setVariable => exact does_setVariable h
    case scaleVariable => exact does_scaleVariable h

end Construction

end PhraseScript
