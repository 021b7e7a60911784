import PhraseScript.Fault
import PhraseScript.Json.Basic

/-!
# Sessions

What one sentence leaves behind for the next: the declared variables and lists with their
values, and, when the program is being recorded, the sequences recorded so far.
-/

namespace PhraseScript

/-- The declared variables and lists with their values. -/
structure Environment where
  vars : Dictionary Json := ∅
  lists : Dictionary (List Json) := ∅

namespace Environment

instance : Inhabited Environment := ⟨{}⟩

/-- Declares a variable, whose value is then zero. -/
def declareVariable (environment : Environment) (name : String) : Environment :=
  { environment with vars := environment.vars.insert name (.int 0) }

/-- Declares a list, which is then empty. -/
def declareList (environment : Environment) (name : String) : Environment :=
  { environment with lists := environment.lists.insert name [] }

/-- There is a variable of that name. -/
def hasVariable (environment : Environment) (name : String) : Bool :=
  environment.vars.contains name

/-- There is a list of that name. -/
def hasList (environment : Environment) (name : String) : Bool :=
  environment.lists.contains name

/-- Asks for a variable. -/
def requireVariable (environment : Environment) (name : String) : Except Fault Unit :=
  if environment.hasVariable name then .ok () else .error (.unknownVariable name)

/-- Asks for several variables, in order. -/
def requireVariables (environment : Environment) : List String → Except Fault Unit
  | [] => .ok ()
  | name :: rest => do
    environment.requireVariable name
    environment.requireVariables rest

/-- Asks for a list. -/
def requireList (environment : Environment) (name : String) : Except Fault Unit :=
  if environment.hasList name then .ok () else .error (.unknownList name)

/-- Gives a declared variable a value. -/
def assign (environment : Environment) (name : String) (value : Json) :
    Except Fault Environment := do
  environment.requireVariable name
  return { environment with vars := environment.vars.insert name value }

/-- Takes back the declaration of a variable. -/
def deleteVariable (environment : Environment) (name : String) : Except Fault Environment := do
  environment.requireVariable name
  return { environment with vars := environment.vars.erase name }

theorem hasVariable_declareVariable (environment : Environment) (name other : String) :
    (environment.declareVariable name).hasVariable other =
      (decide (other = name) || environment.hasVariable other) :=
  environment.vars.contains_insert name other _

@[simp] theorem hasList_declareVariable (environment : Environment) (name other : String) :
    (environment.declareVariable name).hasList other = environment.hasList other := rfl

theorem hasList_declareList (environment : Environment) (name other : String) :
    (environment.declareList name).hasList other =
      (decide (other = name) || environment.hasList other) :=
  environment.lists.contains_insert name other _

@[simp] theorem hasVariable_declareList (environment : Environment) (name other : String) :
    (environment.declareList name).hasVariable other = environment.hasVariable other := rfl

theorem requireVariable_eq_ok_iff {environment : Environment} {name : String} :
    environment.requireVariable name = .ok () ↔ environment.hasVariable name = true := by
  rw [requireVariable]
  split <;> simp_all

theorem requireList_eq_ok_iff {environment : Environment} {name : String} :
    environment.requireList name = .ok () ↔ environment.hasList name = true := by
  rw [requireList]
  split <;> simp_all

theorem requireVariables_eq_ok_iff {environment : Environment} {names : List String} :
    environment.requireVariables names = .ok () ↔
      ∀ name ∈ names, environment.hasVariable name = true := by
  induction names with
  | nil => simp [requireVariables]
  | cons name rest ih =>
    rw [List.forall_mem_cons, ← ih, ← requireVariable_eq_ok_iff, requireVariables]
    cases environment.requireVariable name with
    | error fault => simp [bind, Except.bind]
    | ok _ => simp [bind, Except.bind]

theorem assign_eq_ok_iff {environment after : Environment} {name : String} {value : Json} :
    environment.assign name value = .ok after ↔
      environment.hasVariable name = true ∧
        after = { environment with vars := environment.vars.insert name value } := by
  rw [assign, requireVariable]
  by_cases h : environment.hasVariable name = true
  · rw [if_pos h]
    exact ⟨fun he => ⟨h, (Except.ok.inj he).symm⟩, fun ⟨_, he⟩ => congrArg Except.ok he.symm⟩
  · rw [if_neg h]
    exact ⟨fun he => (nomatch he), fun ⟨ht, _⟩ => absurd ht h⟩

theorem deleteVariable_eq_ok_iff {environment after : Environment} {name : String} :
    environment.deleteVariable name = .ok after ↔
      environment.hasVariable name = true ∧
        after = { environment with vars := environment.vars.erase name } := by
  rw [deleteVariable, requireVariable]
  by_cases h : environment.hasVariable name = true
  · rw [if_pos h]
    exact ⟨fun he => ⟨h, (Except.ok.inj he).symm⟩, fun ⟨_, he⟩ => congrArg Except.ok he.symm⟩
  · rw [if_neg h]
    exact ⟨fun he => (nomatch he), fun ⟨ht, _⟩ => absurd ht h⟩

end Environment

/-- What one sentence leaves for the next: the environment and the recording. -/
structure Session where
  environment : Environment := {}
  /-- The sequences recorded so far, when there is a recording. -/
  program : Option (List Json) := none

namespace Session

instance : Inhabited Session := ⟨{}⟩

/-- An empty session that records. -/
def recording : Session := { program := some [] }

/-- Begins a recording unless there is one. -/
def startRecording (session : Session) : Session :=
  { session with program := some (session.program.getD []) }

/-- Records a sequence, if there is a recording. -/
def record (session : Session) (sequence : Json) : Session :=
  { session with program := session.program.map (· ++ [sequence]) }

end Session

end PhraseScript
