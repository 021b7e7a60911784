import PhraseScript.Proofs.DeepSessions

/-!
# Rules change all or nothing

A construction asks for everything that it needs before it changes the session, so one that fails
leaves the session as it was (`Construction.atomic_build`).  One that succeeds changes only what
the scope of its rule (`Grammar.scopeOf`) lets it change: `Scope.Allows` tells, name by name, what
is in the session afterwards.  Both hold whatever the children of the rule mean, and the main
statement is `Grammar.standardTable_atomic`.
-/

namespace PhraseScript

/-- A computation that fails leaves the session as it was. -/
def Atomic {α : Type} (run : Attempt α) : Prop :=
  ∀ before fault after, Stops run before fault after → after = before

section Atomic

variable {α β : Type}

lemma atomic_pure (value : α) : Atomic (pure value : Attempt α) :=
  fun _ _ _ h => absurd h stops_pure

lemma atomic_lift (value : Except Fault α) : Atomic (liftM value : Attempt α) :=
  fun _ _ _ h => (stops_lift.mp h).2.symm

/-- What cannot fail is atomic, whatever it changes. -/
lemma atomic_of_not_fails {run : Attempt α} (h : ∀ before fault, ¬Fails run before fault) :
    Atomic run :=
  fun before fault _ hstops => absurd (fails_iff_exists_stops.mpr ⟨_, hstops⟩) (h before fault)

lemma atomic_environment : Atomic Construction.environment :=
  atomic_of_not_fails fun _ _ => fails_environment

lemma atomic_get : Atomic (get : Attempt Session) :=
  atomic_of_not_fails fun _ _ => fails_get

lemma still_get : Still (get : Attempt Session) :=
  fun _ _ _ h => (gives_get.mp h).2

/-- A computation may go on with one that changes the session as long as it has not changed it
itself. -/
lemma atomic_bind {run : Attempt α} {next : α → Attempt β} (hstill : Still run)
    (hrun : Atomic run) (hnext : ∀ value, Atomic (next value)) : Atomic (run >>= next) := by
  intro before fault after h
  rcases stops_bind.mp h with h | ⟨value, between, hvalue, h⟩
  · exact hrun _ _ _ h
  · exact (hnext value _ _ _ h).trans (hstill _ _ _ hvalue).symm

lemma atomic_lift_bind {value : Except Fault α} {next : α → Attempt β}
    (hnext : ∀ value, Atomic (next value)) : Atomic (liftM value >>= next) :=
  atomic_bind (still_lift _) (atomic_lift _) hnext

lemma atomic_environment_bind {next : Environment → Attempt β}
    (hnext : ∀ environment, Atomic (next environment)) :
    Atomic (Construction.environment >>= next) :=
  atomic_bind still_environment atomic_environment hnext

/-- A change that cannot fail may be the last thing in a computation. -/
lemma atomic_last {change : Attempt β} (h : ∀ before fault, ¬Fails change before fault)
    (value : α) : Atomic (do let _ ← change; return value) :=
  atomic_of_not_fails fun before fault hfails =>
    (fails_bind.mp hfails).elim (h before fault) fun ⟨_, _, _, hpure⟩ => fails_pure hpure

lemma atomic_setEnvironment (environment : Environment) (value : α) :
    Atomic (do Construction.setEnvironment environment; return value) :=
  atomic_last (fun _ _ => fails_setEnvironment) value

end Atomic

namespace Construction

lemma atomic_assign (name : String) (value : Meaning) : Atomic (assign name value) :=
  atomic_lift_bind fun _ => atomic_environment_bind fun _ =>
    atomic_lift_bind fun _ => atomic_setEnvironment _ _

lemma atomic_recordSequence (call : Call) : Atomic (build .recordSequence call) := by
  rw [build]
  refine atomic_lift_bind fun actions => atomic_bind still_get atomic_get fun session => ?_
  split
  · exact atomic_lift_bind fun wire => atomic_last (fun _ _ => fails_modify) actions
  · exact atomic_pure actions

/-- A construction that fails has changed nothing. -/
theorem atomic_build (construction : Construction) (call : Call) :
    Atomic (construction.build call) := by
  cases construction
  case recordSequence => exact atomic_recordSequence call
  -- the others ask for children and read the environment; only the last thing can be a change
  all_goals
    rw [build]
    repeat' with_reducible first
      | exact atomic_pure _
      | exact atomic_lift _
      | exact atomic_assign _ _
      | exact atomic_setEnvironment _ _
      | refine atomic_lift_bind fun _ => ?_
      | refine atomic_environment_bind fun _ => ?_

end Construction

/-! ### What a rule may change -/

/-- Of the session only the variables of those names change: they have that value, or are gone. -/
structure Session.ChangesVariables (names : List String) (value : Option Json)
    (before after : Session) : Prop where
  vars : ∀ name, after.environment.vars.get? name =
    if name ∈ names then value else before.environment.vars.get? name
  lists : after.environment.lists = before.environment.lists
  program : after.program = before.program

/-- Of the session only the list of that name changes: it has those items. -/
structure Session.ChangesList (name : String) (items : List Json) (before after : Session) :
    Prop where
  vars : after.environment.vars = before.environment.vars
  lists : ∀ other, after.environment.lists.get? other =
    if other = name then some items else before.environment.lists.get? other
  program : after.program = before.program

/-- What a rule may change in a session. -/
inductive Scope where
  | nothing
  /-- Variables that it declares. -/
  | newVariables
  /-- A list that it declares. -/
  | newList
  /-- A variable that it takes back. -/
  | oldVariable
  /-- The value of a variable. -/
  | value
  /-- The recording, if there is one. -/
  | recording
deriving DecidableEq

/-- A rule of that scope, whose children have the meanings `parts`, may have that meaning and leave
that session. -/
inductive Scope.Allows (parts : List Meaning) (before : Session) :
    Scope → Meaning → Session → Prop where
  | nothing (meaning : Meaning) : Allows parts before .nothing meaning before
  | newVariables {names : List String} {after : Session}
      (hnames : parts[1]? = some (.declaration ⟨.vars, names⟩))
      (hafter : before.ChangesVariables names (some (.int 0)) after) :
      Allows parts before .newVariables .null after
  | newList {name : String} {after : Session} (hname : parts[2]? = some (.listName name))
      (hafter : before.ChangesList name [] after) : Allows parts before .newList .null after
  | oldVariable {name : String} {after : Session}
      (hname : parts[1]? = some (.variableName name))
      (hdeclared : before.environment.hasVariable name = true)
      (hafter : before.ChangesVariables [name] none after) :
      Allows parts before .oldVariable .null after
  /-- The value in the session is the wire form of the one in the command. -/
  | value {name : String} {value : Meaning} {wire : Json} {after : Session}
      (hname : parts[1]? = some (.variableName name))
      (hdeclared : before.environment.hasVariable name = true) (hwire : value.toWire = .ok wire)
      (hafter : before.ChangesVariables [name] (some wire) after) :
      Allows parts before .value (.command (.mk Opcode.setVariable [.text name, value])) after
  | unrecorded {meaning : Meaning} (hprogram : before.program = none) :
      Allows parts before .recording meaning before
  /-- The entry is the wire form of the sequence. -/
  | recorded {meaning : Meaning} {sequences : List Json} {entry : Json}
      (hprogram : before.program = some sequences) (hentry : meaning.toWire = .ok entry) :
      Allows parts before .recording meaning
        { before with program := some (sequences ++ [entry]) }

namespace Call

variable {call : Call} {position : Nat}

lemma getElem?_of_variableName {name : String} (h : call.variableName position = .ok name) :
    call.parts[position]? = some (.variableName name) :=
  part_eq_ok_iff.mp (part_of_variableName h)

lemma getElem?_of_listName {name : String} (h : call.listName position = .ok name) :
    call.parts[position]? = some (.listName name) := by
  obtain ⟨found, hfound, hname⟩ := bind_eq_ok_iff.mp h
  split at hname
  · exact part_eq_ok_iff.mp (Except.ok.inj hname ▸ hfound)
  · cases hname

lemma getElem?_of_variableDeclaration {names : List String}
    (h : call.variableDeclaration position = .ok names) :
    call.parts[position]? = some (.declaration ⟨.vars, names⟩) := by
  obtain ⟨⟨kind, listed⟩, hdeclaration, hnames⟩ := bind_eq_ok_iff.mp h
  obtain ⟨found, hfound, hfit⟩ := bind_eq_ok_iff.mp hdeclaration
  split at hfit
  · cases hfit
    cases kind with
    | vars =>
      cases hnames
      exact part_eq_ok_iff.mp hfound
    | lists => cases hnames
  · cases hfit

end Call

namespace Environment

lemma get?_foldl_declareVariable (names : List String) (environment : Environment)
    (name : String) :
    (names.foldl declareVariable environment).vars.get? name =
      if name ∈ names then some (.int 0) else environment.vars.get? name := by
  induction names generalizing environment with
  | nil => rfl
  | cons first rest ih =>
    rw [List.foldl_cons, ih, declareVariable, Dictionary.get?_insert]
    by_cases hrest : name ∈ rest <;> simp [hrest]

end Environment

namespace Construction

/-- What a construction may change. -/
def scope : Construction → Scope
  | .createVariables => .newVariables
  | .createList => .newList
  | .deleteVariable => .oldVariable
  | .setVariable | .scaleVariable _ _ => .value
  | .recordSequence => .recording
  | _ => .nothing

section

variable {call : Call} {before after : Session} {meaning : Meaning}

lemma scope_eq_nothing {construction : Construction} (h : construction.changesSession = false) :
    construction.scope = .nothing := by
  cases construction <;> first | rfl | cases h

/-- The value that a command sets has a wire form, and this is what is stored. -/
lemma toWire_of_assign {name : String} {value : Meaning}
    (h : Gives (assign name value) before meaning after) : value.toWire = .ok value.wire := by
  obtain ⟨wire, _, hwire, -⟩ := gives_bind.mp h
  obtain ⟨hwire, -⟩ := gives_lift.mp hwire
  rw [hwire, Meaning.eq_wire_of_toWire hwire]

/-- Setting a variable is in the scope of a rule that names the variable at its position. -/
lemma allows_assign {name : String} {value : Meaning}
    (hname : call.variableName 1 = .ok name)
    (h : Gives (assign name value) before meaning after) :
    Scope.value.Allows call.parts before meaning after := by
  have hwire := toWire_of_assign h
  obtain ⟨rfl, hdeclared, rfl⟩ := gives_assign h
  refine .value (Call.getElem?_of_variableName hname) hdeclared hwire ⟨fun other => ?_, rfl, rfl⟩
  rw [Session.store, Dictionary.get?_insert]
  simp

lemma allows_setVariable (h : Gives (build .setVariable call) before meaning after) :
    Scope.value.Allows call.parts before meaning after := by
  simp only [build, gives_bind, gives_lift, gives_environment] at h
  obtain ⟨name, _, ⟨hname, rfl⟩, _, _, ⟨rfl, rfl⟩, value, _, ⟨-, rfl⟩, hassign⟩ := h
  exact allows_assign hname hassign

lemma allows_scaleVariable {opcode : String} {amount : Amount}
    (h : Gives (build (.scaleVariable opcode amount) call) before meaning after) :
    Scope.value.Allows call.parts before meaning after := by
  simp only [build, gives_bind, gives_lift, gives_environment] at h
  obtain ⟨_, _, ⟨rfl, rfl⟩, operand, _, ⟨-, rfl⟩, name, _, ⟨hdeclared, rfl⟩, hassign⟩ := h
  obtain ⟨found, hname, hrest⟩ := bind_eq_ok_iff.mp hdeclared
  obtain ⟨-, -, hfound⟩ := bind_eq_ok_iff.mp hrest
  exact allows_assign (Except.ok.inj hfound ▸ hname) hassign

lemma allows_createVariables (h : Gives (build .createVariables call) before meaning after) :
    Scope.newVariables.Allows call.parts before meaning after := by
  cases does_of_gives h with
  | nothing hchanges => cases hchanges
  | @createVariables _ names hnames =>
    exact .newVariables (Call.getElem?_of_variableDeclaration hnames)
      ⟨Environment.get?_foldl_declareVariable names _,
        Environment.lists_foldl_declareVariable names _, rfl⟩

lemma allows_createList (h : Gives (build .createList call) before meaning after) :
    Scope.newList.Allows call.parts before meaning after := by
  cases does_of_gives h with
  | nothing hchanges => cases hchanges
  | createList hname =>
    exact .newList (Call.getElem?_of_listName hname)
      ⟨rfl, fun other => Dictionary.get?_insert _ _ _ _, rfl⟩

lemma allows_deleteVariable (h : Gives (build .deleteVariable call) before meaning after) :
    Scope.oldVariable.Allows call.parts before meaning after := by
  cases does_of_gives h with
  | nothing hchanges => cases hchanges
  | deleteVariable hname hdeclared =>
    refine .oldVariable (Call.getElem?_of_variableName hname) hdeclared ⟨fun other => ?_, rfl, rfl⟩
    rw [Dictionary.get?_erase]
    simp

lemma allows_recordSequence (h : Gives (build .recordSequence call) before meaning after) :
    Scope.recording.Allows call.parts before meaning after := by
  simp only [build, gives_bind, gives_lift, gives_get] at h
  obtain ⟨actions, _, ⟨-, rfl⟩, _, _, ⟨rfl, rfl⟩, h⟩ := h
  obtain ⟨environment, program⟩ := before
  cases program with
  | none =>
    obtain ⟨rfl, rfl⟩ := gives_pure.mp h
    exact .unrecorded rfl
  | some sequences =>
    simp only [Option.isSome_some, if_true, gives_bind, gives_lift, gives_modify, gives_pure] at h
    obtain ⟨entry, _, ⟨hentry, rfl⟩, _, _, rfl, rfl, rfl⟩ := h
    exact .recorded rfl hentry

/-- A construction that succeeds has changed only what is in its scope. -/
theorem allows_build {construction : Construction}
    (h : Gives (construction.build call) before meaning after) :
    construction.scope.Allows call.parts before meaning after := by
  cases hchanges : construction.changesSession with
  | false =>
    obtain rfl := still_build hchanges call _ _ _ h
    rw [scope_eq_nothing hchanges]
    exact .nothing meaning
  | true =>
    cases construction <;> simp only [changesSession, reduceCtorEq] at hchanges
    case recordSequence => exact allows_recordSequence h
    case createVariables => exact allows_createVariables h
    case createList => exact allows_createList h
    case deleteVariable => exact allows_deleteVariable h
    case setVariable => exact allows_setVariable h
    case scaleVariable => exact allows_scaleVariable h

end

end Construction

/-! ### The rules of the standard grammar -/

namespace Grammar

/-- The rules that change the session, and what they may change in it. -/
def scopes : List (RuleKey × Scope) :=
  [(⟨"CreateCommand", ["Make", "VARIABLE_LIST"]⟩, .newVariables),
    (⟨"CreateCommand", ["Make", "List", "LIST_NAME"]⟩, .newList),
    (⟨"CreateCommand", ["Make", "List", "LIST_NAME", "For", "Det", "Single", "Sprite"]⟩,
      .newList),
    (⟨"CreateCommand", ["Make", "List", "LIST_NAME", "For", "All", "Det", "Sprites"]⟩, .newList),
    (⟨"DataCommand", ["Delete", "VARIABLE_NAME"]⟩, .oldVariable),
    (⟨"DataCommand", ["Set", "VARIABLE_NAME", "To", "BP"]⟩, .value),
    (⟨"DataCommand", ["Set", "VARIABLE_NAME", "To", "NP"]⟩, .value),
    (⟨"DataCommand", ["Set", "VARIABLE_NAME", "To", "ITEM"]⟩, .value),
    (⟨"DataCommand", ["Multiply", "VARIABLE_NAME", "By", "NP"]⟩, .value),
    (⟨"DataCommand", ["Multiply", "VARIABLE_NAME", "By", "VARIABLE_NAME"]⟩, .value),
    (⟨"DataCommand", ["Divide", "VARIABLE_NAME", "By", "NP"]⟩, .value),
    (⟨"DataCommand", ["Divide", "VARIABLE_NAME", "By", "VARIABLE_NAME"]⟩, .value),
    (⟨"SequentialCommand", ["SequenceAdverb", "AL"]⟩, .recording)]

/-- What a rule may change: nothing if it is not among `scopes`. -/
def scopeOf (key : RuleKey) : Scope := (scopes.lookup key).getD .nothing

/-- The constructions of the standard rules have the scopes that are listed. -/
lemma scopeOf_eq_of_mem_standard {rule : Rule} (h : rule ∈ standard) :
    scopeOf rule.1 = rule.2.scope := by
  have hall : standard.all (fun rule => decide (scopeOf rule.1 = rule.2.scope)) = true := by
    decide
  exact of_decide_eq_true (List.all_eq_true.mp hall rule h)

/-- A rule of the standard table that fails leaves the session as it was, and one that succeeds
changes only what is in its scope.  This holds for calls with any children, also with such as no
sentence gives. -/
theorem standardTable_atomic {key : RuleKey} {action : Action}
    (h : standardTable.lookup? key = some action) (call : Call) (before : Session) :
    (∀ fault after, Stops (action call) before fault after → after = before) ∧
      ∀ meaning after, Gives (action call) before meaning after →
        (scopeOf key).Allows call.parts before meaning after := by
  obtain ⟨construction, hrule, rfl⟩ := exists_of_lookup?_standardTable h
  refine ⟨Construction.atomic_build construction call before, fun meaning after hgives => ?_⟩
  rw [scopeOf_eq_of_mem_standard hrule]
  exact Construction.allows_build hgives

/-- "Multiply x by" something with that meaning. -/
def multiplyingX (factor : Meaning) : Call :=
  ⟨⟨"DataCommand", ["Multiply", "VARIABLE_NAME", "By", "NP"]⟩,
    [.null, .variableName "x", .null, factor], fun _ => none⟩

/-- A factor that has no wire form. -/
def looseFactor : Meaning := .expression (.mk Opcode.not [.comparator ⟨.less, none⟩])

/-- The product of `x` and two. -/
def doubledX : Meaning := .expression (.mk Opcode.multiply [.readVariable "x", .number (.ofInt 2)])

/-- Multiplying `x` fails when the product has no wire form, which leaves `x` its value, and else
gives `x` the product of the command. -/
theorem standardTable_atomic_multiplyingX :
    ∃ action, standardTable.lookup? (multiplyingX .null).rule = some action ∧
      Fails (action (multiplyingX looseFactor)) .withX (.noWireForm "comparator") ∧
      (∀ fault after, Stops (action (multiplyingX looseFactor)) .withX fault after →
        after = .withX) ∧
      Gives (action (multiplyingX (.number (.ofInt 2)))) .withX
        (.command (.mk Opcode.setVariable [.text "x", doubledX]))
        (Session.withX.store "x" doubledX.wire) ∧
      Scope.value.Allows (multiplyingX (.number (.ofInt 2))).parts .withX
        (.command (.mk Opcode.setVariable [.text "x", doubledX]))
        (Session.withX.store "x" doubledX.wire) := by
  have hrule : rule "DataCommand" ["Multiply", "VARIABLE_NAME", "By", "NP"]
      (.scaleVariable Opcode.multiply (.operand 3)) ∈ standard := by
    simp [standard, dataRules, rule]
  have hlookup := lookup?_standardTable hrule
  have hdoubled : Gives (Construction.build (.scaleVariable Opcode.multiply (.operand 3))
      (multiplyingX (.number (.ofInt 2)))) .withX
        (.command (.mk Opcode.setVariable [.text "x", doubledX]))
        (Session.withX.store "x" doubledX.wire) := by
    have hwire : doubledX.toWire = .ok doubledX.wire := Meaning.toWire_eq_ok rfl
    simp only [Construction.build, Construction.assign, gives_bind, gives_lift, gives_environment,
      gives_setEnvironment, gives_pure]
    exact ⟨_, _, ⟨rfl, rfl⟩, _, _, ⟨rfl, rfl⟩, "x", _, ⟨rfl, rfl⟩, _, _, ⟨hwire, rfl⟩, _, _,
      ⟨rfl, rfl⟩, _, _, ⟨rfl, rfl⟩, (), _, rfl, rfl, rfl⟩
  refine ⟨_, hlookup, ?_, (standardTable_atomic hlookup _ .withX).1, hdoubled, ?_⟩
  · rfl
  · exact (standardTable_atomic hlookup _ .withX).2 _ _ hdoubled

end Grammar

end PhraseScript
