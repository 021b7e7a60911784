import Mathlib.Tactic.Lemma
import PhraseScript.Outcome

/-!
# Runs of computations

A computation that can change the session and can fail is known by its runs: from a session it
either *gives* a result, or *fails* with a fault; where the session that a failure leaves matters,
it *stops* with the fault.  The lemmas of this file say how the runs of a composed computation are
made of those of its parts, so that later proofs take a computation apart without opening the
monads behind it.

`Ensures` is the judgement for both ways of ending: every result has one property, every fault
another.
-/

namespace PhraseScript

variable {ε α β : Type}

/-- How a computation ends from a session, and the session that it leaves. -/
def ending (run : ExceptT ε (StateM Session) α) (before : Session) : Except ε α × Session :=
  run.run.run before

/-- From `before` the computation gives a result and leaves `after`. -/
def Gives (run : ExceptT ε (StateM Session) α) (before : Session) (result : α)
    (after : Session) : Prop :=
  ending run before = (.ok result, after)

/-- From `before` the computation fails. -/
def Fails (run : ExceptT ε (StateM Session) α) (before : Session) (fault : ε) : Prop :=
  (ending run before).1 = .error fault

/-- From `before` the computation fails and leaves `after`. -/
def Stops (run : ExceptT ε (StateM Session) α) (before : Session) (fault : ε) (after : Session) :
    Prop :=
  ending run before = (.error fault, after)

lemma bind_eq_ok_iff {value : Except ε α} {next : α → Except ε β} {result : β} :
    value >>= next = .ok result ↔ ∃ found, value = .ok found ∧ next found = .ok result := by
  cases value with
  | error fault => simp [bind, Except.bind]
  | ok found => simp [bind, Except.bind]

section Ending

variable {run : ExceptT ε (StateM Session) α} {next : α → ExceptT ε (StateM Session) β}
  {before after : Session}

@[simp] lemma ending_pure (value : α) (before : Session) :
    ending (pure value : ExceptT ε (StateM Session) α) before = (.ok value, before) := rfl

@[simp] lemma ending_lift (value : Except ε α) (before : Session) :
    ending (liftM value : ExceptT ε (StateM Session) α) before = (value, before) := rfl

lemma ending_bind (run : ExceptT ε (StateM Session) α)
    (next : α → ExceptT ε (StateM Session) β) (before : Session) :
    ending (run >>= next) before =
      match ending run before with
      | (.ok value, between) => ending (next value) between
      | (.error fault, after) => (.error fault, after) := by
  simp only [ending, ExceptT.run, StateT.run, bind, ExceptT.bind, ExceptT.mk, StateT.bind]
  rcases run before with ⟨_ | _, _⟩ <;> rfl

end Ending

section Gives

variable {run : ExceptT ε (StateM Session) α} {next : α → ExceptT ε (StateM Session) β}
  {value result : α} {before after : Session}

@[simp] lemma gives_pure :
    Gives (pure value : ExceptT ε (StateM Session) α) before result after ↔
      value = result ∧ before = after := by
  simp [Gives]

@[simp] lemma gives_lift {value : Except ε α} :
    Gives (liftM value : ExceptT ε (StateM Session) α) before result after ↔
      value = .ok result ∧ before = after := by
  simp [Gives]

@[simp] lemma gives_bind {result : β} :
    Gives (run >>= next) before result after ↔
      ∃ value between, Gives run before value between ∧
        Gives (next value) between result after := by
  simp only [Gives, ending_bind]
  rcases ending run before with ⟨_ | _, _⟩ <;> simp [and_assoc]

/-- A computation ends in one way only. -/
lemma Gives.unique {result' : α} {after' : Session} (h : Gives run before result after)
    (h' : Gives run before result' after') : result = result' ∧ after = after' := by
  simpa using h.symm.trans h'

end Gives

section Fails

variable {run : ExceptT ε (StateM Session) α} {next : α → ExceptT ε (StateM Session) β}
  {fault : ε} {before : Session}

@[simp] lemma fails_pure {value : α} :
    ¬Fails (pure value : ExceptT ε (StateM Session) α) before fault := by
  simp [Fails]

@[simp] lemma fails_lift {value : Except ε α} :
    Fails (liftM value : ExceptT ε (StateM Session) α) before fault ↔ value = .error fault := by
  simp [Fails]

@[simp] lemma fails_bind :
    Fails (run >>= next) before fault ↔
      Fails run before fault ∨
        ∃ value between, Gives run before value between ∧ Fails (next value) between fault := by
  simp only [Fails, Gives, ending_bind]
  rcases ending run before with ⟨_ | _, _⟩ <;> simp [and_assoc]

end Fails

section Stops

variable {run : ExceptT ε (StateM Session) α} {next : α → ExceptT ε (StateM Session) β}
  {fault : ε} {before after : Session}

lemma fails_iff_exists_stops : Fails run before fault ↔ ∃ after, Stops run before fault after := by
  simp only [Fails, Stops]
  obtain ⟨result, after⟩ := ending run before
  simp

lemma not_gives_of_stops (h : Stops run before fault after) {result : α} {other : Session} :
    ¬Gives run before result other := by
  intro hgives
  cases h.symm.trans hgives

@[simp] lemma stops_pure {value : α} :
    ¬Stops (pure value : ExceptT ε (StateM Session) α) before fault after := by
  simp [Stops]

@[simp] lemma stops_lift {value : Except ε α} :
    Stops (liftM value : ExceptT ε (StateM Session) α) before fault after ↔
      value = .error fault ∧ before = after := by
  simp [Stops]

@[simp] lemma stops_bind :
    Stops (run >>= next) before fault after ↔
      Stops run before fault after ∨
        ∃ value between, Gives run before value between ∧
          Stops (next value) between fault after := by
  simp only [Stops, Gives, ending_bind]
  rcases ending run before with ⟨_ | _, _⟩ <;> simp [and_assoc]

end Stops

/-! ### The session -/

section Session

variable {before after : Session}

@[simp] lemma gives_environment {environment : Environment} :
    Gives Construction.environment before environment after ↔
      before.environment = environment ∧ before = after := by
  show (Except.ok before.environment, before) = (Except.ok environment, after) ↔ _
  simp

@[simp] lemma gives_setEnvironment {environment : Environment} {result : Unit} :
    Gives (Construction.setEnvironment environment) before result after ↔
      after = { before with environment } := by
  show ((Except.ok (), { before with environment }) : Except Fault Unit × Session) =
    (Except.ok result, after) ↔ _
  simp [eq_comm]

@[simp] lemma gives_get {result : Session} :
    Gives (get : Attempt Session) before result after ↔ before = result ∧ before = after := by
  show (Except.ok before, before) = (Except.ok result, after) ↔ _
  simp

@[simp] lemma gives_modify {change : Session → Session} {result : Unit} :
    Gives (modify change : Attempt PUnit) before result after ↔ after = change before := by
  show ((Except.ok (), change before) : Except Fault Unit × Session) =
    (Except.ok result, after) ↔ _
  simp [eq_comm]

@[simp] lemma fails_environment {fault : Fault} :
    ¬Fails Construction.environment before fault := by
  intro h
  cases h

@[simp] lemma fails_setEnvironment {environment : Environment} {fault : Fault} :
    ¬Fails (Construction.setEnvironment environment) before fault := by
  intro h
  cases h

@[simp] lemma fails_get {fault : Fault} : ¬Fails (get : Attempt Session) before fault := by
  intro h
  cases h

@[simp] lemma fails_modify {change : Session → Session} {fault : Fault} :
    ¬Fails (modify change : Attempt PUnit) before fault := by
  intro h
  cases h

end Session

/-! ### Judgements on both endings -/

/-- Every value that is not a fault is `good`, every fault is `bad`. -/
structure Yields (value : Except ε α) (good : α → Prop) (bad : ε → Prop) : Prop where
  result : ∀ {result}, value = .ok result → good result
  fault : ∀ {fault}, value = .error fault → bad fault

/-- Every result of a computation is `good`, every fault of it is `bad`. -/
structure Ensures (run : ExceptT ε (StateM Session) α) (good : α → Prop) (bad : ε → Prop) :
    Prop where
  result : ∀ {before result after}, Gives run before result after → good result
  fault : ∀ {before fault}, Fails run before fault → bad fault

section Judgements

variable {good : α → Prop} {bad : ε → Prop}

lemma Yields.ok {value : α} (h : good value) : Yields (.ok value : Except ε α) good bad where
  result he := Except.ok.inj he ▸ h
  fault he := by cases he

lemma Yields.error {fault : ε} (h : bad fault) : Yields (.error fault : Except ε α) good bad where
  result he := by cases he
  fault he := Except.error.inj he ▸ h

lemma Yields.bind {value : Except ε α} {next : α → Except ε β} {good' : β → Prop}
    (h : Yields value good bad) (hnext : ∀ result, good result → Yields (next result) good' bad) :
    Yields (value >>= next) good' bad := by
  rcases value with fault | result
  · exact .error (h.fault rfl)
  · exact hnext result (h.result rfl)

lemma Ensures.pure {value : α} (h : good value) :
    Ensures (pure value : ExceptT ε (StateM Session) α) good bad where
  result he := (gives_pure.mp he).1 ▸ h
  fault he := absurd he fails_pure

lemma Ensures.lift {value : Except ε α} (h : Yields value good bad) :
    Ensures (liftM value : ExceptT ε (StateM Session) α) good bad where
  result he := h.result (gives_lift.mp he).1
  fault he := h.fault (fails_lift.mp he)

lemma Ensures.bind {run : ExceptT ε (StateM Session) α}
    {next : α → ExceptT ε (StateM Session) β} {good' : β → Prop} (h : Ensures run good bad)
    (hnext : ∀ result, good result → Ensures (next result) good' bad) :
    Ensures (run >>= next) good' bad where
  result he := by
    obtain ⟨value, between, hvalue, hresult⟩ := gives_bind.mp he
    exact (hnext value (h.result hvalue)).result hresult
  fault he := by
    rcases fails_bind.mp he with hfault | ⟨value, between, hvalue, hfault⟩
    · exact h.fault hfault
    · exact (hnext value (h.result hvalue)).fault hfault

/-- A judgement holds for any weaker description of the faults. -/
lemma Ensures.weaken {run : ExceptT ε (StateM Session) α} {bad' : ε → Prop}
    (h : Ensures run good bad) (hbad : ∀ fault, bad fault → bad' fault) :
    Ensures run good bad' :=
  ⟨h.result, fun he => hbad _ (h.fault he)⟩

/-- A result may also be described as one that the computation gives. -/
lemma Ensures.given {run : ExceptT ε (StateM Session) α} (h : Ensures run good bad) :
    Ensures run (fun result => good result ∧ ∃ before after, Gives run before result after) bad :=
  ⟨fun he => ⟨h.result he, _, _, he⟩, h.fault⟩

lemma Ensures.environment {bad : Fault → Prop} :
    Ensures Construction.environment (fun _ => True) bad :=
  ⟨fun _ => trivial, fun he => absurd he fails_environment⟩

lemma Ensures.setEnvironment {environment : Environment} {bad : Fault → Prop} :
    Ensures (Construction.setEnvironment environment) (fun _ => True) bad :=
  ⟨fun _ => trivial, fun he => absurd he fails_setEnvironment⟩

lemma Ensures.get {bad : Fault → Prop} :
    Ensures (get : Attempt Session) (fun _ => True) bad :=
  ⟨fun _ => trivial, fun he => absurd he fails_get⟩

lemma Ensures.modify {change : Session → Session} {bad : Fault → Prop} :
    Ensures (modify change : Attempt PUnit) (fun _ => True) bad :=
  ⟨fun _ => trivial, fun he => absurd he fails_modify⟩

end Judgements

/-! ### Trees -/

namespace Language

section Located

variable {category : String} {span : Span} {attempt : Attempt α} {before after : Session}

lemma ending_located (category : String) (span : Span) (attempt : Attempt α)
    (before : Session) :
    ending (located category span attempt) before =
      match ending attempt before with
      | (.ok value, after) => (.ok value, after)
      | (.error fault, after) => (.error ⟨fault, some ⟨category, span⟩, none⟩, after) := by
  delta located ExceptT.adapt
  simp only [ending, ExceptT.run, StateT.run, ExceptT.mk, Functor.map, StateT.map]
  rcases attempt before with ⟨_ | _, _⟩ <;> rfl

@[simp] lemma gives_located {result : α} :
    Gives (located category span attempt) before result after ↔
      Gives attempt before result after := by
  simp only [Gives, ending_located]
  rcases ending attempt before with ⟨_ | _, _⟩ <;> simp

@[simp] lemma fails_located {failure : Failure} :
    Fails (located category span attempt) before failure ↔
      ∃ fault, Fails attempt before fault ∧ failure = ⟨fault, some ⟨category, span⟩, none⟩ := by
  simp only [Fails, ending_located]
  rcases ending attempt before with ⟨_ | _, _⟩ <;> simp [eq_comm]

@[simp] lemma stops_located {failure : Failure} :
    Stops (located category span attempt) before failure after ↔
      ∃ fault, Stops attempt before fault after ∧
        failure = ⟨fault, some ⟨category, span⟩, none⟩ := by
  simp only [Stops, ending_located]
  rcases ending attempt before with ⟨fault | result, stop⟩
  · constructor
    · rintro ⟨⟩
      exact ⟨fault, rfl, rfl⟩
    · rintro ⟨_, ⟨⟩, rfl⟩
      rfl
  · simp

end Located

variable {language : Language} {tree : Derivation} {trees : List Derivation}
  {before after : Session}

/-- Several trees are evaluated one after another. -/
lemma gives_forest_cons {parts : List Meaning} :
    Gives (language.evaluateForest (tree :: trees)) before parts after ↔
      ∃ part between others, Gives (language.evaluate tree) before part between ∧
        Gives (language.evaluateForest trees) between others after ∧ parts = part :: others := by
  simp only [evaluateForest, gives_bind, gives_pure]
  constructor
  · rintro ⟨part, between, hpart, others, after, hothers, rfl, rfl⟩
    exact ⟨part, between, others, hpart, hothers, rfl⟩
  · rintro ⟨part, between, others, hpart, hothers, rfl⟩
    exact ⟨part, between, hpart, others, after, hothers, rfl, rfl⟩

lemma interpret_eq_ok_iff {meaning : Meaning} :
    language.interpret tree before = .ok (meaning, after) ↔
      Gives (language.evaluate tree) before meaning after := by
  simp only [interpret, Gives, ending]
  split <;> simp_all

lemma interpret_eq_error_iff {failure : Failure} :
    language.interpret tree before = .error failure ↔
      Fails (language.evaluate tree) before failure := by
  simp only [interpret, Fails, ending]
  split <;> simp_all

/-- What it means for a sentence to be translated: its tree has a meaning that can be carried
out, and the script shows the environment after it. -/
lemma translate_eq_ok_iff {outcome : Outcome} :
    language.translate tree before = .ok outcome ↔
      ∃ meaning, Gives (language.evaluate tree) before meaning outcome.session ∧
        Script.commandsOf meaning = .ok outcome.script.commands ∧
        outcome.script.environment = outcome.session.environment := by
  simp only [← interpret_eq_ok_iff, translate]
  constructor
  · intro h
    split at h
    · cases h
    · next meaning session hmeaning =>
      rcases hcommands : Script.commandsOf meaning with _ | commands
      · simp [Script.assemble, hcommands, bind, Except.bind] at h
      · simp only [Script.assemble, hcommands, bind, Except.bind, pure, Except.pure,
          Except.ok.injEq] at h
        subst h
        exact ⟨meaning, hmeaning, hcommands, rfl⟩
  · rintro ⟨meaning, hmeaning, hcommands, henvironment⟩
    -- the script is put together from the environment that it shows
    obtain ⟨⟨commands, vars, lists⟩, ⟨environment, program⟩⟩ := outcome
    obtain rfl : environment = ⟨vars, lists⟩ := henvironment.symm
    simp [hmeaning, Script.assemble, hcommands, bind, Except.bind, pure, Except.pure]

end Language

end PhraseScript
