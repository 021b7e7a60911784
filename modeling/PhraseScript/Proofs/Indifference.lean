import PhraseScript.Proofs.DeepSessions

/-!
# What stored values do not change

A sentence asks of the environment only which names are declared.  So it does the same in two
sessions in which the same names are declared (`Session.Alike`), whatever is stored under the
names and whether the sequences are recorded: it fails in both with the same failure, or it gives
the same commands in both.  Under each name there is then the same in both sessions, if the
sentence has an effect on it, and otherwise what was there before.

`InStep` compares two computations run from alike sessions.  The main statement is
`Language.translate_alike`.
-/

namespace PhraseScript

/-! ### Sessions in which the same names are declared -/

/-- The same names are declared in two environments. -/
structure Environment.Alike (e e' : Environment) : Prop where
  vars : ∀ name, e.hasVariable name = e'.hasVariable name
  lists : ∀ name, e.hasList name = e'.hasList name

/-- The same names are declared in two sessions. -/
def Session.Alike (s s' : Session) : Prop := s.environment.Alike s'.environment

namespace Environment

variable {e e' : Environment} {name : String}

lemma requireVariable_congr (h : e.Alike e') (name : String) :
    e.requireVariable name = e'.requireVariable name := by
  rw [requireVariable, requireVariable, h.vars]

lemma requireVariables_congr (h : e.Alike e') (names : List String) :
    e.requireVariables names = e'.requireVariables names := by
  induction names with
  | nil => rfl
  | cons name rest ih => rw [requireVariables, requireVariables, requireVariable_congr h, ih]

lemma requireList_congr (h : e.Alike e') (name : String) :
    e.requireList name = e'.requireList name := by
  rw [requireList, requireList, h.lists]

lemma Alike.insert (h : e.Alike e') (name : String) (value value' : Json) :
    Alike { e with vars := e.vars.insert name value }
      { e' with vars := e'.vars.insert name value' } where
  vars other := by
    have hother : e.vars.contains other = e'.vars.contains other := h.vars other
    rw [hasVariable, hasVariable, Dictionary.contains_insert, Dictionary.contains_insert, hother]
  lists := h.lists

lemma Alike.erase (h : e.Alike e') (name : String) :
    Alike { e with vars := e.vars.erase name } { e' with vars := e'.vars.erase name } where
  vars other := by
    have hother : e.vars.contains other = e'.vars.contains other := h.vars other
    rw [hasVariable, hasVariable, Dictionary.contains_erase, Dictionary.contains_erase, hother]
  lists := h.lists

lemma Alike.declareVariables (h : e.Alike e') (names : List String) :
    (names.foldl declareVariable e).Alike (names.foldl declareVariable e') := by
  induction names generalizing e e' with
  | nil => exact h
  | cons name rest ih => exact ih (h.insert name _ _)

lemma Alike.declareList (h : e.Alike e') (name : String) :
    (e.declareList name).Alike (e'.declareList name) where
  vars := h.vars
  lists other := by rw [hasList_declareList, hasList_declareList, h.lists]

end Environment

/-! ### Two computations in step -/

/-- Two computations have ended alike: with results that correspond to each other, or with the
same fault. -/
inductive EndsAlike {ε α β : Type} (R : α → β → Prop) :
    Except ε α × Session → Except ε β × Session → Prop where
  | ok {result : α} {result' : β} {s s' : Session} (h : R result result') (hs : s.Alike s') :
      EndsAlike R (.ok result, s) (.ok result', s')
  | error {fault : ε} {s s' : Session} : EndsAlike R (.error fault, s) (.error fault, s')

/-- From alike sessions two computations end alike. -/
def InStep {ε α β : Type} (R : α → β → Prop) (run : ExceptT ε (StateM Session) α)
    (run' : ExceptT ε (StateM Session) β) : Prop :=
  ∀ ⦃s s' : Session⦄, s.Alike s' → EndsAlike R (ending run s) (ending run' s')

namespace InStep

variable {ε α β γ δ : Type} {R : α → β → Prop} {S : γ → δ → Prop}

lemma pure {result : α} {result' : β} (h : R result result') :
    InStep R (pure result : ExceptT ε (StateM Session) α) (pure result') :=
  fun _ _ hs => .ok h hs

lemma bind {run : ExceptT ε (StateM Session) α} {run' : ExceptT ε (StateM Session) β}
    {next : α → ExceptT ε (StateM Session) γ} {next' : β → ExceptT ε (StateM Session) δ}
    (h : InStep R run run')
    (hnext : ∀ result result', R result result' → InStep S (next result) (next' result')) :
    InStep S (run >>= next) (run' >>= next') := by
  intro s s' hs
  rw [ending_bind, ending_bind]
  generalize hend : ending run s = endOf, hend' : ending run' s' = endOf'
  have hends := h hs
  rw [hend, hend'] at hends
  cases hends with
  | ok hR hs => exact hnext _ _ hR hs
  | error => exact .error

/-- The same question that has nothing to do with the session. -/
lemma lift {value value' : Except ε α} (h : value = value') :
    InStep Eq (liftM value : ExceptT ε (StateM Session) α) (liftM value') := by
  intro s s' hs
  subst h
  rw [ending_lift, ending_lift]
  cases value with
  | error fault => exact .error
  | ok result => exact .ok rfl hs

/-- The same question, and then the same with the same answer. -/
lemma ask {value value' : Except ε α} {next : α → ExceptT ε (StateM Session) γ}
    {next' : α → ExceptT ε (StateM Session) δ} (h : value = value')
    (hnext : ∀ result, InStep S (next result) (next' result)) :
    InStep S (liftM value >>= next) (liftM value' >>= next') :=
  .bind (.lift h) fun _ _ heq => heq ▸ hnext _

lemma environment : InStep Environment.Alike Construction.environment Construction.environment :=
  fun _ _ hs => .ok hs hs

lemma setEnvironment {e e' : Environment} (h : e.Alike e') :
    InStep Eq (Construction.setEnvironment e) (Construction.setEnvironment e') :=
  fun _ _ _ => .ok rfl h

/-- Results of a computation that are all good correspond to each other as good ones. -/
lemma ensured {run : ExceptT ε (StateM Session) α} {good : α → Prop} {bad : ε → Prop}
    (h : InStep Eq run run) (hgood : Ensures run good bad) :
    InStep (fun result result' => result = result' ∧ good result) run run := by
  intro s s' hs
  generalize hend : ending run s = endOf, hend' : ending run s' = endOf'
  have hends := h hs
  rw [hend, hend'] at hends
  cases hends with
  | ok heq hs => exact .ok ⟨heq, hgood.result hend⟩ hs
  | error => exact .error

lemma located {attempt attempt' : Attempt α} (h : InStep Eq attempt attempt') (category : String)
    (span : Span) :
    InStep Eq (Language.located category span attempt)
      (Language.located category span attempt') := by
  intro s s' hs
  rw [Language.ending_located, Language.ending_located]
  generalize hend : ending attempt s = endOf, hend' : ending attempt' s' = endOf'
  have hends := h hs
  rw [hend, hend'] at hends
  cases hends with
  | ok heq hs => exact .ok heq hs
  | error => exact .error

end InStep

/-! ### Questions to the environment -/

namespace Call

variable {e e' : Environment} (h : e.Alike e') (call : Call) (position : Nat)

include h

lemma declaredOperand_congr :
    call.declaredOperand e position = call.declaredOperand e' position := by
  simp only [declaredOperand, Environment.requireVariables_congr h]

lemma declaredRead_congr : call.declaredRead e position = call.declaredRead e' position := by
  simp only [declaredRead, Environment.requireVariable_congr h]

lemma declaredVariable_congr :
    call.declaredVariable e position = call.declaredVariable e' position := by
  simp only [declaredVariable, Environment.requireVariable_congr h]

lemma declaredList_congr : call.declaredList e position = call.declaredList e' position := by
  simp only [declaredList, Environment.requireList_congr h]

lemma index_congr : call.index e position = call.index e' position := by
  simp only [index, Environment.requireVariables_congr h]

lemma amountOf_congr (amount : Amount) :
    Construction.amountOf call e amount = Construction.amountOf call e' amount := by
  cases amount with
  | operand position => exact declaredOperand_congr h call position
  | variableAt position => exact declaredRead_congr h call position

end Call

/-! ### Constructions -/

namespace Construction

variable {call : Call}

lemma inStep_createVariables : InStep Eq (build .createVariables call)
    (build .createVariables call) := by
  refine .ask rfl fun names => ?_
  refine .bind .environment fun e e' h => ?_
  exact .bind (.setEnvironment (h.declareVariables names)) fun _ _ _ => .pure rfl

lemma inStep_createList : InStep Eq (build .createList call) (build .createList call) := by
  refine .ask rfl fun name => ?_
  refine .bind .environment fun e e' h => ?_
  exact .bind (.setEnvironment (h.declareList name)) fun _ _ _ => .pure rfl

/-- An environment that is changed if a variable is declared. -/
lemma inStep_change {e e' : Environment} {name : String} (change : Environment → Environment)
    (h : e.Alike e') (hchange : (change e).Alike (change e')) :
    InStep Environment.Alike
      (liftM (e.requireVariable name >>= fun _ => .ok (change e)) : Attempt Environment)
      (liftM (e'.requireVariable name >>= fun _ => .ok (change e'))) := by
  intro s s' hs
  rw [ending_lift, ending_lift, Environment.requireVariable_congr h]
  cases e'.requireVariable name with
  | error fault => exact .error
  | ok _ => exact .ok hchange hs

lemma inStep_deleteVariable : InStep Eq (build .deleteVariable call)
    (build .deleteVariable call) := by
  refine .ask rfl fun name => ?_
  refine .bind .environment fun e e' h => ?_
  refine .bind (inStep_change (fun e => { e with vars := e.vars.erase name }) h
    (h.erase name)) fun e e' h => ?_
  exact .bind (.setEnvironment h) fun _ _ _ => .pure rfl

lemma inStep_assign (name : String) (value : Meaning) :
    InStep Eq (assign name value) (assign name value) := by
  refine .ask rfl fun wire => ?_
  refine .bind .environment fun e e' h => ?_
  refine .bind (inStep_change (fun e => { e with vars := e.vars.insert name wire }) h
    (h.insert name wire wire)) fun e e' h => ?_
  exact .bind (.setEnvironment h) fun _ _ _ => .pure rfl

lemma inStep_setVariable : InStep Eq (build .setVariable call) (build .setVariable call) := by
  refine .ask rfl fun name => ?_
  refine .bind .environment fun e e' h => ?_
  exact .ask (call.declaredOperand_congr h 3) fun value => inStep_assign name value

lemma inStep_scaleVariable {opcode : String} {amount : Amount} :
    InStep Eq (build (.scaleVariable opcode amount) call)
      (build (.scaleVariable opcode amount) call) := by
  refine .bind .environment fun e e' h => ?_
  refine .ask (call.amountOf_congr h amount) fun value => ?_
  exact .ask (call.declaredVariable_congr h 1) fun name => inStep_assign name _

/-- Sequences that have a form in scripts are recorded if there is a recording. -/
lemma ending_recordSequence
    (h : ∀ actions, call.scriptBody 1 = .ok actions → actions.firstDeferred? = none)
    (before : Session) :
    ending (build .recordSequence call) before = match call.scriptBody 1 with
      | .ok actions => (.ok actions, before.record actions.wire)
      | .error fault => (.error fault, before) := by
  rw [build, ending_bind, ending_lift]
  cases hactions : call.scriptBody 1 with
  | error fault => rfl
  | ok actions =>
    obtain ⟨environment, program⟩ := before
    cases program with
    | none => rfl
    | some sequences =>
      have hwire := Meaning.toWire_eq_ok (h actions hactions)
      show ending (liftM actions.toWire >>= fun wire => modify (·.record wire) >>= fun _ =>
        pure actions) _ = _
      rw [hwire]
      rfl

lemma inStep_recordSequence
    (h : ∀ actions, call.scriptBody 1 = .ok actions → actions.firstDeferred? = none) :
    InStep Eq (build .recordSequence call) (build .recordSequence call) := by
  intro s s' hs
  rw [ending_recordSequence h, ending_recordSequence h]
  cases call.scriptBody 1 with
  | error fault => exact .error
  | ok actions => exact .ok rfl hs

/-- A construction asks only which names are declared, and whether there is a recording does not
matter if what would be recorded has a form in scripts. -/
theorem inStep_build {construction : Construction}
    (h : construction = .recordSequence →
      ∀ actions, call.scriptBody 1 = .ok actions → actions.firstDeferred? = none) :
    InStep Eq (construction.build call) (construction.build call) := by
  cases construction
  case recordSequence => exact inStep_recordSequence (h rfl)
  case createVariables => exact inStep_createVariables
  case createList => exact inStep_createList
  case deleteVariable => exact inStep_deleteVariable
  case setVariable => exact inStep_setVariable
  case scaleVariable => exact inStep_scaleVariable
  -- the others leave the session as it is, and only ask questions
  all_goals
    rw [build]
    repeat' with_reducible first
      | exact .pure rfl
      | exact .lift rfl
      | refine .bind .environment fun _ _ _ => ?_
      | refine .ask rfl fun _ => ?_
      | refine .ask (call.declaredOperand_congr ‹_› _) fun _ => ?_
      | refine .ask (call.declaredVariable_congr ‹_› _) fun _ => ?_
      | refine .ask (call.declaredList_congr ‹_› _) fun _ => ?_
      | refine .ask (call.index_congr ‹_› _) fun _ => ?_
      | refine .ask (call.amountOf_congr ‹_› _) fun _ => ?_

end Construction

/-! ### Trees -/

namespace Language

variable {sounds : List String} {numbers : NumberWords}

/-- What a rule records has a form in scripts. -/
lemma firstDeferred?_of_scriptBody {rule : Grammar.Rule} (hrule : rule ∈ Grammar.standard)
    (hrecord : rule.2 = .recordSequence) {call : Call}
    (hparts : Sense.AdmitsAll (fun _ => True) rule.1.rhs call.parts) {actions : Meaning}
    (hactions : call.scriptBody 1 = .ok actions) : actions.firstDeferred? = none := by
  have hdemands := Grammar.Rule.has_of_demands (Grammar.standard_fitsSenses hrule) hparts
    (congrArg Construction.signature? hrecord)
  have hbody := Call.yields_scriptBody (hdemands (1, .action) (by simp))
  exact Construction.firstDeferred?_eq_none_of_script (hbody.result hactions)

section

variable (sounds numbers)

mutual

/-- From alike sessions the evaluation of a tree ends alike. -/
theorem inStep_evaluate : (tree : Derivation) →
    InStep Eq ((standard sounds numbers).evaluate tree) ((standard sounds numbers).evaluate tree)
  | .leaf category word span => .located (.lift rfl) category span
  | .node lhs rhs children span => by
    have haction : Ensures (located lhs span ((standard sounds numbers).action ⟨lhs, rhs⟩ children))
        _ _ := ensures_located (.node lhs rhs children span) (.lift (yields_action ..))
    refine .bind ((InStep.lift rfl).located lhs span |>.ensured haction) ?_
    rintro _ _ ⟨rfl, hcategories, construction, hrule, rfl⟩
    have hchildren : Ensures ((standard sounds numbers).evaluateForest children)
        (Sense.AdmitsAll (fun _ => True) (children.map Derivation.category)) _ :=
      ensures_evaluateForest (fun _ _ _ => trivial) (fun _ _ => trivial) children
    refine .bind ((inStep_evaluateForest children).ensured hchildren) ?_
    rintro parts _ ⟨rfl, hparts⟩
    rw [hcategories] at hparts
    refine (Construction.inStep_build fun hrecord actions hactions => ?_).located lhs span
    exact firstDeferred?_of_scriptBody hrule hrecord hparts hactions

/-- From alike sessions the evaluation of a forest ends alike. -/
theorem inStep_evaluateForest : (trees : List Derivation) →
    InStep Eq ((standard sounds numbers).evaluateForest trees)
      ((standard sounds numbers).evaluateForest trees)
  | [] => .pure rfl
  | tree :: rest => by
    refine .bind (inStep_evaluate tree) ?_
    rintro part _ rfl
    refine .bind (inStep_evaluateForest rest) ?_
    rintro parts _ rfl
    exact .pure rfl

end

end

end Language

/-! ### What the effects of a tree leave -/

namespace Effect

variable {α : Type} {effects others : List (Effect α)}

/-- The same kinds of change, with the same values, are the same effects. -/
lemma eq_of_map_erase (herase : effects.map erase = others.map erase)
    (hstored : effects.filterMap stored? = others.filterMap stored?) : effects = others := by
  induction effects generalizing others with
  | nil => exact (List.map_eq_nil_iff.mp herase.symm).symm
  | cons effect effects ih =>
    cases others with
    | nil => cases herase
    | cons other others =>
      obtain ⟨hhead, htail⟩ := List.cons.inj herase
      obtain ⟨name, change⟩ := effect
      obtain ⟨name', change'⟩ := other
      obtain rfl : name = name' := congrArg Effect.name hhead
      have hchange := congrArg Effect.change hhead
      -- what the first effects store counts among the values only if they store something
      cases change <;> cases change' <;> cases hchange
      case store.refl value value' =>
        obtain ⟨hvalue, hstored⟩ := List.cons.inj hstored
        rw [(Prod.mk.inj hvalue).2, ih htail hstored]
      all_goals rw [ih htail hstored]

/-- What happens last to a variable is no declaration of a list. -/
lemma lastChange?_ne_declareList (name : String) (effects : List (Effect α)) :
    lastChange? name effects ≠ some .declareList := by
  intro h
  obtain ⟨effect, hlast, hchange⟩ := Option.map_eq_some_iff.mp h
  obtain ⟨-, hconcerns⟩ := List.mem_filter.mp (List.mem_of_getLast? hlast)
  rw [concerns, hchange] at hconcerns
  cases hconcerns

lemma lastChange?_map_erase (name : String) (effects : List (Effect α)) :
    lastChange? name (effects.map erase) =
      ((effects.filter (concerns name)).getLast?).map fun effect => effect.erase.change := by
  have hconcerns : concerns name ∘ erase = (concerns name : Effect α → Bool) :=
    funext (concerns_erase name)
  rw [lastChange?, List.filter_map, hconcerns, List.getLast?_map, Option.map_map]
  rfl

end Effect

/-- Effects have led from two environments to two others.  The variables and lists that they are
about stand for the same in both or are in none, the others stand for what they stood for. -/
structure Environment.ChangedAlike (effects : List (Effect Unit))
    (e e' after after' : Environment) : Prop where
  vars : ∀ name, match Effect.lastChange? name effects with
    | none => after.vars.get? name = e.vars.get? name ∧ after'.vars.get? name = e'.vars.get? name
    | some .deleteVariable => after.vars.get? name = none ∧ after'.vars.get? name = none
    | some _ => ∃ value, after.vars.get? name = some value ∧ after'.vars.get? name = some value
  lists : ∀ name, if ⟨name, .declareList⟩ ∈ effects then
      after.lists.get? name = some [] ∧ after'.lists.get? name = some []
    else after.lists.get? name = e.lists.get? name ∧ after'.lists.get? name = e'.lists.get? name

/-- The same effects with the same values lead to environments that have changed alike. -/
lemma Effect.changedAlike_replay (effects : List (Effect Json)) (e e' : Environment) :
    Environment.ChangedAlike (effects.map erase) e e' (replay effects e) (replay effects e') where
  vars name := by
    rw [get?_replay_eq, get?_replay_eq]
    have hne := lastChange?_ne_declareList name effects
    rw [lastChange?_map_erase]
    rw [lastChange?] at hne ⊢
    cases hlast : (effects.filter (concerns name)).getLast? with
    | none => exact ⟨rfl, rfl⟩
    | some effect =>
      obtain ⟨other, change⟩ := effect
      rw [hlast] at hne
      cases change with
      | declareList => exact absurd rfl hne
      | deleteVariable => exact ⟨rfl, rfl⟩
      | declareVariable | store value => exact ⟨_, rfl, rfl⟩
  lists name := by
    rw [getList?_replay_eq, getList?_replay_eq]
    split <;> exact ⟨rfl, rfl⟩

/-- What comes of a sentence in two sessions: the same failure, or the same commands and
environments that have changed alike, which the scripts show. -/
inductive TranslatedAlike (effects : List (Effect Unit)) (s s' : Session) :
    Except Failure Outcome → Except Failure Outcome → Prop where
  | ok {outcome outcome' : Outcome}
      (commands : outcome.script.commands = outcome'.script.commands)
      (changed : Environment.ChangedAlike effects s.environment s'.environment
        outcome.session.environment outcome'.session.environment)
      (shown : outcome.script.environment = outcome.session.environment)
      (shown' : outcome'.script.environment = outcome'.session.environment) :
      TranslatedAlike effects s s' (.ok outcome) (.ok outcome')
  | error {failure : Failure} : TranslatedAlike effects s s' (.error failure) (.error failure)

namespace Language

variable {sounds : List String} {numbers : NumberWords}

/-- What a tree does to two environments when it means the same from both. -/
lemma changedAlike_of_gives {tree : Derivation} {s s' after after' : Session} {meaning : Meaning}
    (h : Gives ((standard sounds numbers).evaluate tree) s meaning after)
    (h' : Gives ((standard sounds numbers).evaluate tree) s' meaning after') :
    Environment.ChangedAlike tree.effects s.environment s'.environment after.environment
      after'.environment := by
  obtain ⟨effects, herase, hreplay, hstored⟩ := (traced_cases.evaluate tree _ _ _ h).2
  obtain ⟨effects', herase', hreplay', hstored'⟩ := (traced_cases.evaluate tree _ _ _ h').2
  -- the values that are stored are those of the same commands
  obtain rfl := Effect.eq_of_map_erase (herase.trans herase'.symm) (hstored.trans hstored'.symm)
  rw [hreplay, hreplay', ← herase]
  exact Effect.changedAlike_replay effects _ _

/-- Stored values do not matter, nor does a recording.  In two sessions in which the same names
are declared a sentence fails with the same failure, or it gives the same commands and changes
the environments alike. -/
theorem translate_alike (sounds : List String) (numbers : NumberWords) (tree : Derivation)
    {s s' : Session} (h : s.Alike s') :
    TranslatedAlike tree.effects s s' ((standard sounds numbers).translate tree s)
      ((standard sounds numbers).translate tree s') := by
  have hends := inStep_evaluate sounds numbers tree h
  generalize hend : ending ((standard sounds numbers).evaluate tree) s = endOf,
    hend' : ending ((standard sounds numbers).evaluate tree) s' = endOf' at hends
  cases hends with
  | @error failure after after' =>
    have hfails : Fails ((standard sounds numbers).evaluate tree) s failure :=
      congrArg Prod.fst hend
    have hfails' : Fails ((standard sounds numbers).evaluate tree) s' failure :=
      congrArg Prod.fst hend'
    simp only [translate, interpret_eq_error_iff.mpr hfails, interpret_eq_error_iff.mpr hfails']
    exact .error
  | @ok meaning _ after after' heq _ =>
    subst heq
    have hgives : Gives ((standard sounds numbers).evaluate tree) s meaning after := hend
    have hgives' : Gives ((standard sounds numbers).evaluate tree) s' meaning after' := hend'
    simp only [translate, interpret_eq_ok_iff.mpr hgives, interpret_eq_ok_iff.mpr hgives',
      Script.assemble]
    cases Script.commandsOf meaning with
    | error fault => exact .error
    | ok commands => exact .ok rfl (changedAlike_of_gives hgives hgives') rfl rfl

open PhraseScript.Derivation in
/-- "Set x to negative x", whatever there is in x. -/
theorem translate_setting_alike :
    let recorded : Session :=
      { environment := { vars := Dictionary.insert ∅ "x" (.string "five") }, program := some [] }
    Session.withX.Alike recorded ∧ ∃ outcome outcome',
      (standard [] .numerals).translate (setting 1) Session.withX = .ok outcome ∧
        (standard [] .numerals).translate (setting 1) recorded = .ok outcome' ∧
        outcome.script.commands = outcome'.script.commands := by
  intro recorded
  have hempty : Environment.Alike {} {} := ⟨fun _ => rfl, fun _ => rfl⟩
  have halike : Session.withX.Alike recorded := hempty.insert "x" _ _
  obtain ⟨outcome, houtcome⟩ : ∃ outcome,
      (standard [] .numerals).translate (setting 1) Session.withX = .ok outcome :=
    ⟨⟨⟨_, _, _⟩, _⟩, translate_eq_ok_iff.mpr ⟨_, gives_setting 1, rfl, rfl⟩⟩
  have hboth := translate_alike [] .numerals (setting 1) halike
  rw [houtcome] at hboth
  generalize (standard [] .numerals).translate (setting 1) recorded = result at hboth
  cases hboth with
  | ok hcommands => exact ⟨halike, outcome, _, houtcome, rfl, hcommands⟩

end Language

end PhraseScript
