import PhraseScript.Proofs.Indifference

/-!
# Declaring more

A sentence that can be carried out stays so when more names are declared, and it gives the same
commands (`Language.translate_within`).  It asks only for names that have to be declared: no rule
asks for a name that must not be, and one that is declared again is declared anew.

`Follows` compares two computations, the second from a session in which no fewer names are declared.
Unlike `InStep` it says nothing about failures, as the second may well succeed where the first has
failed.
-/

namespace PhraseScript

/-! ### Sessions in which no fewer names are declared -/

/-- What is declared in one environment is declared in the other. -/
structure Environment.Within (e e' : Environment) : Prop where
  vars : ∀ name, e.hasVariable name = true → e'.hasVariable name = true
  lists : ∀ name, e.hasList name = true → e'.hasList name = true

/-- What is declared in one session is declared in the other. -/
def Session.Within (s s' : Session) : Prop := s.environment.Within s'.environment

/-- Two outcomes have the same commands, and what the first leaves declared so does the second. -/
structure Outcome.Within (outcome outcome' : Outcome) : Prop where
  commands : outcome.script.commands = outcome'.script.commands
  session : outcome.session.Within outcome'.session

namespace Environment

variable {e e' : Environment} {name : String}

lemma Within.requireVariable (h : e.Within e') {found : Unit}
    (hname : e.requireVariable name = .ok found) : e'.requireVariable name = .ok found :=
  requireVariable_eq_ok_iff.mpr (h.vars name (requireVariable_eq_ok_iff.mp hname))

lemma Within.requireVariables (h : e.Within e') {names : List String} {found : Unit}
    (hnames : e.requireVariables names = .ok found) : e'.requireVariables names = .ok found :=
  requireVariables_eq_ok_iff.mpr fun name hname =>
    h.vars name (requireVariables_eq_ok_iff.mp hnames name hname)

lemma Within.requireList (h : e.Within e') {found : Unit}
    (hname : e.requireList name = .ok found) : e'.requireList name = .ok found :=
  requireList_eq_ok_iff.mpr (h.lists name (requireList_eq_ok_iff.mp hname))

lemma Within.insert (h : e.Within e') (name : String) (value value' : Json) :
    Within { e with vars := e.vars.insert name value }
      { e' with vars := e'.vars.insert name value' } where
  vars other hother := by
    rw [hasVariable, Dictionary.contains_insert, Bool.or_eq_true] at hother ⊢
    exact hother.imp_right (h.vars other)
  lists := h.lists

lemma Within.erase (h : e.Within e') (name : String) :
    Within { e with vars := e.vars.erase name } { e' with vars := e'.vars.erase name } where
  vars other hother := by
    rw [hasVariable, Dictionary.contains_erase, Bool.and_eq_true] at hother ⊢
    exact hother.imp_right (h.vars other)
  lists := h.lists

lemma Within.declareVariables (h : e.Within e') (names : List String) :
    (names.foldl declareVariable e).Within (names.foldl declareVariable e') := by
  induction names generalizing e e' with
  | nil => exact h
  | cons name rest ih => exact ih (h.insert name _ _)

lemma Within.declareList (h : e.Within e') (name : String) :
    (e.declareList name).Within (e'.declareList name) where
  vars := h.vars
  lists other hother := by
    rw [hasList_declareList, Bool.or_eq_true] at hother ⊢
    exact hother.imp_right (h.lists other)

end Environment

/-! ### A computation that follows another -/

/-- Whatever one computation gives, the other gives something that corresponds to it from every
session in which no fewer names are declared, and no fewer are declared afterwards. -/
def Follows {ε α β : Type} (R : α → β → Prop) (run : ExceptT ε (StateM Session) α)
    (run' : ExceptT ε (StateM Session) β) : Prop :=
  ∀ ⦃s s' : Session⦄, s.Within s' → ∀ ⦃result after⦄, Gives run s result after →
    ∃ result' after', Gives run' s' result' after' ∧ R result result' ∧ after.Within after'

namespace Follows

variable {ε α β γ δ : Type} {R : α → β → Prop} {S : γ → δ → Prop}

lemma pure {result : α} {result' : β} (h : R result result') :
    Follows R (pure result : ExceptT ε (StateM Session) α) (pure result') := by
  intro s s' hs _ _ hgives
  obtain ⟨rfl, rfl⟩ := gives_pure.mp hgives
  exact ⟨result', s', gives_pure.mpr ⟨rfl, rfl⟩, h, hs⟩

lemma bind {run : ExceptT ε (StateM Session) α} {run' : ExceptT ε (StateM Session) β}
    {next : α → ExceptT ε (StateM Session) γ} {next' : β → ExceptT ε (StateM Session) δ}
    (h : Follows R run run')
    (hnext : ∀ result result', R result result' → Follows S (next result) (next' result')) :
    Follows S (run >>= next) (run' >>= next') := by
  intro s s' hs result after hgives
  obtain ⟨value, between, hvalue, hresult⟩ := gives_bind.mp hgives
  obtain ⟨value', between', hvalue', hR, hbetween⟩ := h hs hvalue
  obtain ⟨result', after', hresult', hS, hafter⟩ := hnext _ _ hR hbetween hresult
  exact ⟨result', after', gives_bind.mpr ⟨value', between', hvalue', hresult'⟩, hS, hafter⟩

/-- A question whose answer stays when more is declared. -/
lemma lift {value value' : Except ε α} (h : ∀ ⦃result⦄, value = .ok result → value' = .ok result) :
    Follows Eq (liftM value : ExceptT ε (StateM Session) α) (liftM value') := by
  intro s s' hs result after hgives
  obtain ⟨hvalue, rfl⟩ := gives_lift.mp hgives
  exact ⟨result, s', gives_lift.mpr ⟨h hvalue, rfl⟩, rfl, hs⟩

/-- Such a question, and then the same with the same answer. -/
lemma ask {value value' : Except ε α} {next : α → ExceptT ε (StateM Session) γ}
    {next' : α → ExceptT ε (StateM Session) δ}
    (h : ∀ ⦃result⦄, value = .ok result → value' = .ok result)
    (hnext : ∀ result, Follows S (next result) (next' result)) :
    Follows S (liftM value >>= next) (liftM value' >>= next') :=
  .bind (.lift h) fun _ _ heq => heq ▸ hnext _

/-- A question that has nothing to do with the session, and then the same with the same answer. -/
lemma askSame {value : Except ε α} {next : α → ExceptT ε (StateM Session) γ}
    {next' : α → ExceptT ε (StateM Session) δ}
    (hnext : ∀ result, Follows S (next result) (next' result)) :
    Follows S (liftM value >>= next) (liftM value >>= next') :=
  .ask (fun _ h => h) hnext

lemma environment :
    Follows Environment.Within Construction.environment Construction.environment := by
  intro s s' hs _ _ hgives
  obtain ⟨rfl, rfl⟩ := gives_environment.mp hgives
  exact ⟨_, _, gives_environment.mpr ⟨rfl, rfl⟩, hs, hs⟩

lemma setEnvironment {e e' : Environment} (h : e.Within e') :
    Follows Eq (Construction.setEnvironment e) (Construction.setEnvironment e') := by
  intro s s' hs _ _ hgives
  obtain rfl := gives_setEnvironment.mp hgives
  exact ⟨(), _, gives_setEnvironment.mpr rfl, rfl, h⟩

/-- Results of a computation that are all good correspond to each other as good ones. -/
lemma ensured {run : ExceptT ε (StateM Session) α} {good : α → Prop} {bad : ε → Prop}
    (h : Follows Eq run run) (hgood : Ensures run good bad) :
    Follows (fun result result' => result = result' ∧ good result) run run := by
  intro s s' hs result after hgives
  obtain ⟨result', after', hgives', rfl, hafter⟩ := h hs hgives
  exact ⟨result, after', hgives', ⟨rfl, hgood.result hgives⟩, hafter⟩

lemma located {attempt attempt' : Attempt α} (h : Follows Eq attempt attempt') (category : String)
    (span : Span) :
    Follows Eq (Language.located category span attempt)
      (Language.located category span attempt') := by
  intro s s' hs result after hgives
  obtain ⟨result', after', hgives', heq, hafter⟩ := h hs (Language.gives_located.mp hgives)
  exact ⟨result', after', Language.gives_located.mpr hgives', heq, hafter⟩

end Follows

/-! ### Questions to the environment -/

namespace Call

variable {e e' : Environment} (h : e.Within e') (call : Call) (position : Nat)
  {meaning : Meaning} {name : String}

include h

lemma declaredOperand_within (hask : call.declaredOperand e position = .ok meaning) :
    call.declaredOperand e' position = .ok meaning := by
  simp only [declaredOperand, bind_eq_ok_iff] at hask ⊢
  obtain ⟨found, hfound, ⟨⟩, hdeclared, hmeaning⟩ := hask
  exact ⟨found, hfound, (), h.requireVariables hdeclared, hmeaning⟩

lemma declaredRead_within (hask : call.declaredRead e position = .ok meaning) :
    call.declaredRead e' position = .ok meaning := by
  simp only [declaredRead, bind_eq_ok_iff] at hask ⊢
  obtain ⟨found, hfound, ⟨⟩, hdeclared, hmeaning⟩ := hask
  exact ⟨found, hfound, (), h.requireVariable hdeclared, hmeaning⟩

lemma declaredVariable_within (hask : call.declaredVariable e position = .ok name) :
    call.declaredVariable e' position = .ok name := by
  simp only [declaredVariable, bind_eq_ok_iff] at hask ⊢
  obtain ⟨found, hfound, ⟨⟩, hdeclared, hname⟩ := hask
  exact ⟨found, hfound, (), h.requireVariable hdeclared, hname⟩

lemma declaredList_within (hask : call.declaredList e position = .ok meaning) :
    call.declaredList e' position = .ok meaning := by
  simp only [declaredList, bind_eq_ok_iff] at hask ⊢
  obtain ⟨found, hfound, ⟨⟩, hdeclared, hmeaning⟩ := hask
  exact ⟨found, hfound, (), h.requireList hdeclared, hmeaning⟩

lemma index_within (hask : call.index e position = .ok meaning) :
    call.index e' position = .ok meaning := by
  simp only [index, bind_eq_ok_iff] at hask ⊢
  obtain ⟨found, hfound, hmeaning⟩ := hask
  refine ⟨found, hfound, ?_⟩
  -- only an expression is asked for the variables that it reads
  cases found with
  | expression block =>
    obtain ⟨⟨⟩, hdeclared, hmeaning⟩ := bind_eq_ok_iff.mp hmeaning
    exact bind_eq_ok_iff.mpr ⟨(), h.requireVariables hdeclared, hmeaning⟩
  | _ => exact hmeaning

lemma amountOf_within (amount : Amount)
    (hask : Construction.amountOf call e amount = .ok meaning) :
    Construction.amountOf call e' amount = .ok meaning := by
  cases amount with
  | operand position => exact declaredOperand_within h call position hask
  | variableAt position => exact declaredRead_within h call position hask

end Call

/-! ### Constructions -/

namespace Construction

variable {call : Call}

lemma follows_createVariables : Follows Eq (build .createVariables call)
    (build .createVariables call) := by
  refine .askSame fun names => ?_
  refine .bind .environment fun e e' h => ?_
  exact .bind (.setEnvironment (h.declareVariables names)) fun _ _ _ => .pure rfl

lemma follows_createList : Follows Eq (build .createList call) (build .createList call) := by
  refine .askSame fun name => ?_
  refine .bind .environment fun e e' h => ?_
  exact .bind (.setEnvironment (h.declareList name)) fun _ _ _ => .pure rfl

/-- An environment that is changed if a variable is declared. -/
lemma follows_change {e e' : Environment} {name : String} (change : Environment → Environment)
    (h : e.Within e') (hchange : (change e).Within (change e')) :
    Follows Environment.Within
      (liftM (e.requireVariable name >>= fun _ => .ok (change e)) : Attempt Environment)
      (liftM (e'.requireVariable name >>= fun _ => .ok (change e'))) := by
  intro s s' hs result after hgives
  obtain ⟨hresult, rfl⟩ := gives_lift.mp hgives
  obtain ⟨found, hdeclared, hchanged⟩ := bind_eq_ok_iff.mp hresult
  obtain rfl := Except.ok.inj hchanged
  exact ⟨change e', s',
    gives_lift.mpr ⟨bind_eq_ok_iff.mpr ⟨found, h.requireVariable hdeclared, rfl⟩, rfl⟩, hchange, hs⟩

lemma follows_deleteVariable : Follows Eq (build .deleteVariable call)
    (build .deleteVariable call) := by
  refine .askSame fun name => ?_
  refine .bind .environment fun e e' h => ?_
  refine .bind (follows_change (fun e => { e with vars := e.vars.erase name }) h
    (h.erase name)) fun e e' h => ?_
  exact .bind (.setEnvironment h) fun _ _ _ => .pure rfl

lemma follows_assign (name : String) (value : Meaning) :
    Follows Eq (assign name value) (assign name value) := by
  refine .askSame fun wire => ?_
  refine .bind .environment fun e e' h => ?_
  refine .bind (follows_change (fun e => { e with vars := e.vars.insert name wire }) h
    (h.insert name wire wire)) fun e e' h => ?_
  exact .bind (.setEnvironment h) fun _ _ _ => .pure rfl

lemma follows_setVariable : Follows Eq (build .setVariable call) (build .setVariable call) := by
  refine .askSame fun name => ?_
  refine .bind .environment fun e e' h => ?_
  exact .ask (fun _ => call.declaredOperand_within h 3) fun value => follows_assign name value

lemma follows_scaleVariable {opcode : String} {amount : Amount} :
    Follows Eq (build (.scaleVariable opcode amount) call)
      (build (.scaleVariable opcode amount) call) := by
  refine .bind .environment fun e e' h => ?_
  refine .ask (fun _ => call.amountOf_within h amount) fun value => ?_
  exact .ask (fun _ => call.declaredVariable_within h 1) fun name => follows_assign name _

lemma follows_recordSequence
    (h : ∀ actions, call.scriptBody 1 = .ok actions → actions.firstDeferred? = none) :
    Follows Eq (build .recordSequence call) (build .recordSequence call) := by
  intro s s' hs result after hgives
  rw [Gives, ending_recordSequence h] at hgives
  cases hactions : call.scriptBody 1 with
  | error fault => simp [hactions] at hgives
  | ok actions =>
    rw [hactions] at hgives
    obtain ⟨rfl, rfl⟩ : actions = result ∧ s.record actions.wire = after := by simpa using hgives
    exact ⟨actions, s'.record actions.wire,
      by rw [Gives, ending_recordSequence h, hactions], rfl, hs⟩

/-- A construction never asks for a name that must not be declared. -/
theorem follows_build {construction : Construction}
    (h : construction = .recordSequence →
      ∀ actions, call.scriptBody 1 = .ok actions → actions.firstDeferred? = none) :
    Follows Eq (construction.build call) (construction.build call) := by
  cases construction
  case recordSequence => exact follows_recordSequence (h rfl)
  case createVariables => exact follows_createVariables
  case createList => exact follows_createList
  case deleteVariable => exact follows_deleteVariable
  case setVariable => exact follows_setVariable
  case scaleVariable => exact follows_scaleVariable
  -- the others leave the session as it is, and only ask questions
  all_goals
    rw [build]
    repeat' with_reducible first
      | exact .pure rfl
      | exact .lift fun _ h => h
      | refine .bind .environment fun _ _ _ => ?_
      | refine .askSame fun _ => ?_
      | refine .ask (fun _ => call.declaredOperand_within ‹_› _) fun _ => ?_
      | refine .ask (fun _ => call.declaredVariable_within ‹_› _) fun _ => ?_
      | refine .ask (fun _ => call.declaredList_within ‹_› _) fun _ => ?_
      | refine .ask (fun _ => call.index_within ‹_› _) fun _ => ?_
      | refine .ask (fun _ => call.amountOf_within ‹_› _) fun _ => ?_

end Construction

/-! ### Trees -/

namespace Language

section

variable (sounds : List String) (numbers : NumberWords)

mutual

/-- The evaluation of a tree gives the same when more is declared. -/
theorem follows_evaluate : (tree : Derivation) →
    Follows Eq ((standard sounds numbers).evaluate tree) ((standard sounds numbers).evaluate tree)
  | .leaf category word span => .located (.lift fun _ h => h) category span
  | .node lhs rhs children span => by
    have haction : Ensures (located lhs span ((standard sounds numbers).action ⟨lhs, rhs⟩ children))
        _ _ := ensures_located (.node lhs rhs children span) (.lift (yields_action ..))
    refine .bind ((Follows.lift fun _ h => h).located lhs span |>.ensured haction) ?_
    rintro _ _ ⟨rfl, hcategories, construction, hrule, rfl⟩
    have hchildren : Ensures ((standard sounds numbers).evaluateForest children)
        (Sense.AdmitsAll (fun _ => True) (children.map Derivation.category)) _ :=
      ensures_evaluateForest (fun _ _ _ => trivial) (fun _ _ => trivial) children
    refine .bind ((follows_evaluateForest children).ensured hchildren) ?_
    rintro parts _ ⟨rfl, hparts⟩
    rw [hcategories] at hparts
    refine (Construction.follows_build fun hrecord actions hactions => ?_).located lhs span
    exact firstDeferred?_of_scriptBody hrule hrecord hparts hactions

/-- The evaluation of a forest gives the same when more is declared. -/
theorem follows_evaluateForest : (trees : List Derivation) →
    Follows Eq ((standard sounds numbers).evaluateForest trees)
      ((standard sounds numbers).evaluateForest trees)
  | [] => .pure rfl
  | tree :: rest => by
    refine .bind (follows_evaluate tree) ?_
    rintro part _ rfl
    refine .bind (follows_evaluateForest rest) ?_
    rintro parts _ rfl
    exact .pure rfl

end

end

/-! ### Sentences -/

/-- The outcomes of sentences, each in the session that the one before it leaves. -/
def translateEach (language : Language) : List Derivation → Session →
    Except Failure (List Outcome)
  | [], _ => .ok []
  | tree :: rest, session => do
    let outcome ← language.translate tree session
    let outcomes ← language.translateEach rest outcome.session
    return outcome :: outcomes

lemma translateEach_cons_eq_ok_iff {language : Language} {tree : Derivation}
    {rest : List Derivation} {session : Session} {outcomes : List Outcome} :
    language.translateEach (tree :: rest) session = .ok outcomes ↔
      ∃ outcome others, language.translate tree session = .ok outcome ∧
        language.translateEach rest outcome.session = .ok others ∧
        outcomes = outcome :: others := by
  simp only [translateEach, bind_eq_ok_iff]
  constructor
  · rintro ⟨outcome, houtcome, others, hothers, hcons⟩
    exact ⟨outcome, others, houtcome, hothers, (Except.ok.inj hcons).symm⟩
  · rintro ⟨outcome, others, houtcome, hothers, rfl⟩
    exact ⟨outcome, houtcome, others, hothers, rfl⟩

variable {sounds : List String} {numbers : NumberWords} {s s' : Session}

lemma exists_within_of_translate (h : s.Within s') {tree : Derivation} {outcome : Outcome}
    (houtcome : (standard sounds numbers).translate tree s = .ok outcome) :
    ∃ outcome', (standard sounds numbers).translate tree s' = .ok outcome' ∧
      outcome.Within outcome' := by
  obtain ⟨meaning, hmeaning, hcommands, -⟩ := translate_eq_ok_iff.mp houtcome
  obtain ⟨_, after', hmeaning', rfl, hafter⟩ := follows_evaluate sounds numbers tree h hmeaning
  refine ⟨⟨⟨outcome.script.commands, after'.environment.vars, after'.environment.lists⟩, after'⟩,
    ?_, rfl, hafter⟩
  exact translate_eq_ok_iff.mpr ⟨meaning, hmeaning', hcommands, rfl⟩

lemma exists_within_of_translateEach (h : s.Within s') {trees : List Derivation}
    {outcomes : List Outcome}
    (houtcomes : (standard sounds numbers).translateEach trees s = .ok outcomes) :
    ∃ outcomes', (standard sounds numbers).translateEach trees s' = .ok outcomes' ∧
      List.Forall₂ Outcome.Within outcomes outcomes' := by
  induction trees generalizing s s' outcomes with
  | nil =>
    obtain rfl := Except.ok.inj houtcomes
    exact ⟨[], rfl, .nil⟩
  | cons tree rest ih =>
    obtain ⟨outcome, others, houtcome, hothers, rfl⟩ := translateEach_cons_eq_ok_iff.mp houtcomes
    obtain ⟨outcome', houtcome', hwithin⟩ := exists_within_of_translate h houtcome
    obtain ⟨others', hothers', hall⟩ := ih hwithin.session hothers
    exact ⟨outcome' :: others',
      translateEach_cons_eq_ok_iff.mpr ⟨outcome', others', houtcome', hothers', rfl⟩,
      .cons hwithin hall⟩

/-- Declaring more never hurts, whatever is stored under the names.  A sentence that can be carried
out can be carried out with more names declared, with the same commands, and no fewer names are
declared after it; so can sentences one after another. -/
theorem translate_within (sounds : List String) (numbers : NumberWords) {s s' : Session}
    (h : s.Within s') :
    (∀ tree outcome, (standard sounds numbers).translate tree s = .ok outcome →
      ∃ outcome', (standard sounds numbers).translate tree s' = .ok outcome' ∧
        outcome.Within outcome') ∧
    ∀ trees outcomes, (standard sounds numbers).translateEach trees s = .ok outcomes →
      ∃ outcomes', (standard sounds numbers).translateEach trees s' = .ok outcomes' ∧
        List.Forall₂ Outcome.Within outcomes outcomes' :=
  ⟨fun _ _ => exists_within_of_translate h, fun _ _ => exists_within_of_translateEach h⟩

open PhraseScript.Derivation in
/-- "Set x to negative x", and the same after "make x", with another variable and a list declared
and with a recording. -/
theorem translate_within_setting :
    let busy : Session :=
      { environment := ⟨Dictionary.insert (Dictionary.insert ∅ "y" (.string "five")) "x" .null,
          Dictionary.insert ∅ "l" []⟩
        program := some [] }
    Session.withX.Within busy ∧ Session.Within {} busy ∧
    (∃ outcome outcome', (standard [] .numerals).translate (setting 1) Session.withX = .ok outcome ∧
      (standard [] .numerals).translate (setting 1) busy = .ok outcome' ∧
      outcome.Within outcome') ∧
    ∃ outcomes outcomes',
      (standard [] .numerals).translateEach [making, setting 1] {} = .ok outcomes ∧
      (standard [] .numerals).translateEach [making, setting 1] busy = .ok outcomes' ∧
      List.Forall₂ Outcome.Within outcomes outcomes' := by
  intro busy
  have hempty (e : Environment) : Environment.Within {} e :=
    ⟨fun _ h => (nomatch h), fun _ h => (nomatch h)⟩
  have hwithin : Session.withX.Within busy := (hempty ⟨_, _⟩).insert "x" _ _
  have hnothing : Session.Within {} busy := hempty busy.environment
  obtain ⟨made, hmade, hleft⟩ : ∃ outcome,
      (standard [] .numerals).translate making {} = .ok outcome ∧
        outcome.session = Session.withX :=
    ⟨⟨⟨_, _, _⟩, _⟩, translate_eq_ok_iff.mpr ⟨_, gives_making, rfl, rfl⟩, rfl⟩
  obtain ⟨set, hset⟩ : ∃ outcome,
      (standard [] .numerals).translate (setting 1) Session.withX = .ok outcome :=
    ⟨⟨⟨_, _, _⟩, _⟩, translate_eq_ok_iff.mpr ⟨_, gives_setting 1, rfl, rfl⟩⟩
  have hboth : (standard [] .numerals).translateEach [making, setting 1] {} = .ok [made, set] :=
    translateEach_cons_eq_ok_iff.mpr ⟨made, [set], hmade,
      translateEach_cons_eq_ok_iff.mpr ⟨set, [], hleft ▸ hset, rfl, rfl⟩, rfl⟩
  obtain ⟨set', hset', houtcome⟩ := (translate_within [] .numerals hwithin).1 _ _ hset
  obtain ⟨outcomes', houtcomes', hall⟩ := (translate_within [] .numerals hnothing).2 _ _ hboth
  exact ⟨hwithin, hnothing, ⟨set, set', hset, hset', houtcome⟩, _, outcomes', hboth, houtcomes',
    hall⟩

end Language

end PhraseScript
