import PhraseScript.Proofs.DeepSessions
import PhraseScript.Proofs.MachineRuns

/-!
# Handing sessions over in files

A sentence can be translated in the session of the one before in two ways: the session is passed
on in memory, or one run saves it in a file and the next run loads it from there.  Both do the
same as long as every session that is handed over can be loaded (`ran_throughFiles_eq`).  The
first one that is too deep stops the runs that go through files (`exists_fault_of_handsOver`).
-/

namespace PhraseScript.CommandLine

/-! ### Both ways -/

/-- A sentence to be translated: where its tree is, where the session after it is to be saved,
whether recording is asked for, and the sounds. -/
structure Turn where
  tree : String
  stateOut : String
  recordProgram : Bool
  sounds : List String

section Programs

variable {m : Type → Type} [Monad m] [Host m]

/-- Saves the session of an outcome and prints the rest. -/
def deliver (outcome : Outcome) (stateOut : Option String) : Run m Unit := do
  saveSession outcome.session stateOut
  print "RESULT:OK"
  printScript outcome.script
  match outcome.session.program with
  | some program => print ("PROGRAM_JSON:" ++ (Json.array program).compact)
  | none => return

/-- The session to start from: a saved one, or an empty one. -/
def sessionIn : Option String → Run m Session
  | some path => loadSession path
  | none => pure {}

namespace Turn

/-- The session in which the sentence is translated. -/
def start (turn : Turn) (session : Session) : Session :=
  if turn.recordProgram then session.startRecording else session

/-- The run that translates the sentence in a saved session. -/
def run (turn : Turn) (stateIn : Option String) : Run m Unit :=
  translate turn.tree stateIn (some turn.stateOut) turn.recordProgram turn.sounds

/-- Translates the sentence in a session that is at hand, and gives the one after it. -/
def take (turn : Turn) (session : Session) : Run m Session := do
  let text ← readTree turn.tree
  match (languageWith turn.sounds).translateText text (turn.start session) with
  | .error failure => throw (.sentence failure)
  | .ok outcome =>
    deliver outcome (some turn.stateOut)
    return outcome.session

end Turn

/-- Sentences one after another, each in a run of its own, which loads the session that the run
before has saved. -/
def throughFiles (stateIn : Option String) : List Turn → Run m Unit
  | [] => return
  | turn :: rest => do
    turn.run stateIn
    throughFiles (some turn.stateOut) rest

/-- Sentences one after another, with the session passed on in memory. -/
def inMemory (session : Session) : List Turn → Run m Unit
  | [] => return
  | turn :: rest => do inMemory (← turn.take session) rest

end Programs

/-- In memory, a session is passed on from one of these sentences to the next. -/
inductive HandsOver : Session → Machine → List Turn → Session → Prop where
  | here {turn : Turn} {rest : List Turn} {session after : Session} {machine between : Machine}
      (htake : ran (turn.take session) machine = (.ok after, between)) (hrest : rest ≠ []) :
      HandsOver session machine (turn :: rest) after
  | later {turn : Turn} {rest : List Turn} {session after last : Session}
      {machine between : Machine} (htake : ran (turn.take session) machine = (.ok after, between))
      (h : HandsOver after between rest last) : HandsOver session machine (turn :: rest) last

/-! ### One run -/

section OneRun

variable {machine between : Machine} {turn : Turn} {session after : Session}
  {stateIn : Option String} {path : String}

/-- A run in parts. -/
lemma translate_eq {m : Type → Type} [Monad m] [Host m] (tree : String)
    (stateIn stateOut : Option String) (recordProgram : Bool) (sounds : List String) :
    (translate tree stateIn stateOut recordProgram sounds : Run m Unit) = (do
      let text ← readTree tree
      let session ← sessionIn stateIn
      match (languageWith sounds).translateText text
        (if recordProgram then session.startRecording else session) with
      | .error failure => throw (.sentence failure)
      | .ok outcome => deliver outcome stateOut) := by
  cases stateIn <;> rfl

/-- A tree is read or not, and nothing happens to the machine. -/
lemma ran_readTree (path : String) (machine : Machine) :
    (∃ text, ran (readTree path) machine = (.ok text, machine)) ∨
      ∃ fault, ran (readTree path) machine = (.error fault, machine) := by
  have hmoves := moves_readTree path machine
  rcases heq : ran (readTree path) machine with ⟨fault | text, after⟩
  · rw [heq] at hmoves
    exact .inr ⟨fault, hmoves ▸ rfl⟩
  · rw [heq] at hmoves
    exact .inl ⟨text, hmoves ▸ rfl⟩

/-- A run that finds a session does what is done with it in memory. -/
lemma ran_run (h : ran (sessionIn stateIn) machine = (.ok session, machine)) :
    ran (turn.run stateIn) machine =
      match ran (turn.take session) machine with
      | (.ok _, between) => (.ok (), between)
      | (.error fault, between) => (.error fault, between) := by
  rw [Turn.run, translate_eq, Turn.take]
  obtain ⟨text, htree⟩ | ⟨fault, htree⟩ := ran_readTree turn.tree machine
  · rw [ran_bind_ok htree, ran_bind_ok htree, ran_bind_ok h, ← Turn.start]
    cases (languageWith turn.sounds).translateText text (turn.start session) with
    | error failure => rfl
    | ok outcome =>
      simp only [ran_bind, ran_pure]
      rcases ran (deliver outcome (some turn.stateOut)) machine with ⟨_ | _, _⟩ <;> rfl
  · rw [ran_bind_error htree, ran_bind_error htree]

/-- A run that cannot load its session fails. -/
lemma exists_fault_of_sessionIn {fault : RunFault}
    (h : ran (sessionIn stateIn) machine = (.error fault, machine)) :
    ∃ fault, (ran (turn.run stateIn) machine).1 = .error fault := by
  rw [Turn.run, translate_eq]
  obtain ⟨text, htree⟩ | ⟨fault, htree⟩ := ran_readTree turn.tree machine
  · exact ⟨_, by rw [ran_bind_ok htree, ran_bind_error h]⟩
  · exact ⟨_, by rw [ran_bind_error htree]⟩

/-- A sentence that succeeds delivers its outcome. -/
lemma deliver_of_take (h : ran (turn.take session) machine = (.ok after, between)) :
    ∃ text outcome, ran (readTree turn.tree) machine = (.ok text, machine) ∧
      (languageWith turn.sounds).translateText text (turn.start session) = .ok outcome ∧
      outcome.session = after ∧
      ran (deliver outcome (some turn.stateOut)) machine = (.ok (), between) := by
  rw [Turn.take] at h
  obtain ⟨text, htree⟩ | ⟨fault, htree⟩ := ran_readTree turn.tree machine
  · rw [ran_bind_ok htree] at h
    split at h
    · cases h
    · next outcome htranslate =>
      obtain ⟨_, _, hdeliver, hreturn⟩ := ran_bind_eq_ok.mp h
      obtain ⟨hafter, rfl⟩ := Prod.mk.inj hreturn
      exact ⟨text, outcome, htree, htranslate, Except.ok.inj hafter, hdeliver⟩
  · rw [ran_bind_error htree] at h
    cases h

/-- Sentences lead from reachable sessions to reachable ones. -/
lemma reachable_of_take (h : ran (turn.take session) machine = (.ok after, between))
    (hsession : session.Reachable) : after.Reachable := by
  obtain ⟨text, outcome, -, htranslate, rfl, -⟩ := deliver_of_take h
  have hstart : (turn.start session).Reachable := by
    rw [Turn.start]
    split
    · exact hsession.startRecording
    · exact hsession
  exact hstart.sentence htranslate

/-- After the session has been saved, the outcome is only printed. -/
lemma prints_of_deliver {outcome : Outcome} {stateOut : Option String}
    (h : ran (deliver outcome stateOut) machine = (.ok (), between)) :
    ∃ saved, ran (saveSession outcome.session stateOut) machine = (.ok (), saved) ∧
      saved.Prints between := by
  rw [deliver, ran_bind_eq_ok] at h
  obtain ⟨⟨⟩, saved, hsave, hrest⟩ := h
  have hmoves : Moves Machine.Prints (do
      print "RESULT:OK"
      printScript outcome.script
      match outcome.session.program with
      | some program => print ("PROGRAM_JSON:" ++ (Json.array program).compact)
      | none => return) := by
    refine relates_bind (moves_print _) fun _ => relates_bind (moves_printScript _) fun _ => ?_
    split
    · exact moves_print _
    · exact relates_pure _
  have hprints := hmoves saved
  rw [hrest] at hprints
  exact ⟨saved, hsave, hprints⟩

lemma grows_of_take (h : ran (turn.take session) machine = (.ok after, between)) :
    machine.Grows between := by
  obtain ⟨_, outcome, _, _, rfl, hdeliver⟩ := deliver_of_take h
  obtain ⟨saved, hsave, lines, rfl⟩ := prints_of_deliver hdeliver
  have hgrows := moves_saveSession outcome.session (some turn.stateOut) machine
  rw [hsave] at hgrows
  exact trans_of Machine.Grows hgrows (.printing saved lines)

/-- Where the session has been saved, it is found. -/
lemma readText_of_take (h : ran (turn.take session) machine = (.ok after, between))
    (hsink : machine.entry? (machine.destination turn.stateOut) ≠ some .sink) :
    between.readText turn.stateOut = .ok after.savedText := by
  obtain ⟨_, outcome, _, _, rfl, hdeliver⟩ := deliver_of_take h
  obtain ⟨saved, hsave, lines, rfl⟩ := prints_of_deliver hdeliver
  rw [saved.readText_printing]
  exact readText_of_saveSession hsave hsink

/-- The next run finds the session unless it is too deep. -/
lemma ran_sessionIn_of_take (h : ran (turn.take session) machine = (.ok after, between))
    (hsink : machine.entry? (machine.destination turn.stateOut) ≠ some .sink)
    (hafter : after.Reachable) (hreals : after.RealsReadBack) :
    ran (sessionIn (some turn.stateOut)) between =
      (if after.savedDocument.depth ≤ Json.maxDepth then .ok after else .error .invalidState,
        between) := by
  rw [sessionIn, ran_loadSession (readText_of_take h hsink), hafter.readSaved?_eq hreals]
  by_cases hdepth : after.savedDocument.depth ≤ Json.maxDepth
  · simp only [if_pos hdepth, if_true]
  · simp only [if_neg hdepth]

end OneRun

/-! ### Many runs -/

section ManyRuns

variable {machine between : Machine} {turns rest : List Turn} {turn : Turn}
  {session after : Session} {stateIn : Option String}

/-- No file that a session is saved in is a sink. -/
def KeepsSessions (machine : Machine) (turns : List Turn) : Prop :=
  ∀ turn ∈ turns, machine.entry? (machine.destination turn.stateOut) ≠ some .sink

lemma KeepsSessions.of_grows (h : KeepsSessions machine turns) (hgrows : machine.Grows between) :
    KeepsSessions between turns := by
  intro turn hturn hsink
  rw [hgrows.destination_eq] at hsink
  exact h turn hturn (hgrows.sinks _ hsink)

/-- The first sentence of several, when it succeeds and its session is found by the next. -/
lemma ran_throughFiles_cons (hin : ran (sessionIn stateIn) machine = (.ok session, machine))
    (htake : ran (turn.take session) machine = (.ok after, between)) :
    ran (throughFiles stateIn (turn :: rest)) machine =
      ran (throughFiles (some turn.stateOut) rest) between := by
  rw [throughFiles, ran_bind_ok ((ran_run hin).trans (by rw [htake]))]

/-- While every session that is handed over can be loaded, it makes no difference whether it is
handed over in a file. -/
lemma ran_throughFiles_eq (hin : ran (sessionIn stateIn) machine = (.ok session, machine))
    (hsession : session.Reachable) (hkeeps : KeepsSessions machine turns)
    (hreals : ∀ last, HandsOver session machine turns last → last.RealsReadBack)
    (hdepth : ∀ last, HandsOver session machine turns last →
      last.savedDocument.depth ≤ Json.maxDepth) :
    ran (throughFiles stateIn turns) machine = ran (inMemory session turns) machine := by
  induction turns generalizing session machine stateIn with
  | nil => rfl
  | cons turn rest ih =>
    rcases htake : ran (turn.take session) machine with ⟨fault | after, between⟩
    · rw [throughFiles, inMemory, ran_bind_error htake,
        ran_bind_error ((ran_run hin).trans (by rw [htake]))]
    · rw [ran_throughFiles_cons hin htake, inMemory, ran_bind_ok htake]
      rcases rest with _ | ⟨next, rest⟩
      · rfl
      · obtain ⟨hturn, hrest⟩ := List.forall_mem_cons.mp hkeeps
        have hhere := HandsOver.here htake (List.cons_ne_nil next rest)
        have hload := ran_sessionIn_of_take htake hturn (reachable_of_take htake hsession)
          (hreals after hhere)
        rw [if_pos (hdepth after hhere)] at hload
        exact ih hload (reachable_of_take htake hsession)
          (KeepsSessions.of_grows hrest (grows_of_take htake))
          (fun last hlast => hreals last (.later htake hlast))
          (fun last hlast => hdepth last (.later htake hlast))

/-- A session that is too deep is not handed over. -/
lemma exists_fault_of_deep (hin : ran (sessionIn stateIn) machine = (.ok session, machine))
    (htake : ran (turn.take session) machine = (.ok after, between))
    (hload : ran (sessionIn (some turn.stateOut)) between = (.error .invalidState, between))
    (hrest : rest ≠ []) :
    ∃ fault, (ran (throughFiles stateIn (turn :: rest)) machine).1 = .error fault := by
  obtain ⟨next, rest, rfl⟩ := List.exists_cons_of_ne_nil hrest
  obtain ⟨fault, hfault⟩ : ∃ fault, (ran (next.run _) between).1 = .error fault :=
    exists_fault_of_sessionIn hload
  refine ⟨fault, ?_⟩
  rw [ran_throughFiles_cons hin htake, throughFiles, ran_bind]
  rcases heq : ran (next.run (some turn.stateOut)) between with ⟨_ | _, _⟩
  · rwa [heq] at hfault
  · rw [heq] at hfault
    cases hfault

lemma HandsOver.ne_nil {last : Session} (h : HandsOver session machine turns last) :
    turns ≠ [] := by
  cases h <;> exact List.cons_ne_nil _ _

/-- The first session that is too deep stops the runs. -/
lemma exists_fault_of_handsOver {last : Session}
    (hin : ran (sessionIn stateIn) machine = (.ok session, machine))
    (hsession : session.Reachable) (hkeeps : KeepsSessions machine turns)
    (hreals : ∀ last, HandsOver session machine turns last → last.RealsReadBack)
    (h : HandsOver session machine turns last)
    (hdeep : ¬ last.savedDocument.depth ≤ Json.maxDepth) :
    ∃ fault, (ran (throughFiles stateIn turns) machine).1 = .error fault := by
  induction h generalizing stateIn with
  | here htake hrest =>
    obtain ⟨hturn, -⟩ := List.forall_mem_cons.mp hkeeps
    have hload := ran_sessionIn_of_take htake hturn (reachable_of_take htake hsession)
      (hreals _ (.here htake hrest))
    rw [if_neg hdeep] at hload
    exact exists_fault_of_deep hin htake hload hrest
  | @later turn rest session after last machine between htake hlast ih =>
    obtain ⟨hturn, hrest⟩ := List.forall_mem_cons.mp hkeeps
    have hafter := reachable_of_take htake hsession
    have hload := ran_sessionIn_of_take htake hturn hafter (hreals _ (.here htake hlast.ne_nil))
    -- an earlier session may be too deep already
    by_cases hdepth : after.savedDocument.depth ≤ Json.maxDepth
    · rw [if_pos hdepth] at hload
      rw [ran_throughFiles_cons hin htake]
      exact ih hload hafter (KeepsSessions.of_grows hrest (grows_of_take htake))
        (fun last hlast => hreals last (.later htake hlast)) hdeep
    · rw [if_neg hdepth] at hload
      exact exists_fault_of_deep hin htake hload hlast.ne_nil

end ManyRuns

/-! ### Three sentences -/

section Negations

variable {machine saved : Machine} {turn : Turn} {session : Session} {outcome : Outcome}
  {text script : String}

/-- All that has to go well for a sentence to succeed. -/
lemma exists_ran_take (htree : ran (readTree turn.tree) machine = (.ok text, machine))
    (htranslate : (languageWith turn.sounds).translateText text (turn.start session) = .ok outcome)
    (hsave : ran (saveSession outcome.session (some turn.stateOut)) machine = (.ok (), saved))
    (hwrite : outcome.script.write = .ok script) :
    ∃ lines, ran (turn.take session) machine = (.ok outcome.session, saved.printing lines) := by
  obtain ⟨after, hdeliver⟩ : ∃ after,
      ran (deliver outcome (some turn.stateOut)) machine = (.ok (), after) := by
    rw [deliver, ran_bind_ok hsave, printScript, hwrite]
    cases outcome.session.program <;> exact ⟨_, rfl⟩
  obtain ⟨saved', hsave', lines, rfl⟩ := prints_of_deliver hdeliver
  obtain rfl : saved = saved' := congrArg Prod.snd (hsave.symm.trans hsave')
  refine ⟨lines, ?_⟩
  rw [Turn.take, ran_bind_ok htree, htranslate]
  exact ran_bind_ok hdeliver

/-- A machine with the texts of "make x" and "set x to negative ... negative x" on it. -/
def treesWith (negatives : Nat) : Machine where
  entries := [
    (["make.tree"], .file (some (Bracketed.treeText .making))),
    (["set.tree"], .file (some (Bracketed.treeText (.setting negatives))))]

/-- "Make x." -/
def makeTurn : Turn := ⟨"/make.tree", "/session.json", false, []⟩

/-- "Set x to negative ... negative x." -/
def setTurn : Turn := ⟨"/set.tree", "/session.json", false, []⟩

/-- "Make x", and then twice the other one. -/
def threeTurns : List Turn := [makeTurn, setTurn, setTurn]

/-- A machine on which a session has been saved. -/
def Machine.keeping (machine : Machine) (session : Session) : Machine :=
  machine.put ["session.json"] (.file (some session.savedText))

lemma ran_makeTurn (n : Nat) : ∃ lines, ran (makeTurn.take {}) (treesWith n) =
    (.ok .withX, ((treesWith n).keeping .withX).printing lines) := by
  have htranslate : (languageWith makeTurn.sounds).translateText _ (makeTurn.start {}) = .ok _ :=
    Language.translateText_making
  exact exists_ran_take rfl htranslate rfl rfl

lemma ran_setTurn (n : Nat) (lines : List String) : ∃ after,
    ran (setTurn.take .withX) (((treesWith n).keeping .withX).printing lines) =
      (.ok (.negatedX n), after) := by
  have htree : ran (readTree setTurn.tree) (((treesWith n).keeping .withX).printing lines) =
      (.ok _, _) := rfl
  have htranslate : (languageWith setTurn.sounds).translateText _ (setTurn.start .withX) = .ok _ :=
    Language.translateText_setting n
  have hdeferred : (Meaning.commands
      [.mk Opcode.setVariable [.text "x", negation n]]).firstDeferred? = none := by
    simp [Meaning.firstDeferred?, Meaning.blocksFirstDeferred?, Meaning.blockFirstDeferred?,
      Meaning.operandsFirstDeferred?, Language.firstDeferred?_negation]
  obtain ⟨script, hwrite⟩ : ∃ script, Script.write
      ⟨[.mk Opcode.setVariable [.text "x", negation n]], (Session.negatedX n).environment.vars,
        (Session.negatedX n).environment.lists⟩ = .ok script := by
    rw [Script.write, Meaning.write_eq_ok hdeferred]
    exact ⟨_, rfl⟩
  obtain ⟨_, htake⟩ := exists_ran_take htree htranslate rfl hwrite
  exact ⟨_, htake⟩

lemma keepsSessions_treesWith (n : Nat) : KeepsSessions (treesWith n) threeTurns := by
  have hfree : Machine.entry? (treesWith n) ((treesWith n).destination "/session.json") =
      none := rfl
  simp [KeepsSessions, threeTurns, makeTurn, setTurn, hfree]

lemma handsOver_negatedX (n : Nat) :
    HandsOver {} (treesWith n) threeTurns (.negatedX n) := by
  obtain ⟨_, hmake⟩ := ran_makeTurn n
  obtain ⟨_, hset⟩ := ran_setTurn n _
  exact .later hmake (.here hset (List.cons_ne_nil _ _))

/-- Nothing else than these two sessions is handed over. -/
lemma eq_of_handsOver {n : Nat} {session : Session}
    (h : HandsOver {} (treesWith n) threeTurns session) :
    session = .withX ∨ session = .negatedX n := by
  obtain ⟨_, hmake⟩ := ran_makeTurn n
  obtain ⟨_, hset⟩ := ran_setTurn n _
  cases h with
  | here htake =>
    cases hmake.symm.trans htake
    exact .inl rfl
  | later htake h =>
    cases hmake.symm.trans htake
    cases h with
    | here htake =>
      cases hset.symm.trans htake
      exact .inr rfl
    | later _ h =>
      -- the last sentence hands nothing over
      cases h with
      | here _ hrest => exact absurd rfl hrest
      | later _ h => exact absurd rfl h.ne_nil

lemma realsReadBack_of_handsOver {n : Nat} {session : Session}
    (h : HandsOver {} (treesWith n) threeTurns session) : session.RealsReadBack := by
  obtain rfl | rfl := eq_of_handsOver h
  · exact Session.realsReadBack_withX
  · exact Session.realsReadBack_negatedX n

end Negations

/-! ### Saved sessions -/

/-- A session that sentences lead to is loaded as it was saved, unless it is too deep, and then
it is not loaded at all.  So sentences can be translated in runs of their own, each in the saved
session of the one before, as long as none of these sessions is too deep: the runs print the same
and leave the same files as with the sessions in memory.  The first that is too deep stops the
runs. -/
theorem saved_sessions_unless_deep (session : Session) (machine : Machine) (turns : List Turn) :
    (session.Reachable → session.RealsReadBack →
      Session.readSaved? session.savedText =
        if session.savedDocument.depth ≤ Json.maxDepth then some (Session.schema, session)
        else none) ∧
    (KeepsSessions machine turns →
      (∀ session, HandsOver {} machine turns session → session.RealsReadBack) →
      ((∀ session, HandsOver {} machine turns session →
          session.savedDocument.depth ≤ Json.maxDepth) →
        ran (throughFiles none turns) machine = ran (inMemory {} turns) machine) ∧
      ∀ session, HandsOver {} machine turns session →
        ¬ session.savedDocument.depth ≤ Json.maxDepth →
        ∃ fault, (ran (throughFiles none turns) machine).1 = .error fault) := by
  refine ⟨fun hsession hreals => hsession.readSaved?_eq hreals,
    fun hkeeps hreals => ⟨fun hdepth => ?_, fun session hhands hdeep => ?_⟩⟩
  · exact ran_throughFiles_eq rfl .empty hkeeps hreals hdepth
  · exact exists_fault_of_handsOver rfl .empty hkeeps hreals hhands hdeep

/-- With one negative all sessions are handed over, with 123 the second one is not. -/
theorem saved_sessions_of_threeTurns :
    Session.readSaved? (Session.negatedX 1).savedText =
        some (Session.schema, Session.negatedX 1) ∧
      ran (throughFiles none threeTurns) (treesWith 1) =
        ran (inMemory {} threeTurns) (treesWith 1) ∧
      ∃ fault, (ran (throughFiles none threeTurns) (treesWith 123)).1 = .error fault := by
  have hruns (n : Nat) := (saved_sessions_unless_deep {} (treesWith n) threeTurns).2
    (keepsSessions_treesWith n) fun _ => realsReadBack_of_handsOver
  refine ⟨?_, ?_, ?_⟩
  · have hloads := (saved_sessions_unless_deep (.negatedX 1) {} []).1
    rw [hloads (Session.reachable_negatedX 1) (Session.realsReadBack_negatedX 1), if_pos]
    rw [Session.depth_savedDocument_negatedX]
    decide
  · have hshallow : ∀ session, HandsOver {} (treesWith 1) threeTurns session →
        session.savedDocument.depth ≤ Json.maxDepth := by
      intro session hsession
      obtain rfl | rfl := eq_of_handsOver hsession
      · decide +kernel
      · rw [Session.depth_savedDocument_negatedX]
        decide
    exact (hruns 1).1 hshallow
  · have hdeep : ¬ (Session.negatedX 123).savedDocument.depth ≤ Json.maxDepth := by
      rw [Session.depth_savedDocument_negatedX]
      decide
    exact (hruns 123).2 _ (handsOver_negatedX 123) hdeep

/-- With 123 negatives the saved session is lost. -/
theorem reachable_session_is_lost : ∃ session : Session, session.Reachable ∧
    session.RealsReadBack ∧ Session.readSaved? session.savedText = none :=
  ⟨.negatedX 123, Session.reachable_negatedX 123, Session.realsReadBack_negatedX 123,
    by rw [Session.readSaved?_negatedX]; rfl⟩

end PhraseScript.CommandLine
