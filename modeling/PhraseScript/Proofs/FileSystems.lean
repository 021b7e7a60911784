import Mathlib.Logic.Function.Basic
import PhraseScript.Proofs.Handovers
import PhraseScript.Proofs.ScriptTexts

/-!
# Runs on file systems

A *file system* (`FileSystem`) is any surroundings of the program in which a write replaces the
contents of one file or changes no file.  On each of them a run that translates a tree does all or
nothing (`run_translate_all_or_nothing`): it prints a result, and has then saved the session if
asked to, or it prints why it failed, and has not changed the contents of any file.

What makes this work is an order of steps: everything that can fail comes before the session is
saved, or is the saving itself.  That nothing fails afterwards needs that every translated script
has a text (`Language.write_of_translate`).
-/

namespace PhraseScript.CommandLine

variable {σ κ : Type}

/-! ### File systems -/

/-- What there is to see of the surroundings in a state. -/
structure View (σ κ : Type) where
  /-- The surroundings can be in this state. -/
  Valid : σ → Prop
  /-- The printed lines, in order. -/
  printed : σ → List String
  /-- The contents of the file at a place, if there is one.  They are missing when they are not
  text. -/
  contents : σ → κ → Option (Option String)
  /-- The place that a path leads to. -/
  place : σ → String → κ

/-- Nothing is printed, and no file changes. -/
def View.Keeps (view : View σ κ) (before after : σ) : Prop :=
  view.Valid before → view.Valid after ∧ view.printed after = view.printed before ∧
    view.contents after = view.contents before ∧ view.place after = view.place before

/-- A line is printed, and nothing else happens. -/
def View.Prints (view : View σ κ) (line : String) (before after : σ) : Prop :=
  view.Valid before → view.Valid after ∧ view.printed after = view.printed before ++ [line] ∧
    view.contents after = view.contents before ∧ view.place after = view.place before

/-- Surroundings with files.  Printing prints, asking and making directories keeps the files, and
writing replaces all that is at the place of a path, or keeps the files. -/
structure FileSystem (σ κ : Type) [DecidableEq κ] [Host (StateM σ)] extends View σ κ where
  print line state : toView.Prints line state ((Host.print line : StateM σ _).run state).2
  workingDirectory state :
    toView.Keeps state ((Host.workingDirectory : StateM σ _).run state).2
  pathExists path state : toView.Keeps state ((Host.pathExists path : StateM σ _).run state).2
  isFile path state : toView.Keeps state ((Host.isFile path : StateM σ _).run state).2
  readText path state : toView.Keeps state ((Host.readText path : StateM σ _).run state).2
  makeDirectories path state :
    toView.Keeps state ((Host.makeDirectories path : StateM σ _).run state).2
  writeText path text state (h : Valid state) :
    match (Host.writeText path text : StateM σ _).run state with
    | (.ok (), after) => Valid after ∧ printed after = printed state ∧
        contents after = Function.update (contents state) (place state path) (some (some text))
    | (.error _, after) => toView.Keeps state after

namespace View

variable {view : View σ κ}

instance : Std.Refl view.Keeps := ⟨fun _ h => ⟨h, rfl, rfl, rfl⟩⟩

lemma Keeps.trans {before between after : σ} (h : view.Keeps before between)
    (h' : view.Keeps between after) : view.Keeps before after := by
  intro hvalid
  obtain ⟨hvalid, hprinted, hcontents, hplace⟩ := h hvalid
  obtain ⟨hvalid, hprinted', hcontents', hplace'⟩ := h' hvalid
  exact ⟨hvalid, hprinted'.trans hprinted, hcontents'.trans hcontents, hplace'.trans hplace⟩

instance : IsTrans σ view.Keeps := ⟨fun _ _ _ => Keeps.trans⟩

end View

namespace FileSystem

variable [DecidableEq κ] [Host (StateM σ)] (files : FileSystem σ κ)

/-- Trees are read without a change. -/
lemma relates_readTree (path : String) : Relates files.Keeps (readTree path) :=
  CommandLine.relates_readTree _ files.workingDirectory files.isFile files.readText path

/-- Sessions are loaded without a change. -/
lemma relates_sessionIn (stateIn : Option String) : Relates files.Keeps (sessionIn stateIn) := by
  cases stateIn with
  | none => exact relates_pure _
  | some path =>
    refine relates_bind (relates_lift _ (files.pathExists path)) fun found => ?_
    cases found with
    | true =>
      change Relates files.Keeps
        ((orFault (Host.readText path) .unreadableState : Run (StateM σ) String) >>= _)
      refine relates_bind (relates_orFault _ (files.readText path) _) fun text => ?_
      split
      · exact relates_throw _
      · split
        · exact relates_pure _
        · exact relates_throw _
    | false => exact relates_throw _

/-- The contents of all files when a text has been saved, if it was to be. -/
def saving (state : σ) (text : String) : Option String → κ → Option (Option String)
  | none => files.contents state
  | some path => Function.update (files.contents state) (files.place state path) (some (some text))

/-- A session is saved as a whole, or not at all. -/
lemma endingIn_saveSession (session : Session) (stateOut : Option String) {state : σ}
    (h : files.Valid state) :
    (∃ after, endingIn (saveSession session stateOut) state = (.ok (), after) ∧
      files.Valid after ∧ files.printed after = files.printed state ∧
      files.contents after = files.saving state session.savedText stateOut) ∨
    ∃ fault after, endingIn (saveSession session stateOut) state = (.error fault, after) ∧
      files.Keeps state after := by
  cases stateOut with
  | none => exact .inl ⟨state, rfl, h, rfl, rfl⟩
  | some path =>
    have hmake := relates_orFault files.Keeps (files.makeDirectories (Path.parent path))
      .unwritableState
    have hsave : saveSession session (some path) = (do
        orFault (Host.makeDirectories (Path.parent path)) .unwritableState
        orFault (Host.writeText path session.savedText) .unwritableState :
          Run (StateM σ) Unit) := rfl
    rw [hsave]
    rcases hmade : endingIn (orFault (Host.makeDirectories (Path.parent path)) .unwritableState :
      Run (StateM σ) Unit) state with ⟨fault | _, between⟩
    · exact .inr ⟨fault, between, endingIn_bind_error hmade, hmake.of_endingIn hmade⟩
    · obtain ⟨hbetween, hprinted, hcontents, hplace⟩ := hmake.of_endingIn hmade h
      have hwrite := files.writeText path session.savedText between hbetween
      rw [endingIn_bind_ok hmade, endingIn_orFault]
      split at hwrite
      · next after heq =>
        obtain ⟨hafter, hprinted', hcontents'⟩ := hwrite
        refine .inl ⟨after, by rw [heq], hafter, hprinted'.trans hprinted, ?_⟩
        rw [hcontents', hcontents, hplace, saving]
      · next reason after heq =>
        exact .inr ⟨_, after, by rw [heq], (hmake.of_endingIn hmade).trans hwrite⟩

/-! ### What is printed -/

/-- The state after lines have been printed. -/
def afterLines (state : σ) (lines : List String) : σ :=
  lines.foldl (fun state line => ((Host.print line : StateM σ _).run state).2) state

/-- Printing lines adds them to what has been printed, and does nothing else. -/
lemma printed_afterLines (lines : List String) {state : σ} (h : files.Valid state) :
    files.printed (afterLines state lines) = files.printed state ++ lines ∧
      files.contents (afterLines state lines) = files.contents state := by
  induction lines generalizing state with
  | nil => exact ⟨(List.append_nil _).symm, rfl⟩
  | cons line rest ih =>
    obtain ⟨hvalid, hprinted, hcontents, -⟩ := files.print line state h
    obtain ⟨hprinted', hcontents'⟩ := ih hvalid
    refine ⟨hprinted'.trans ?_, hcontents'.trans hcontents⟩
    rw [hprinted, List.append_assoc]
    rfl

end FileSystem

/-! ### Machines -/

namespace Machine

/-- The contents of the file at a location. -/
def contents (machine : Machine) (location : Location) : Option (Option String) :=
  match machine.entry? location with
  | some (.file contents) => some contents
  | _ => none

/-- What there is to see of a machine.  Sinks, which take what is written to them and keep nothing,
are left out. -/
def view : View Machine Location where
  Valid machine := ∀ location, machine.entry? location ≠ some .sink
  printed := Machine.printed
  contents := contents
  place := destination

variable {machine between after : Machine} {location here : Location}

/-- A machine changes as it keeps what is seen of it if its files stay what they are. -/
lemma keeps_of_grows (hgrows : machine.Grows after) (hprinted : after.printed = machine.printed)
    (hcontents : after.contents = machine.contents) : view.Keeps machine after :=
  fun hvalid => ⟨fun location hsink => hvalid location (hgrows.sinks location hsink), hprinted,
    hcontents, funext fun path => hgrows.destination_eq path⟩

/-- A directory is put where there is nothing. -/
lemma contents_put_directory (h : machine.entry? location = none) :
    (machine.put location .directory).contents = machine.contents := by
  have hne : location ≠ [] := by
    rintro rfl
    cases h
  funext other
  rw [contents, contents, entry?_put hne]
  split_ifs with hother
  · rw [hother, h]
  · rfl

lemma keeps_makeDirectoriesFrom (names : List String) : ∀ machine here,
    (makeDirectoriesFrom machine here names).1.printed = machine.printed ∧
      (makeDirectoriesFrom machine here names).1.contents = machine.contents := by
  induction names with
  | nil => exact fun _ _ => ⟨rfl, rfl⟩
  | cons name rest ih =>
    intro machine here
    rw [makeDirectoriesFrom]
    split
    · exact ih _ _
    · split
      · exact ih _ _
      · dsimp only
        split
        · exact ih _ _
        · exact ⟨rfl, rfl⟩
        · next hnone =>
          split
          · obtain ⟨hprinted, hcontents⟩ := ih (machine.put (here ++ [name]) .directory)
              (here ++ [name])
            exact ⟨hprinted, hcontents.trans (contents_put_directory hnone)⟩
          · exact ⟨rfl, rfl⟩

/-- Making directories keeps the files. -/
lemma keeps_makeDirectories (machine : Machine) (path : String) :
    view.Keeps machine (machine.makeDirectories path).1 := by
  have hgrows := machine.grows_makeDirectories path
  rw [makeDirectories] at hgrows ⊢
  split at hgrows
  · exact refl_of view.Keeps machine
  · obtain ⟨hprinted, hcontents⟩ := keeps_makeDirectoriesFrom (Path.parts path) machine
      (machine.origin path)
    exact keeps_of_grows hgrows hprinted hcontents

/-- Writing replaces the contents of one file, or fails and does nothing. -/
lemma writeText_cases (path text : String) (h : view.Valid machine) :
    (∃ after, machine.writeText path text = (after, .ok ()) ∧ view.Valid after ∧
      after.printed = machine.printed ∧
      after.contents =
        Function.update machine.contents (machine.destination path) (some (some text))) ∨
    ∃ reason, machine.writeText path text = (machine, .error reason) := by
  have hgrows := machine.grows_writeText path text
  rw [writeText] at hgrows ⊢
  split at hgrows
  · exact .inr ⟨_, rfl⟩
  · next location hlocate =>
    obtain rfl := eq_destination_of_locate hlocate
    split at hgrows
    · exact .inr ⟨_, rfl⟩
    · next hsink => exact absurd hsink (h _)
    · next hdirectory _ =>
      have hne : machine.destination path ≠ [] := by
        intro hroot
        exact hdirectory (by rw [hroot]; rfl)
      refine .inl ⟨_, rfl, fun other hsink => h other (hgrows.sinks other hsink), rfl, ?_⟩
      funext other
      rw [contents, entry?_put hne, Function.update_apply]
      split_ifs
      · rfl
      · rfl

/-- Machines without sinks are file systems. -/
def files : FileSystem Machine Location where
  toView := view
  print line machine hvalid := ⟨hvalid, rfl, rfl, rfl⟩
  workingDirectory machine := refl_of view.Keeps machine
  pathExists path machine := refl_of view.Keeps machine
  isFile path machine := refl_of view.Keeps machine
  readText path machine := refl_of view.Keeps machine
  makeDirectories path machine := machine.keeps_makeDirectories path
  writeText path text machine hvalid := by
    have hrun : (Host.writeText path text : StateM Machine _).run machine =
        ((machine.writeText path text).2, (machine.writeText path text).1) := rfl
    rw [hrun]
    rcases writeText_cases path text hvalid with ⟨after, heq, hafter⟩ | ⟨reason, heq⟩
    · rw [heq]
      exact hafter
    · rw [heq]
      exact refl_of view.Keeps machine

end Machine

/-! ### Results and failures -/

/-- The lines of a result: a script and, if there is a recording, the program. -/
def resultLines (script : String) : Option (List Json) → List String
  | none => ["RESULT:OK", "SCRIPT_JSON:" ++ script]
  | some program =>
    ["RESULT:OK", "SCRIPT_JSON:" ++ script, "PROGRAM_JSON:" ++ (Json.array program).compact]

/-- The lines of a failure. -/
def faultLines (fault : RunFault) : List String :=
  ["RESULT:ERROR", "ERROR_CODE:" ++ fault.code, "ERROR_MSG_JSON:" ++ Json.quote fault.message]

/-- What is printed are lines. -/
lemma oneLine_resultLines (script : Json) (program : Option (List Json)) :
    ∀ line ∈ resultLines script.compact program, OneLine line := by
  have hscript : OneLine ("SCRIPT_JSON:" ++ script.compact) :=
    oneLine_append (by decide) script.oneLine_compact
  cases program with
  | none => exact List.forall_mem_cons.mpr ⟨by decide, List.forall_mem_singleton.mpr hscript⟩
  | some program =>
    refine List.forall_mem_cons.mpr ⟨by decide, List.forall_mem_cons.mpr ⟨hscript, ?_⟩⟩
    exact List.forall_mem_singleton.mpr (oneLine_append (by decide) (Json.oneLine_compact _))

lemma oneLine_faultLines (fault : RunFault) : ∀ line ∈ faultLines fault, OneLine line := by
  refine List.forall_mem_cons.mpr ⟨by decide, List.forall_mem_cons.mpr ⟨?_, ?_⟩⟩
  · exact oneLine_append (by decide) fault.oneLine_code
  · exact List.forall_mem_singleton.mpr (oneLine_append (by decide) (Json.oneLine_quote _))

/-- A line is told from others by how its label begins. -/
lemma append_ne {label line : String} (rest : String) {first : Char} {others : List Char}
    (hlabel : label.toList = first :: others) (hline : line.toList.head? ≠ some first) :
    line ≠ label ++ rest := by
  rintro rfl
  rw [String.toList_append, hlabel] at hline
  exact hline rfl

lemma error_not_mem_resultLines (script : String) (program : Option (List Json)) :
    "RESULT:ERROR" ∉ resultLines script program := by
  have hscript : "RESULT:ERROR" ≠ "SCRIPT_JSON:" ++ script := append_ne script rfl (by decide)
  cases program with
  | none => simp [resultLines, hscript]
  | some program =>
    have hprogram : "RESULT:ERROR" ≠ "PROGRAM_JSON:" ++ (Json.array program).compact :=
      append_ne _ rfl (by decide)
    simp [resultLines, hscript, hprogram]

lemma ok_not_mem_faultLines (fault : RunFault) : "RESULT:OK" ∉ faultLines fault := by
  have hcode : "RESULT:OK" ≠ "ERROR_CODE:" ++ fault.code := append_ne _ rfl (by decide)
  have hmessage : "RESULT:OK" ≠ "ERROR_MSG_JSON:" ++ Json.quote fault.message :=
    append_ne _ rfl (by decide)
  simp [faultLines, hcode, hmessage]

/-! ### All or nothing -/

section Translating

variable [DecidableEq κ] [Host (StateM σ)] (files : FileSystem σ κ) {before : σ}
  {tree : String} {stateIn stateOut : Option String} {recordProgram : Bool} {sounds : List String}

/-- From a state, a run finds a text, a session to start from, and an outcome of the text in it. -/
def Finds (tree : String) (stateIn : Option String) (recordProgram : Bool) (sounds : List String)
    (before : σ) (outcome : Outcome) : Prop :=
  ∃ text between session ready,
    endingIn (readTree tree) before = (.ok text, between) ∧
    endingIn (sessionIn stateIn) between = (.ok session, ready) ∧
    (languageWith sounds).translateText text
      (if recordProgram then session.startRecording else session) = .ok outcome

/-- An outcome is saved and then printed, or nothing is. -/
lemma endingIn_deliver {outcome : Outcome} {script : String}
    (hwrite : outcome.script.write = .ok script) {state : σ} (h : files.Valid state) :
    (∃ after, endingIn (deliver outcome stateOut) state = (.ok (), after) ∧
      files.printed after = files.printed state ++ resultLines script outcome.session.program ∧
      files.contents after = files.saving state outcome.session.savedText stateOut) ∨
    ∃ fault after, endingIn (deliver outcome stateOut) state = (.error fault, after) ∧
      files.Keeps state after := by
  rcases files.endingIn_saveSession outcome.session stateOut h with
    ⟨saved, hsave, hvalid, hprinted, hcontents⟩ | ⟨fault, after, hsave, hkeeps⟩
  · refine .inl ⟨FileSystem.afterLines saved (resultLines script outcome.session.program), ?_, ?_⟩
    · rw [deliver, endingIn_bind_ok hsave, printScript, hwrite]
      cases outcome.session.program <;> rfl
    · obtain ⟨hprinted', hcontents'⟩ :=
        files.printed_afterLines (resultLines script outcome.session.program) hvalid
      rw [hprinted', hcontents', hprinted, hcontents]
      exact ⟨rfl, rfl⟩
  · exact .inr ⟨fault, after, endingIn_bind_error hsave, hkeeps⟩

/-- A text that has been translated has a script with a text. -/
lemma write_of_translateText {text : String} {session : Session} {outcome : Outcome}
    (h : (languageWith sounds).translateText text session = .ok outcome) :
    outcome.script.write = .ok outcome.script.document.compact := by
  rw [Language.translateText] at h
  split at h
  · cases h
  · exact Language.write_of_translate h

/-- A run that translates a tree gives a result and saves the session, or fails and keeps
everything. -/
lemma endingIn_translate (h : files.Valid before) :
    (∃ outcome after, Finds tree stateIn recordProgram sounds before outcome ∧
      endingIn (translate tree stateIn stateOut recordProgram sounds) before = (.ok (), after) ∧
      files.printed after = files.printed before ++
        resultLines outcome.script.document.compact outcome.session.program ∧
      files.contents after = files.saving before outcome.session.savedText stateOut) ∨
    ∃ fault after, endingIn (translate tree stateIn stateOut recordProgram sounds) before =
        (.error fault, after) ∧
      files.Keeps before after := by
  have hread := files.relates_readTree tree
  have hload := files.relates_sessionIn stateIn
  rw [translate_eq]
  rcases hreads : endingIn (readTree tree) before with ⟨fault | text, between⟩
  · exact .inr ⟨fault, between, endingIn_bind_error hreads, hread.of_endingIn hreads⟩
  rw [endingIn_bind_ok hreads]
  rcases hloads : endingIn (sessionIn stateIn) between with ⟨fault | session, ready⟩
  · exact .inr ⟨fault, ready, endingIn_bind_error hloads,
      (hread.of_endingIn hreads).trans (hload.of_endingIn hloads)⟩
  rw [endingIn_bind_ok hloads]
  have hkeeps : files.Keeps before ready :=
    (hread.of_endingIn hreads).trans (hload.of_endingIn hloads)
  obtain ⟨hready, hprinted, hcontents, hplace⟩ := hkeeps h
  have hsaving (text : String) : files.saving ready text stateOut =
      files.saving before text stateOut := by
    cases stateOut with
    | none => exact hcontents
    | some path => rw [FileSystem.saving, FileSystem.saving, hcontents, hplace]
  split
  · next failure _ => exact .inr ⟨.sentence failure, ready, rfl, hkeeps⟩
  · next outcome houtcome =>
    rcases endingIn_deliver files (write_of_translateText houtcome) hready with
      ⟨after, hdeliver, hprinted', hcontents'⟩ | ⟨fault, after, hdeliver, hkeeps'⟩
    · refine .inl ⟨outcome, after, ⟨text, between, session, ready, hreads, hloads, houtcome⟩,
        hdeliver, by rw [hprinted', hprinted], by rw [hcontents', hsaving]⟩
    · exact .inr ⟨fault, after, hdeliver, hkeeps.trans hkeeps'⟩

end Translating

/-- A run carries out its command, and reports how that fails. -/
lemma run_eq_carryOut [Host (StateM σ)] {arguments : List String} {command : Command}
    (harguments : Command.read? arguments = some command) (before : σ) :
    (run arguments : StateM σ ExitCode).run before =
      match endingIn command.carryOut before with
      | (.ok (), after) => (.success, after)
      | (.error fault, after) =>
        (.failure, FileSystem.afterLines after (faultLines fault)) := by
  rw [run, harguments]
  change StateT.run (command.carryOut.run >>= _) before = _
  rw [StateT.run_bind]
  generalize (command.carryOut : Run (StateM σ) Unit) = program
  rw [endingIn]
  rcases program.run.run before with ⟨_ | _, _⟩ <;> rfl

lemma run_eq_success_iff [Host (StateM σ)] {arguments : List String} {command : Command}
    (harguments : Command.read? arguments = some command) {before after : σ} :
    (run arguments : StateM σ ExitCode).run before = (.success, after) ↔
      endingIn command.carryOut before = (.ok (), after) := by
  rw [run_eq_carryOut harguments]
  rcases endingIn command.carryOut before with ⟨_ | _, _⟩ <;>
    exact ⟨fun h => by cases h <;> rfl, fun h => by cases h <;> rfl⟩

/-- A run with the arguments for translating a tree. -/
lemma run_eq_endingIn [Host (StateM σ)] {arguments : List String} {tree : String}
    {stateIn stateOut : Option String} {recordProgram : Bool} {sounds : List String}
    (harguments : Command.read? arguments =
      some (.translate tree stateIn stateOut recordProgram sounds)) (before : σ) :
    (run arguments : StateM σ ExitCode).run before =
      match endingIn (translate tree stateIn stateOut recordProgram sounds) before with
      | (.ok (), after) => (.success, after)
      | (.error fault, after) =>
        (.failure, FileSystem.afterLines after (faultLines fault)) :=
  run_eq_carryOut harguments before

/-- On every file system, translating a tree does all or nothing.

Either the run succeeds: it prints a result, which has the program if there is a recording after
the sentence, and of all files only the one at the given path has other contents, namely the saved
session after the sentence, a text that is read as the document written out here.  Or it fails: it
prints why, and no file has other contents.  What is printed are lines in both cases, and never
those of a result together with those of a failure. -/
theorem run_translate_all_or_nothing [DecidableEq κ] [Host (StateM σ)] (files : FileSystem σ κ)
    {arguments : List String} {tree : String} {stateIn stateOut : Option String}
    {recordProgram : Bool} {sounds : List String}
    (harguments : Command.read? arguments =
      some (.translate tree stateIn stateOut recordProgram sounds))
    {before : σ} (hbefore : files.Valid before) :
    ∃ code after lines, (run arguments : StateM σ ExitCode).run before = (code, after) ∧
      files.printed after = files.printed before ++ lines ∧
      (∀ line ∈ lines, OneLine line) ∧ ¬("RESULT:OK" ∈ lines ∧ "RESULT:ERROR" ∈ lines) ∧
      ((code.toNat = 0 ∧ ∃ outcome script saved,
        Finds tree stateIn recordProgram sounds before outcome ∧
        outcome.script.write = .ok script ∧
        lines = resultLines script outcome.session.program ∧
        saved = Json.object [("schemaVersion", .string "sn-session.v1"),
          ("session", .object (("environment", .object
              [("variables", .object outcome.session.environment.vars.entries),
                ("lists", .object (outcome.session.environment.lists.entries.map
                  fun list => (list.1, .array list.2)))]) ::
            (outcome.session.program.map fun program => ("program", .array program)).toList))] ∧
        Json.Written.read? saved.compact = some saved.written ∧
        files.contents after = files.saving before saved.compact stateOut) ∨
      (code.toNat = 1 ∧ ∃ fault, lines = faultLines fault ∧
        files.contents after = files.contents before)) := by
  have hrun := run_eq_endingIn harguments before
  rcases endingIn_translate files hbefore with
    ⟨outcome, after, hfinds, hending, hprinted, hcontents⟩ | ⟨fault, between, hending, hkeeps⟩
  · rw [hending] at hrun
    have hwrite : outcome.script.write = .ok outcome.script.document.compact := by
      obtain ⟨_, _, _, _, _, _, houtcome⟩ := hfinds
      exact write_of_translateText houtcome
    refine ⟨_, _, _, hrun, hprinted, oneLine_resultLines _ _, ?_,
      .inl ⟨rfl, outcome, _, outcome.session.savedDocument, hfinds, hwrite, rfl, rfl,
        Json.read?_compact_written _, ?_⟩⟩
    · exact fun h => error_not_mem_resultLines _ _ h.2
    · rw [hcontents, Session.savedText_eq]
  · rw [hending] at hrun
    obtain ⟨hvalid, hprinted, hcontents, -⟩ := hkeeps hbefore
    obtain ⟨hprinted', hcontents'⟩ := files.printed_afterLines (faultLines fault) hvalid
    refine ⟨_, _, _, hrun, hprinted'.trans (by rw [hprinted]), oneLine_faultLines fault, ?_,
      .inr ⟨rfl, fault, rfl, hcontents'.trans hcontents⟩⟩
    exact fun h => ok_not_mem_faultLines _ h.1

lemma Machine.valid_treesWith (negatives : Nat) : files.Valid (treesWith negatives) := by
  intro location hsink
  by_cases hroot : location = []
  · subst hroot
    cases hsink
  · rw [entry?_eq_lookup hroot] at hsink
    have hmem : (location, Entry.sink) ∈ (treesWith negatives).entries := mem_of_lookup hsink
    simp [treesWith] at hmem

lemma endingIn_making : ∃ after,
    endingIn (translate "/make.tree" none (some "/session.json") false []) (treesWith 0) =
      (.ok (), after) := by
  obtain ⟨lines, htake⟩ := ran_makeTurn 0
  have hrun : ran (makeTurn.run none) (treesWith 0) =
      (.ok (), ((treesWith 0).keeping .withX).printing lines) := by
    rw [ran_run rfl, htake]
  exact ⟨_, hrun⟩

/-- The one outcome of "make x". -/
lemma eq_of_finds_making {outcome : Outcome}
    (h : Finds "/make.tree" none false [] (treesWith 0) outcome) :
    outcome = ⟨⟨[], Session.withX.environment.vars, Session.withX.environment.lists⟩,
      .withX⟩ := by
  obtain ⟨text, between, session, ready, htree, hsession, houtcome⟩ := h
  obtain ⟨htext, rfl⟩ : Except.ok (Bracketed.treeText .making) = Except.ok text ∧ _ = between :=
    Prod.mk.inj htree
  obtain ⟨hempty, rfl⟩ : Except.ok {} = Except.ok session ∧ _ = ready := Prod.mk.inj hsession
  obtain rfl := Except.ok.inj htext
  obtain rfl := Except.ok.inj hempty
  exact (Except.ok.inj (Language.translateText_making.symm.trans houtcome)).symm

/-- "Make x", saved at `/session.json`. -/
theorem run_making_all_or_nothing :
    ∃ after : Machine,
      (run ["translate", "--tree", "/make.tree", "--state-out=/session.json"] :
        StateM Machine ExitCode).run (treesWith 0) = (.success, after) ∧
      after.printed = ["RESULT:OK",
        "SCRIPT_JSON:\x7b\"commands\":[],\"variables\":\x7b\"x\":0\x7d,\"lists\":\x7b\x7d\x7d"] ∧
      after.contents = Function.update (treesWith 0).contents ["session.json"] (some (some
        ("\x7b\"schemaVersion\":\"sn-session.v1\",\"session\":\x7b\"environment\":" ++
          "\x7b\"variables\":\x7b\"x\":0\x7d,\"lists\":\x7b\x7d\x7d\x7d\x7d"))) := by
  have harguments : Command.read? ["translate", "--tree", "/make.tree",
      "--state-out=/session.json"] =
        some (.translate "/make.tree" none (some "/session.json") false []) := by
    decide
  obtain ⟨code, after, lines, hrun, hprinted, -, -, hends⟩ :=
    run_translate_all_or_nothing Machine.files harguments (Machine.valid_treesWith 0)
  obtain ⟨_, hending⟩ := endingIn_making
  have hsuccess : code = .success :=
    congrArg Prod.fst (hrun.symm.trans ((run_eq_success_iff harguments).mpr hending))
  subst hsuccess
  rcases hends with ⟨-, outcome, script, saved, hfinds, hwrite, rfl, rfl, -, hcontents⟩ | ⟨hcode, -⟩
  · obtain rfl := eq_of_finds_making hfinds
    obtain rfl := Except.ok.inj hwrite
    refine ⟨after, hrun, hprinted.trans ?_, hcontents.trans ?_⟩
    · decide
    · rfl
  · cases hcode

end PhraseScript.CommandLine
