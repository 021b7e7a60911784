import PhraseScript.CommandLine.Machine
import PhraseScript.Proofs.Endings

/-!
# Runs on a machine

How a run of the program on a `Machine` is made of those of its parts, and what the operations on
files do to a machine.  What has been written to a file is read from it, whatever is printed in
between (`Machine.readText_of_writeText`), unless the path leads to a sink.
-/

namespace PhraseScript.CommandLine

/-! ### Runs -/

section Ran

variable {α β : Type} {machine between after : Machine} {fault : RunFault} {value : α}

/-- How a run ends on a machine, and the machine that it leaves. -/
def ran (run : Run (StateM Machine) α) (machine : Machine) : Except RunFault α × Machine :=
  run.run.run machine

@[simp] lemma ran_pure (value : α) (machine : Machine) :
    ran (pure value : Run (StateM Machine) α) machine = (.ok value, machine) := rfl

lemma ran_bind (run : Run (StateM Machine) α) (next : α → Run (StateM Machine) β)
    (machine : Machine) :
    ran (run >>= next) machine =
      match ran run machine with
      | (.ok value, between) => ran (next value) between
      | (.error fault, after) => (.error fault, after) := by
  rcases h : ran run machine with ⟨_ | _, _⟩
  · exact endingIn_bind_error h
  · exact endingIn_bind_ok h

lemma ran_bind_ok {run : Run (StateM Machine) α} {next : α → Run (StateM Machine) β}
    (h : ran run machine = (.ok value, between)) :
    ran (run >>= next) machine = ran (next value) between :=
  endingIn_bind_ok h

lemma ran_bind_error {run : Run (StateM Machine) α} {next : α → Run (StateM Machine) β}
    (h : ran run machine = (.error fault, after)) :
    ran (run >>= next) machine = (.error fault, after) :=
  endingIn_bind_error h

/-- A run of two parts ends well when both do. -/
lemma ran_bind_eq_ok {run : Run (StateM Machine) α} {next : α → Run (StateM Machine) β}
    {result : β} :
    ran (run >>= next) machine = (.ok result, after) ↔
      ∃ value between, ran run machine = (.ok value, between) ∧
        ran (next value) between = (.ok result, after) := by
  rw [ran_bind]
  rcases ran run machine with ⟨_ | _, _⟩ <;> simp [and_assoc]

/-- A machine on which more has been printed. -/
def Machine.printing (machine : Machine) (lines : List String) : Machine :=
  { machine with printed := machine.printed ++ lines }

@[simp] lemma Machine.printing_nil (machine : Machine) : machine.printing [] = machine := by
  rw [printing, List.append_nil]

@[simp] lemma Machine.printing_printing (machine : Machine) (lines more : List String) :
    (machine.printing lines).printing more = machine.printing (lines ++ more) := by
  rw [printing, printing, printing, List.append_assoc]

lemma ran_print (line : String) (machine : Machine) :
    ran (print line) machine = (.ok (), machine.printing [line]) := rfl

/-- An operation of the surroundings, whose reason for failing becomes a fault. -/
lemma ran_orFault (operation : StateM Machine (Except String α)) (fault : String → RunFault)
    (machine : Machine) :
    ran (orFault operation fault) machine =
      match operation.run machine with
      | (.ok value, after) => (.ok value, after)
      | (.error reason, after) => (.error (fault reason), after) := by
  refine (endingIn_orFault operation fault machine).trans ?_
  rcases operation.run machine with ⟨_ | _, _⟩ <;> rfl

/-- A text that can be read is read. -/
lemma ran_readText {path text : String} (h : machine.readText path = .ok text)
    (fault : String → RunFault) :
    ran (orFault (Host.readText path) fault) machine = (.ok text, machine) := by
  have hrun : (Host.readText path : StateM Machine _).run machine =
      (machine.readText path, machine) := rfl
  rw [ran_orFault, hrun, h]

/-- A question to the surroundings. -/
lemma ran_lift (operation : StateM Machine α) (machine : Machine) :
    ran (liftM operation : Run (StateM Machine) α) machine =
      (.ok (operation.run machine).1, (operation.run machine).2) := rfl

/-- Whatever comes of a run, it takes a machine to a related one. -/
def Moves (R : Machine → Machine → Prop) (run : Run (StateM Machine) α) : Prop :=
  ∀ machine, R machine (ran run machine).2

/-- A machine that differs from another one by lines that have been printed. -/
def Machine.Prints (before after : Machine) : Prop :=
  ∃ lines, after = before.printing lines

instance : Std.Refl Machine.Prints where
  refl machine := ⟨[], machine.printing_nil.symm⟩

instance : IsTrans Machine Machine.Prints where
  trans := by
    rintro machine _ _ ⟨lines, rfl⟩ ⟨more, rfl⟩
    exact ⟨lines ++ more, machine.printing_printing lines more⟩

lemma moves_print (line : String) : Moves Machine.Prints (print line) := fun _ => ⟨[line], rfl⟩

lemma moves_printScript (script : Script) : Moves Machine.Prints (printScript script) := by
  rw [printScript]
  split
  · exact moves_print _
  · exact relates_throw _

/-- Reading a tree does nothing to the machine. -/
lemma moves_readTree (path : String) :
    Moves Eq (readTree path : Run (StateM Machine) String) :=
  relates_readTree Eq (fun _ => rfl) (fun _ _ => rfl) (fun _ _ => rfl) path

end Ran

/-! ### Files -/

namespace Machine

/-- Where a name leads from a location, as far as names tell. -/
def stepInto (here : Location) (name : String) : Location :=
  if name = "" ∨ name = "." then here
  else if name = ".." then here.dropLast
  else here ++ [name]

/-- Where a path leads to, if it leads anywhere. -/
def destination (machine : Machine) (path : String) : Location :=
  (Path.parts path).foldl stepInto (machine.origin path)

variable {machine before between after : Machine} {here location : Location} {path : String}

lemma lookup_filter_ne {entries : List (Location × Entry)} {other : Location}
    (h : other ≠ location) :
    (entries.filter fun entry => entry.1 ≠ location).lookup other = entries.lookup other := by
  induction entries with
  | nil => rfl
  | cons entry rest ih =>
    obtain ⟨there, entry⟩ := entry
    by_cases hthere : there = location
    · have hother : (other == there) = false := beq_eq_false_iff_ne.mpr (hthere ▸ h)
      rw [List.filter_cons_of_neg (by simp [hthere]), ih, List.lookup_cons, hother]
    · rw [List.filter_cons_of_pos (by simp [hthere]), List.lookup_cons, List.lookup_cons, ih]

lemma entry?_eq_lookup (h : location ≠ []) :
    machine.entry? location = machine.entries.lookup location := if_neg h

lemma entry?_put (hlocation : location ≠ []) (entry : Entry) (other : Location) :
    Machine.entry? (machine.put location entry) other =
      if other = location then some entry else machine.entry? other := by
  by_cases hother : other = location
  · subst hother
    simp [put, entry?, hlocation]
  · have hbeq : (other == location) = false := beq_eq_false_iff_ne.mpr hother
    rw [if_neg hother, entry?, entry?, put, List.lookup_cons, hbeq, lookup_filter_ne hother]

lemma follow_eq_foldl {names : List String} (h : machine.follow here names = .ok location) :
    location = names.foldl stepInto here := by
  induction names generalizing here with
  | nil => exact (Except.ok.inj h).symm
  | cons name rest ih =>
    rw [follow] at h
    rw [List.foldl_cons, stepInto]
    split at h
    · cases h
    · split at h
      · next hidle => rw [if_pos hidle]; exact ih h
      · next hidle =>
        rw [if_neg hidle]
        split at h
        · next hup => rw [if_pos hup]; exact ih h
        · next hup =>
          rw [if_neg hup]
          split at h
          · exact ih h
          · cases h
    · cases h

lemma eq_destination_of_locate (h : machine.locate path = .ok location) :
    location = machine.destination path := by
  rw [locate] at h
  split at h
  · cases h
  · exact follow_eq_foldl h

/-! ### What runs do to a machine -/

/-- A machine on which directories stay what they are, and to which no sinks are added. -/
structure Grows (before after : Machine) : Prop where
  workingDirectory : after.workingDirectory = before.workingDirectory
  directories : ∀ location, before.entry? location = some .directory →
    after.entry? location = some .directory
  sinks : ∀ location, after.entry? location = some .sink → before.entry? location = some .sink

namespace Grows

instance : Std.Refl Grows := ⟨fun _ => ⟨rfl, fun _ => id, fun _ => id⟩⟩

instance : IsTrans Machine Grows where
  trans _ _ _ h h' := ⟨h'.workingDirectory.trans h.workingDirectory,
    fun location hlocation => h'.directories location (h.directories location hlocation),
    fun location hlocation => h.sinks location (h'.sinks location hlocation)⟩

lemma printing (machine : Machine) (lines : List String) : Grows machine (machine.printing lines) :=
  ⟨rfl, fun _ => id, fun _ => id⟩

/-- Something other than a sink is put where there is no directory. -/
lemma put (hlocation : machine.entry? location ≠ some .directory) {entry : Entry}
    (hentry : entry ≠ .sink) : Grows machine (machine.put location entry) := by
  have hne : location ≠ [] := by
    rintro rfl
    exact hlocation rfl
  refine ⟨rfl, fun other hother => ?_, fun other hother => ?_⟩
  · rw [entry?_put hne, if_neg (by rintro rfl; exact hlocation hother)]
    exact hother
  · rw [entry?_put hne] at hother
    split at hother
    · exact absurd (Option.some.inj hother) hentry
    · exact hother

/-- Where a path leads to does not change. -/
lemma destination_eq (h : Grows before after) (path : String) :
    after.destination path = before.destination path := by
  rw [destination, destination, origin, origin, h.workingDirectory]

lemma follow_eq (h : Grows before after) {names : List String}
    (hfollow : before.follow here names = .ok location) :
    after.follow here names = .ok location := by
  induction names generalizing here with
  | nil => exact hfollow
  | cons name rest ih =>
    rw [follow] at hfollow ⊢
    split at hfollow
    · cases hfollow
    · next hdirectory =>
      rw [h.directories here hdirectory]
      split at hfollow
      · next hidle => simp only [if_pos hidle]; exact ih hfollow
      · next hidle =>
        simp only [if_neg hidle]
        split at hfollow
        · next hup => simp only [if_pos hup]; exact ih hfollow
        · next hup =>
          simp only [if_neg hup]
          split at hfollow
          · next hsize => simp only [if_pos hsize]; exact ih hfollow
          · cases hfollow
    · cases hfollow

/-- A path that leads somewhere still leads there. -/
lemma locate_eq (h : Grows before after) (hlocate : before.locate path = .ok location) :
    after.locate path = .ok location := by
  rw [locate] at hlocate ⊢
  split at hlocate
  · cases hlocate
  · rw [origin, h.workingDirectory]
    exact h.follow_eq hlocate

end Grows

lemma grows_makeDirectoriesFrom (names : List String) :
    ∀ machine here, Grows machine (makeDirectoriesFrom machine here names).1 := by
  induction names with
  | nil => exact fun machine _ => refl_of Grows machine
  | cons name rest ih =>
    intro machine here
    rw [makeDirectoriesFrom]
    split
    · exact ih _ _
    · split
      · exact ih _ _
      · dsimp only
        split
        · exact ih _ _
        · exact refl_of Grows machine
        · next hnone =>
          split
          · exact trans_of Grows (.put (by rw [hnone]; simp) (by simp)) (ih _ _)
          · exact refl_of Grows machine

lemma grows_makeDirectories (machine : Machine) (path : String) :
    Grows machine (machine.makeDirectories path).1 := by
  rw [makeDirectories]
  split
  · exact refl_of Grows machine
  · exact grows_makeDirectoriesFrom _ _ _

lemma grows_writeText (machine : Machine) (path contents : String) :
    Grows machine (machine.writeText path contents).1 := by
  rw [writeText]
  split
  · exact refl_of Grows machine
  · split
    · exact refl_of Grows machine
    · exact refl_of Grows machine
    · next hdirectory _ => exact .put hdirectory (by simp)

/-- What has been written is read. -/
theorem readText_of_writeText {contents : String}
    (h : machine.writeText path contents = (after, .ok ()))
    (hsink : machine.entry? (machine.destination path) ≠ some .sink) :
    after.readText path = .ok contents := by
  have hgrows := grows_writeText machine path contents
  rw [h] at hgrows
  rw [writeText] at h
  split at h
  · cases h
  · next location hlocate =>
    rw [← eq_destination_of_locate hlocate] at hsink
    split at h
    · cases h
    · next hentry => exact absurd hentry hsink
    · next hdirectory _ =>
      have hne : location ≠ [] := by
        rintro rfl
        exact hdirectory rfl
      obtain rfl : machine.put location (.file (some contents)) = after := congrArg Prod.fst h
      rw [readText, hgrows.locate_eq hlocate]
      simp only [entry?_put hne, if_true]

/-- What is read does not depend on what has been printed. -/
lemma readText_printing (machine : Machine) (lines : List String) (path : String) :
    (machine.printing lines).readText path = machine.readText path := by
  have hentry : Machine.entry? (machine.printing lines) = machine.entry? := rfl
  have hfollow : ∀ (names : List String) (here : Location),
      (machine.printing lines).follow here names = machine.follow here names := by
    intro names
    induction names with
    | nil => exact fun _ => rfl
    | cons name rest ih =>
      intro here
      rw [follow, follow, hentry]
      simp only [ih]
  have hlocate : (machine.printing lines).locate path = machine.locate path := by
    rw [locate, locate]
    split
    · rfl
    · exact hfollow _ _
  rw [readText, readText, hlocate, hentry]

end Machine

/-! ### Saving and loading -/

section SaveLoad

variable {machine after : Machine} {path : String} {session : Session}

lemma moves_makeDirectories (path : String) (fault : String → RunFault) :
    Moves Machine.Grows (orFault (Host.makeDirectories path) fault) := by
  have hrun : ∀ machine : Machine,
      machine.Grows ((Host.makeDirectories path : StateM Machine _).run machine).2 :=
    fun machine => machine.grows_makeDirectories path
  exact relates_orFault _ hrun fault

lemma moves_writeText (path contents : String) (fault : String → RunFault) :
    Moves Machine.Grows (orFault (Host.writeText path contents) fault) := by
  have hrun : ∀ machine : Machine,
      machine.Grows ((Host.writeText path contents : StateM Machine _).run machine).2 :=
    fun machine => machine.grows_writeText path contents
  exact relates_orFault _ hrun fault

lemma moves_saveSession (session : Session) (path : Option String) :
    Moves Machine.Grows (saveSession session path) := by
  cases path with
  | none => exact relates_pure ()
  | some path =>
    exact relates_bind (moves_makeDirectories _ _) fun _ => moves_writeText _ _ _

/-- A saved session is found in its file. -/
lemma readText_of_saveSession
    (h : ran (saveSession session (some path)) machine = (.ok (), after))
    (hsink : machine.entry? (machine.destination path) ≠ some .sink) :
    after.readText path = .ok session.savedText := by
  rw [saveSession, ran_bind_eq_ok] at h
  obtain ⟨_, between, hmake, hwrite⟩ := h
  have hgrows : machine.Grows between := by
    have hmoves := moves_makeDirectories (Path.parent path) .unwritableState machine
    rwa [hmake] at hmoves
  have hwritten : between.writeText path session.savedText = (after, .ok ()) := by
    rw [ran_orFault] at hwrite
    have hrun : (Host.writeText path session.savedText : StateM Machine _).run between =
        ((between.writeText path session.savedText).2,
          (between.writeText path session.savedText).1) := rfl
    rw [hrun] at hwrite
    rcases heq : between.writeText path session.savedText with ⟨written, _ | _⟩
    · simp [heq] at hwrite
    · simp only [heq, Prod.mk.injEq, true_and] at hwrite
      rw [hwrite]
  refine Machine.readText_of_writeText hwritten fun hfound => hsink ?_
  rw [hgrows.destination_eq] at hfound
  exact hgrows.sinks _ hfound

/-- A session is loaded from its text. -/
lemma ran_loadSession {text : String} (h : machine.readText path = .ok text) :
    ran (loadSession path) machine =
      (match Session.readSaved? text with
        | none => .error .invalidState
        | some (schema, session) =>
          if schema = Session.schema then .ok session else .error (.unknownSchema schema),
        machine) := by
  have hthere : (machine.at? path).isSome = true := by
    rw [Machine.readText] at h
    split at h
    · cases h
    · next location hlocate =>
      rw [Machine.at?, hlocate]
      split at h <;> simp_all
  have hexists : ran (liftM (Host.pathExists path : StateM Machine Bool)) machine =
      (.ok true, machine) := by
    rw [ran_lift, ← hthere]
    rfl
  have hload : ran (loadSession path) machine = ran (do
      match Session.readSaved? (← orFault (Host.readText path) .unreadableState) with
      | none => throw .invalidState
      | some (schema, session) =>
        if schema = Session.schema then return session
        else throw (.unknownSchema schema) : Run (StateM Machine) Session) machine :=
    ran_bind_ok hexists
  rw [hload, ran_bind_ok (ran_readText h _)]
  split
  · rfl
  · split <;> rfl

end SaveLoad

end PhraseScript.CommandLine
