import PhraseScript.CommandLine.Arguments
import PhraseScript.CommandLine.Fault
import PhraseScript.CommandLine.Host
import PhraseScript.Session.Saved
import PhraseScript.Vocabulary

/-!
# Running the program

What each command does, in any surroundings (`Host`).  A result begins with the line
`RESULT:OK`; a failure prints `RESULT:ERROR`, its code and its message.
-/

namespace PhraseScript.CommandLine

variable {m : Type → Type} [Monad m] [Host m]

/-- A run that can fail. -/
abbrev Run (m : Type → Type) := ExceptT RunFault m

/-- The outcome of an operation of the surroundings. -/
def orFault {α : Type} (operation : m (Except String α)) (fault : String → RunFault) : Run m α :=
  ExceptT.mk do
    match ← operation with
    | .ok value => return .ok value
    | .error reason => return .error (fault reason)

/-- Prints a line. -/
def print (line : String) : Run m Unit := Host.print (m := m) line

/-- A path independent of the working directory. -/
def absolute (path : String) : Run m String :=
  if Path.isAbsolute path then return path
  else return Path.join (← orFault Host.workingDirectory .noWorkingDirectory) path

/-- The language with those sounds, or with the default ones when none are given. -/
def languageWith (sounds : List String) : Language :=
  .standard (if sounds = [] then Lexicon.defaultSounds else sounds) .numerals

/-! ## Files -/

/-- The text of a tree. -/
def readTree (path : String) : Run m String := do
  let path ← absolute path
  if ← Host.isFile (m := m) path then orFault (Host.readText path) .unreadableTree
  else throw (.noTreeFile path)

/-- The name of a file is that of a tree. -/
def isTreeName (path : String) : Bool := path.endsWith ".tree" || path.endsWith ".json"

/-- A path as the name of a source: with slashes for backslashes. -/
def sourceName (path : String) : String := path.map fun c => if c = '\\' then '/' else c

/-- The sources at the given paths, relative to a directory. -/
def readSources (directory : String) : List String → Run m (List (String × String))
  | [] => return []
  | path :: rest => do
    let text ← orFault (Host.readText (Path.join directory path)) .unreadableTree
    return (sourceName path, text) :: (← readSources directory rest)

/-- All trees in a directory and its subdirectories. -/
def readTrees (directory : String) : Run m (Dictionary String) := do
  unless ← Host.pathExists (m := m) directory do throw (.noTreesDirectory directory)
  unless ← Host.isDirectory (m := m) directory do throw (.notADirectory directory)
  let paths := (← Host.filesInside (m := m) directory).filter isTreeName
  if paths = [] then throw (.noTrees directory)
  return .ofList (← readSources directory paths)

/-- Loads a saved session. -/
def loadSession (path : String) : Run m Session := do
  unless ← Host.pathExists (m := m) path do throw (.noState path)
  match Session.readSaved? (← orFault (Host.readText path) .unreadableState) with
  | none => throw .invalidState
  | some (schema, session) =>
    if schema = Session.schema then return session else throw (.unknownSchema schema)

/-- Saves a session, if there is a path to save it at. -/
def saveSession (session : Session) : Option String → Run m Unit
  | none => return
  | some path => do
    orFault (Host.makeDirectories (Path.parent path)) .unwritableState
    orFault (Host.writeText path session.savedText) .unwritableState

/-! ## Commands -/

/-- Prints a script. -/
def printScript (script : Script) : Run m Unit :=
  match script.write with
  | .ok text => print ("SCRIPT_JSON:" ++ text)
  | .error found => throw (.unwritableScript found)

/-- Translates one tree. -/
def translate (tree : String) (stateIn stateOut : Option String) (recordProgram : Bool)
    (sounds : List String) : Run m Unit := do
  let text ← readTree tree
  let session ← match stateIn with
    | some path => loadSession path
    | none => pure {}
  let session := if recordProgram then session.startRecording else session
  match (languageWith sounds).translateText text session with
  | .error failure => throw (.sentence failure)
  | .ok outcome =>
    saveSession outcome.session stateOut
    print "RESULT:OK"
    printScript outcome.script
    match outcome.session.program with
    | some program => print ("PROGRAM_JSON:" ++ (Json.array program).compact)
    | none => return

/-- Prints the script of each source. -/
def printScripts : List (String × Script) → Run m Unit
  | [] => return
  | (source, script) :: rest => do
    print ("SOURCE:" ++ source)
    printScript script
    printScripts rest

/-- Translates all trees in a directory. -/
def batch (treesDir : String) (stateOut : Option String) (sounds : List String) :
    Run m Unit := do
  let directory ← absolute treesDir
  let sources ← readTrees directory
  match (languageWith sounds).translateBatch sources {} with
  | .error failure => throw (.batch failure)
  | .ok batch =>
    saveSession batch.session stateOut
    print "RESULT:OK"
    print ("TREES_DIR:" ++ directory)
    printScripts batch.scripts
    print ("SOURCES:" ++ toString batch.scripts.length)

/-- Prints the vocabulary. -/
def vocabulary (sounds : List String) : Run m Unit := do
  print "RESULT:OK"
  print ("VOCABULARY_JSON:" ++ (Vocabulary.ofLanguage (languageWith sounds)).text)

/-- Carries out a command. -/
def Command.carryOut : Command → Run m Unit
  | .translate tree stateIn stateOut recordProgram sounds =>
    CommandLine.translate tree stateIn stateOut recordProgram sounds
  | .batch treesDir stateOut sounds => CommandLine.batch treesDir stateOut sounds
  | .vocabulary sounds => CommandLine.vocabulary sounds

/-- Prints a failure. -/
def report (fault : RunFault) : m Unit := do
  Host.print "RESULT:ERROR"
  Host.print ("ERROR_CODE:" ++ fault.code)
  Host.print ("ERROR_MSG_JSON:" ++ Json.quote fault.message)

/-- The exit codes of a run that succeeds, of one that fails, and of arguments that make no
sense. -/
inductive ExitCode where
  | success
  | failure
  | badArguments
deriving DecidableEq, Repr

/-- An exit code as a number. -/
def ExitCode.toNat : ExitCode → Nat
  | .success => 0
  | .failure => 1
  | .badArguments => 2

/-- Runs the program with its arguments. -/
def run (arguments : List String) : m ExitCode := do
  match Command.read? arguments with
  | none => return .badArguments
  | some command =>
    match ← (command.carryOut (m := m)).run with
    | .ok () => return .success
    | .error fault =>
      report fault
      return .failure

end PhraseScript.CommandLine
