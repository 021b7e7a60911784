import PhraseScript.Batch

/-!
# Why a run fails

The causes for which a run ends without a result, with the names and texts that are printed.
-/

namespace PhraseScript.CommandLine

/-- A cause for which a run fails. -/
inductive RunFault where
  /-- There is no file with the tree. -/
  | noTreeFile (path : String)
  /-- There is no directory with trees. -/
  | noTreesDirectory (path : String)
  /-- The trees are looked for in something else than a directory. -/
  | notADirectory (path : String)
  /-- A directory has no trees. -/
  | noTrees (path : String)
  /-- The working directory is not known. -/
  | noWorkingDirectory (reason : String)
  /-- A tree cannot be read from its file. -/
  | unreadableTree (reason : String)
  /-- There is no saved session. -/
  | noState (path : String)
  /-- A saved session cannot be read from its file. -/
  | unreadableState (reason : String)
  /-- A file is not a saved session. -/
  | invalidState
  /-- A saved session is of an unknown schema. -/
  | unknownSchema (schema : String)
  /-- A session cannot be saved. -/
  | unwritableState (reason : String)
  /-- A script has no text. -/
  | unwritableScript (found : Meaning.Kind)
  /-- The sentence cannot be translated. -/
  | sentence (failure : Failure)
  /-- A sentence of a batch cannot be translated. -/
  | batch (failure : BatchFailure)
deriving DecidableEq

namespace RunFault

/-- The name of a cause. -/
def code : RunFault → String
  | .noTreeFile _ | .noTreesDirectory _ => "CLI_SOURCE_NOT_FOUND"
  | .notADirectory _ => "CLI_SOURCE_NOT_DIR"
  | .noTrees _ => "CLI_SOURCE_EMPTY"
  | .noWorkingDirectory _ => "CLI_SOURCE_PATH"
  | .unreadableTree _ => "CLI_SOURCE_READ"
  | .noState _ => "CLI_STATE_NOT_FOUND"
  | .unreadableState _ => "CLI_STATE_READ"
  | .invalidState => "CLI_STATE_INVALID"
  | .unknownSchema _ => "CLI_STATE_SCHEMA"
  | .unwritableState _ => "CLI_STATE_WRITE"
  | .unwritableScript _ => "CLI_OUTPUT"
  | .sentence failure => failure.fault.code
  | .batch failure => failure.failure.fault.code

/-- A cause in words. -/
def message : RunFault → String
  | .noTreeFile path => "tree file does not exist: " ++ path
  | .noTreesDirectory path => "trees-dir does not exist: " ++ path
  | .notADirectory path => "trees-dir is not a directory: " ++ path
  | .noTrees path => "No .tree/.json files under " ++ path
  | .noWorkingDirectory reason => reason
  | .unreadableTree reason => reason
  | .noState path => "State file does not exist: " ++ path
  | .unreadableState reason => reason
  | .invalidState => "the document is not a saved session"
  | .unknownSchema schema => "Unsupported session state schema: " ++ schema
  | .unwritableState reason => reason
  | .unwritableScript found => found.name ++ " has no wire form"
  | .sentence failure => failure.describe
  | .batch failure => failure.source ++ ": " ++ failure.failure.describe

end RunFault

end PhraseScript.CommandLine
