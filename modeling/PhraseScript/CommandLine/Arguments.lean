/-!
# Command line arguments

There are three commands, each with options of its own.  An option with a value is written
`--option value` or `--option=value`; in the first form the value must not look like an option.
How much the program says about its work (`-v`, `--verbose`) can be set anywhere and has no
bearing on what it does.
-/

namespace PhraseScript.CommandLine

/-- What the program is asked to do. -/
inductive Command where
  /-- Translates one tree. -/
  | translate (tree : String) (stateIn stateOut : Option String) (recordProgram : Bool)
      (sounds : List String)
  /-- Translates all trees in a directory. -/
  | batch (treesDir : String) (stateOut : Option String) (sounds : List String)
  /-- Lists the vocabulary. -/
  | vocabulary (sounds : List String)
deriving DecidableEq

/-- The options of a command as they are given, in order. -/
structure Options where
  values : List (String × String) := []
  flags : List String := []
deriving DecidableEq

namespace Options

/-- An argument that sets how much the program says. -/
def isVerbosity (argument : String) : Bool :=
  argument = "--verbose" ||
    match argument.toList with
    | '-' :: 'v' :: rest => rest.all (· = 'v')
    | _ => false

/-- An argument that looks like an option, and so is not the value of one. -/
def looksLikeOption (argument : String) : Bool :=
  argument.toList.head? = some '-' && argument ≠ "-"

/-- The name of an option, and the value written together with it. -/
def splitValue (argument : String) : String × Option String :=
  let cs := argument.toList
  match cs.dropWhile (· ≠ '=') with
  | [] => (argument, none)
  | _ :: value => (String.ofList (cs.takeWhile (· ≠ '=')), some (String.ofList value))

/-- Reads options, given the names of those with a value and of those without; `none` for
anything else.  A final `--` says that no more options follow. -/
def read? (valued flags : List String) : List String → Option Options
  | [] => some {}
  | argument :: rest =>
    if argument = "--" then if rest = [] then some {} else none
    else if isVerbosity argument then read? valued flags rest
    else if argument ∈ flags then
      (read? valued flags rest).map fun options => { options with flags := argument :: options.flags }
    else
      let (name, value?) := splitValue argument
      if name ∈ valued then
        match value?, rest with
        | some value, rest =>
          (read? valued flags rest).map fun options =>
            { options with values := (name, value) :: options.values }
        | none, value :: rest =>
          if looksLikeOption value then none
          else (read? valued flags rest).map fun options =>
            { options with values := (name, value) :: options.values }
        | none, [] => none
      else none

/-- All values of an option. -/
def all (options : Options) (name : String) : List String :=
  (options.values.filter (·.1 = name)).map Prod.snd

/-- The value of an option that may be given once; `none` when it is given more often. -/
def optional? (options : Options) (name : String) : Option (Option String) :=
  match options.all name with
  | [] => some none
  | [value] => some (some value)
  | _ => none

/-- The value of an option that has to be given once. -/
def required? (options : Options) (name : String) : Option String :=
  match options.all name with
  | [value] => some value
  | _ => none

/-- Whether a flag is given; `none` when it is given more than once. -/
def flag? (options : Options) (name : String) : Option Bool :=
  match options.flags.count name with
  | 0 => some false
  | 1 => some true
  | _ => none

end Options

namespace Command

/-- Reads the options of a command. -/
def ofName? (name : String) (arguments : List String) : Option Command :=
  match name with
  | "translate" => do
    let options ← Options.read? ["--tree", "--state-in", "--state-out", "--sound"]
      ["--record-program"] arguments
    return .translate (← options.required? "--tree") (← options.optional? "--state-in")
      (← options.optional? "--state-out") (← options.flag? "--record-program")
      (options.all "--sound")
  | "batch" => do
    let options ← Options.read? ["--trees-dir", "--state-out", "--sound"] [] arguments
    return .batch (← options.required? "--trees-dir") (← options.optional? "--state-out")
      (options.all "--sound")
  | "vocabulary" => do
    let options ← Options.read? ["--sound"] [] arguments
    return .vocabulary (options.all "--sound")
  | _ => none

/-- Reads the arguments of the program; `none` when they make no sense. -/
def read? : List String → Option Command
  | [] => none
  | argument :: rest =>
    if Options.isVerbosity argument then read? rest else ofName? argument rest

end Command

end PhraseScript.CommandLine
