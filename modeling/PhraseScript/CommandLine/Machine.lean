import PhraseScript.CommandLine.Host

/-!
# A machine for the program to run on

A file system and a screen as plain values.  Running the program on a `Machine` has no other
effect than to give another one, so what a run does to files and prints can be read off.

Paths and names have a greatest size, counted in bytes of UTF-8, and no path has a null
character in it.
-/

namespace PhraseScript.CommandLine

/-- The names of a file or directory and of those it is in, outermost first. -/
abbrev Location := List String

/-- What there is at a location. -/
inductive Entry where
  | directory
  /-- A file with its contents, which are missing when they are not text. -/
  | file (contents : Option String)
  /-- Swallows what is written to it, and has no contents. -/
  | sink
deriving DecidableEq

/-- A file system, a place in it, and what has been printed. -/
structure Machine where
  entries : List (Location × Entry) := []
  workingDirectory : Location := []
  /-- The printed lines, in order. -/
  printed : List String := []

namespace Machine

/-! ## Reasons for which an operation fails -/

def notFound : String := "No such file or directory (os error 2)"
def alreadyThere : String := "File exists (os error 17)"
def notADirectory : String := "Not a directory (os error 20)"
def isADirectory : String := "Is a directory (os error 21)"
def tooLong : String := "File name too long (os error 36)"
def nullInPath : String := "file name contained an unexpected NUL byte"
def notText : String := "stream did not contain valid UTF-8"

/-- The greatest size of a path, in bytes. -/
def maxPathSize : Nat := 4095

/-- The greatest size of a name, in bytes. -/
def maxNameSize : Nat := 255

/-- Refuses a text that cannot be a path, whatever files there are. -/
def checkPath (path : String) : Except String Unit :=
  if path = "" then .error notFound
  else if path.toList.contains '\x00' then .error nullInPath
  else if path.utf8ByteSize ≤ maxPathSize then .ok ()
  else .error tooLong

/-! ## Looking things up -/

/-- What there is at a location. -/
def entry? (machine : Machine) (location : Location) : Option Entry :=
  if location = [] then some .directory else machine.entries.lookup location

/-- Puts something at a location, replacing what is there. -/
def put (machine : Machine) (location : Location) (entry : Entry) : Machine :=
  { machine with
    entries := (location, entry) :: machine.entries.filter fun other => other.1 ≠ location }

/-- Follows names from a location.  Only directories can be looked into; what the last name
leads to need not be there. -/
def follow (machine : Machine) (here : Location) : List String → Except String Location
  | [] => .ok here
  | name :: rest =>
    match machine.entry? here with
    | none => .error notFound
    | some .directory =>
      if name = "" ∨ name = "." then machine.follow here rest
      else if name = ".." then machine.follow here.dropLast rest
      else if name.utf8ByteSize ≤ maxNameSize then machine.follow (here ++ [name]) rest
      else .error tooLong
    | some _ => .error notADirectory

/-- Where a path starts. -/
def origin (machine : Machine) (path : String) : Location :=
  if Path.isAbsolute path then [] else machine.workingDirectory

/-- The location that a path leads to. -/
def locate (machine : Machine) (path : String) : Except String Location :=
  match checkPath path with
  | .error reason => .error reason
  | .ok () => machine.follow (machine.origin path) (Path.parts path)

/-- What there is at the end of a path. -/
def at? (machine : Machine) (path : String) : Option Entry :=
  match machine.locate path with
  | .error _ => none
  | .ok location => machine.entry? location

/-! ## Operations -/

/-- The contents of the file at a path. -/
def readText (machine : Machine) (path : String) : Except String String :=
  match machine.locate path with
  | .error reason => .error reason
  | .ok location =>
    match machine.entry? location with
    | some (.file (some contents)) => .ok contents
    | some (.file none) => .error notText
    | some .sink => .ok ""
    | some .directory => .error isADirectory
    | none => .error notFound

/-- The names that lead from a location to the files inside it.  A directory whose own path,
from the given one on, is too long is passed over. -/
def filesInside (machine : Machine) (path : String) : List String :=
  match machine.locate path with
  | .error _ => []
  | .ok location =>
    machine.entries.filterMap fun (inner, entry) =>
      match entry with
      | .file _ =>
        let names := inner.drop location.length
        if location.isPrefixOf inner &&
            (names.dropLast.foldl Path.join path).utf8ByteSize ≤ maxPathSize then
          some ("/".intercalate names)
        else none
      | _ => none

/-- Makes the directories that names lead through.  Those made before something is in the way
stay. -/
def makeDirectoriesFrom (machine : Machine) (here : Location) :
    List String → Machine × Except String Unit
  | [] => (machine, .ok ())
  | name :: rest =>
    if name = "" ∨ name = "." then machine.makeDirectoriesFrom here rest
    else if name = ".." then machine.makeDirectoriesFrom here.dropLast rest
    else
      let there := here ++ [name]
      match machine.entry? there with
      | some .directory => machine.makeDirectoriesFrom there rest
      | some _ => (machine, .error alreadyThere)
      | none =>
        if name.utf8ByteSize ≤ maxNameSize then
          (machine.put there .directory).makeDirectoriesFrom there rest
        else (machine, .error tooLong)

/-- Makes the directories that a path leads through. -/
def makeDirectories (machine : Machine) (path : String) : Machine × Except String Unit :=
  match checkPath path with
  | .error reason => (machine, .error reason)
  | .ok () => machine.makeDirectoriesFrom (machine.origin path) (Path.parts path)

/-- Replaces the contents of a file, which may be new. -/
def writeText (machine : Machine) (path contents : String) : Machine × Except String Unit :=
  match machine.locate path with
  | .error reason => (machine, .error reason)
  | .ok location =>
    match machine.entry? location with
    | some .directory => (machine, .error isADirectory)
    | some .sink => (machine, .ok ())
    | _ => (machine.put location (.file (some contents)), .ok ())

instance : Host (StateM Machine) where
  print line := modify fun machine => { machine with printed := machine.printed ++ [line] }
  workingDirectory := return .ok ("/" ++ "/".intercalate (← get).workingDirectory)
  pathExists path := return ((← get).at? path).isSome
  isFile path := return match (← get).at? path with
    | some (.file _) => true
    | _ => false
  isDirectory path := return (← get).at? path = some .directory
  readText path := return (← get).readText path
  filesInside path := return (← get).filesInside path
  makeDirectories path := modifyGet fun machine =>
    let (machine, outcome) := machine.makeDirectories path
    (outcome, machine)
  writeText path contents := modifyGet fun machine =>
    let (machine, outcome) := machine.writeText path contents
    (outcome, machine)

end Machine

end PhraseScript.CommandLine
