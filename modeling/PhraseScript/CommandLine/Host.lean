/-!
# What the program needs of its surroundings

Printing, and files.  Paths are texts with slashes; a path that does not begin with one starts
from the working directory.
-/

namespace PhraseScript.CommandLine

/-- Surroundings in which the program can run.  What can go wrong is reported by a reason. -/
class Host (m : Type → Type) where
  /-- Prints a line. -/
  print : String → m Unit
  /-- The directory in which relative paths start. -/
  workingDirectory : m (Except String String)
  /-- There is a file or directory at a path. -/
  pathExists : String → m Bool
  /-- There is a file at a path. -/
  isFile : String → m Bool
  /-- There is a directory at a path. -/
  isDirectory : String → m Bool
  /-- The contents of a file, which have to be text. -/
  readText : String → m (Except String String)
  /-- The paths, relative to a directory, of all files inside it and its subdirectories. -/
  filesInside : String → m (List String)
  /-- Makes a directory, and those that it is to be in. -/
  makeDirectories : String → m (Except String Unit)
  /-- Replaces the contents of a file. -/
  writeText : String → String → m (Except String Unit)

namespace Path

/-- The path is independent of the working directory. -/
def isAbsolute (path : String) : Bool := path.toList.head? = some '/'

/-- A path that starts in a directory. -/
def join (directory path : String) : String :=
  if isAbsolute path then path
  else if directory.toList.getLast? = some '/' then directory ++ path
  else directory ++ "/" ++ path

/-- The stretches of a text between slashes. -/
def splitSlashes : List Char → List (List Char)
  | [] => [[]]
  | c :: rest =>
    if c = '/' then [] :: splitSlashes rest
    else
      match splitSlashes rest with
      | [] => [[c]]
      | part :: parts => (c :: part) :: parts

/-- The parts of a path between its slashes.  That of an absolute path begins with an empty
one. -/
def parts (path : String) : List String := (splitSlashes path.toList).map String.ofList

/-- A part of a path that leads nowhere. -/
def isIdle (part : String) : Bool := part = "" || part = "."

/-- The parts of a path without the idle ones at its end.  The first part, which tells where
the path starts, stays. -/
def trimParts : List String → List String
  | [] => []
  | first :: rest => first :: (rest.reverse.dropWhile isIdle).reverse

/-- The path of the directory that a path leads into: what comes before its last name. -/
def parent (path : String) : String :=
  match trimParts (parts path) with
  | [] | [_] => "."
  | first :: rest =>
    match trimParts (first :: rest.dropLast) with
    | [""] => "/"
    | parts => "/".intercalate parts

end Path

end PhraseScript.CommandLine
