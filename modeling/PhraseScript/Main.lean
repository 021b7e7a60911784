import PhraseScript.CommandLine.Run

/-!
# The program

The command line on the machine that it is started on.
-/

namespace PhraseScript.CommandLine

/-- The outcome of an operation, or the reason why it could not be done. -/
def attempt {α : Type} (operation : IO α) : IO (Except String α) := do
  match ← operation.toBaseIO with
  | .ok value => return .ok value
  | .error reason => return .error (toString reason)

/-- The names, relative to a directory, of all files in a part of it; what cannot be looked
into is passed over. -/
partial def filesIn (directory relative : String) : IO (List String) := do
  let place := (← IO.currentDir) / directory / (if relative = "" then "." else relative)
  match ← attempt place.readDir with
  | .error _ => return []
  | .ok entries =>
    let found ← entries.toList.mapM fun entry => do
      let name := if relative = "" then entry.fileName else relative ++ "/" ++ entry.fileName
      match ← attempt entry.path.symlinkMetadata with
      | .error _ => return []
      | .ok metadata =>
        match metadata.type with
        | .file => return [name]
        | .dir => filesIn directory name
        | _ => return []
    return found.flatten

instance : Host IO where
  print line := IO.println line
  workingDirectory := attempt (return (← IO.currentDir).toString)
  pathExists path := do
    if path = "" then return false else ((← IO.currentDir) / path).pathExists
  isFile path := do
    match ← attempt ((← IO.currentDir) / path).metadata with
    | .ok metadata => return metadata.type == .file
    | .error _ => return false
  isDirectory path := return ← ((← IO.currentDir) / path).isDir
  readText path := attempt (IO.FS.readFile path)
  filesInside path := filesIn path ""
  makeDirectories path := attempt (IO.FS.createDirAll path)
  writeText path contents := attempt (IO.FS.writeFile path contents)

end PhraseScript.CommandLine

/-- Runs the program with the arguments that it is started with. -/
def main (arguments : List String) : IO UInt32 := do
  match ← PhraseScript.CommandLine.run arguments with
  | .badArguments =>
    IO.eprintln "usage: translate --tree FILE | batch --trees-dir DIR | vocabulary"
    return 2
  | code => return code.toNat.toUInt32
