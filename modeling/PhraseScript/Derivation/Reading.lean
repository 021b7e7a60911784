import PhraseScript.Derivation.Bracketed
import PhraseScript.Derivation.Document

/-!
# Reading derivation trees

A text that begins with a brace is read as JSON, any other as a bracketed tree.  A JSON tree
whose root has no span gets the spans that its leaves have in the sentence; otherwise its spans
stay as they are written.
-/

namespace PhraseScript.Derivation

/-- The end of a text: the number of its last line, and the bytes that line has. -/
def endPosition (text : List Char) : Nat × Nat :=
  (text.count '\n' + 1, (String.ofList (text.reverse.takeWhile (· ≠ '\n')).reverse).utf8ByteSize)

/-- The position in a JSON text after its last bracket. -/
def documentEnd (text : List Char) : Nat × Nat :=
  endPosition (text.reverse.dropWhile Json.Token.isBlank).reverse

/-- Reads a JSON text as a tree.  The root is an object with its kind given by name, and the
whole text must have a value, also where the tree makes no use of it. -/
def readDocument (text : List Char) : Except TreeFault Derivation :=
  let written? := (Json.Written.read? (String.ofList text)).filter fun written =>
    (written.within? Json.maxDepth).isSome
  match written? with
  | none => .error .notATree
  | some written =>
    match kindField? written with
    | none =>
      let (line, column) := documentEnd text
      .error (.noKind line column)
    | some kind =>
      if kind.string?.isSome then
        match ofWritten? written with
        | some tree => .ok tree
        | none => .error .notATree
      else .error .notATree

/-- Counts out the spans of a tree that has none. -/
def withSpans (tree : Derivation) : Derivation :=
  if tree.span = .unset then tree.reindexed else tree

/-- Reads a text as a derivation tree. -/
def read (text : String) : Except Fault Derivation :=
  let text := Text.trimStart text.toList
  if text.head? = some '{' then
    match readDocument text with
    | .ok tree => .ok tree.withSpans
    | .error cause => .error (.treeSyntax cause)
  else Bracketed.read text

end PhraseScript.Derivation
