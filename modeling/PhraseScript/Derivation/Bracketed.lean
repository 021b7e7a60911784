import PhraseScript.Fault
import PhraseScript.Text.Blank

/-!
# Derivation trees in brackets

A tree as it is written in `(AL (AP (SoundCommand (Stop stop))))`: each node in brackets,
beginning with its category, followed by its word or by its children.  Blanks separate words
and are otherwise free; a semicolon starts a comment that runs to the end of the line.

Reading happens in two steps, from characters to tokens and from tokens to a tree.  The second
step is a machine that keeps the nodes which are still open on a stack, so that what it does is
settled by one token at a time, and so is the fault it finds.
-/

namespace PhraseScript.Bracketed

/-- A token of a bracketed tree. -/
inductive Token where
  | opening
  | closing
  | word (text : String)
deriving DecidableEq, Repr

/-! ## From characters to tokens -/

/-- A text without its comments; `inside` tells whether it begins in one.  The ends of lines
stay. -/
def dropComments (inside : Bool) : List Char → List Char
  | [] => []
  | c :: rest =>
    if c = '\n' then c :: dropComments false rest
    else if inside || c = ';' then dropComments true rest
    else c :: dropComments false rest

/-- The word that ends here, if one has begun.  Its characters are given last first. -/
def endWord (read : List Char) : List Token :=
  if read = [] then [] else [.word (String.ofList read.reverse)]

/-- Cuts a text without comments into tokens, after the characters of a word that has begun. -/
def cut (read : List Char) : List Char → List Token
  | [] => endWord read
  | c :: rest =>
    if Text.isBlank c then endWord read ++ cut [] rest
    else if c = '(' then endWord read ++ .opening :: cut [] rest
    else if c = ')' then endWord read ++ .closing :: cut [] rest
    else cut (c :: read) rest

/-- The tokens of a text. -/
def tokens (text : List Char) : List Token := cut [] (dropComments false text)

/-! ## From tokens to a tree -/

/-- A node that is still open, with its finished children, last first. -/
structure Frame where
  category : String
  children : List Derivation

/-- Where in a tree the next token stands. -/
inductive State where
  /-- Before the tree. -/
  | start
  /-- After an opening bracket, inside these nodes. -/
  | opened (outer : List Frame)
  /-- After a category or a child of the innermost of these nodes. -/
  | body (innermost : Frame) (outer : List Frame)
  /-- After the word of a leaf. -/
  | leaf (category word : String) (outer : List Frame)
  /-- After the tree. -/
  | finished (tree : Derivation)

/-- The state after a finished tree inside those nodes. -/
def close (tree : Derivation) : List Frame → State
  | [] => .finished tree
  | frame :: outer => .body { frame with children := tree :: frame.children } outer

/-- Takes one token. -/
def step : State → Token → Except TreeFault State
  | .start, .opening => .ok (.opened [])
  | .start, .word word => .error (.wordForTree word)
  | .start, .closing => .error .closingForTree
  | .opened outer, .word category => .ok (.body ⟨category, []⟩ outer)
  | .opened _, _ => .error .noCategory
  | .body ⟨category, []⟩ outer, .word word => .ok (.leaf category word outer)
  | .body ⟨category, _⟩ _, .word word => .error (.bareWord word category)
  | .body innermost outer, .opening => .ok (.opened (innermost :: outer))
  | .body ⟨category, []⟩ _, .closing => .error (.noChildren category)
  | .body ⟨category, children⟩ outer, .closing =>
    .ok (close (.apply category children.reverse) outer)
  | .leaf category word outer, .closing => .ok (close (.word category word) outer)
  | .leaf category _ _, _ => .error (.notOneWord category)
  | .finished _, _ => .error .trailing

/-- The tree that has been read when the tokens end. -/
def result : State → Except TreeFault Derivation
  | .start => .error .nothing
  | .opened _ => .error .noCategory
  | .body innermost _ => .error (.notClosed innermost.category)
  | .leaf category _ _ => .error (.notOneWord category)
  | .finished tree => .ok tree

/-- Takes the rest of the tokens. -/
def run (state : State) : List Token → Except TreeFault Derivation
  | [] => result state
  | token :: rest => do run (← step state token) rest

/-- The tree that a list of tokens spells, without spans. -/
def ofTokens (tokens : List Token) : Except TreeFault Derivation := run .start tokens

/-- Reads a text as a bracketed tree.  Its spans are counted out from its leaves. -/
def read (text : List Char) : Except Fault Derivation :=
  match ofTokens (tokens text) with
  | .ok tree => .ok tree.reindexed
  | .error cause => .error (.treeSyntax cause)

end PhraseScript.Bracketed
