import PhraseScript.Number.Literal

/-!
# JSON tokens

A JSON text is cut into tokens one character at a time: `step` takes the cutter from one
state to the next and gives out the tokens that the character completes.  Strings are
decoded on the way.  A string that names half of a surrogate pair has no contents, but it is
still a token: a reader may skip it.
-/

namespace PhraseScript.Json

/-- A token of a JSON text. -/
inductive Token where
  | openBrace
  | closeBrace
  | openBracket
  | closeBracket
  | colon
  | comma
  | null
  | bool (value : Bool)
  | number (literal : Literal)
  /-- A string, without contents when an escape names half of a surrogate pair. -/
  | string (contents : Option String)
deriving DecidableEq

namespace Token

/-- What a text being cut into tokens is in the middle of.  Characters already read are kept
last first. -/
inductive State where
  | between
  | word (read : List Char)
  | number (read : List Char)
  /-- Inside a string, with the code points and surrogates read so far. -/
  | string (units : List Nat)
  /-- After a backslash. -/
  | escape (units : List Nat)
  /-- In the digits of a numeric escape: how many are missing, and the value so far. -/
  | hex (units : List Nat) (missing value : Nat)

/-- The blanks between tokens. -/
def isBlank (c : Char) : Bool := c = ' ' || c = '\t' || c = '\n' || c = '\r'

/-- The characters that numbers are made of. -/
def isNumberChar (c : Char) : Bool :=
  c.isDigit || c = '-' || c = '+' || c = '.' || c = 'e' || c = 'E'

/-- The tokens that are one character long. -/
def punctuation? (c : Char) : Option Token :=
  match c with
  | '{' => some .openBrace
  | '}' => some .closeBrace
  | '[' => some .openBracket
  | ']' => some .closeBracket
  | ':' => some .colon
  | ',' => some .comma
  | _ => none

/-- The three words of JSON. -/
def word? (cs : List Char) : Option Token :=
  if cs = ['n', 'u', 'l', 'l'] then some .null
  else if cs = ['t', 'r', 'u', 'e'] then some (.bool true)
  else if cs = ['f', 'a', 'l', 's', 'e'] then some (.bool false)
  else none

/-- A number: no plus sign in front, no zero in front of other digits, and digits on both
sides of a point. -/
def number? (cs : List Char) : Option Token :=
  match Literal.read? cs with
  | none => none
  | some literal =>
    if cs.head? = some '+' ∨ literal.whole = [] ∨ literal.fraction = some [] ∨
        (literal.whole.head? = some '0' ∧ literal.whole.length ≠ 1) then none
    else some (.number literal)

/-- The first half of a surrogate pair. -/
def isHighSurrogate (n : Nat) : Bool := 0xD800 ≤ n && n < 0xDC00

/-- The second half of a surrogate pair. -/
def isLowSurrogate (n : Nat) : Bool := 0xDC00 ≤ n && n < 0xE000

/-- Joins surrogate pairs; `none` when half of a pair stands alone. -/
def joinSurrogates : List Nat → Option (List Char)
  | [] => some []
  | [unit] =>
    if isHighSurrogate unit || isLowSurrogate unit then none else some [Char.ofNat unit]
  | unit :: next :: rest =>
    if isHighSurrogate unit then
      if isLowSurrogate next then
        (joinSurrogates rest).map
          (Char.ofNat (0x10000 + (unit - 0xD800) * 0x400 + (next - 0xDC00)) :: ·)
      else none
    else if isLowSurrogate unit then none
    else (joinSurrogates (next :: rest)).map (Char.ofNat unit :: ·)

/-- The value of a hexadecimal digit. -/
def hexValue? (c : Char) : Option Nat :=
  if c.isDigit then some (c.toNat - '0'.toNat)
  else if 'a' ≤ c && c ≤ 'f' then some (c.toNat - 'a'.toNat + 10)
  else if 'A' ≤ c && c ≤ 'F' then some (c.toNat - 'A'.toNat + 10)
  else none

/-- What a backslash and one more character stand for. -/
def escaped? (c : Char) : Option Nat :=
  match c with
  | '"' => some '"'.toNat
  | '\\' => some '\\'.toNat
  | '/' => some '/'.toNat
  | 'b' => some 8
  | 'f' => some 12
  | 'n' => some 10
  | 'r' => some 13
  | 't' => some 9
  | _ => none

/-- Takes a character that does not continue a word or a number. -/
def start (c : Char) : Option (List Token × State) :=
  if isBlank c then some ([], .between)
  else if c = '"' then some ([], .string [])
  else if c.isDigit || c = '-' then some ([], .number [c])
  else if c.isAlpha then some ([], .word [c])
  else (punctuation? c).map fun token => ([token], .between)

/-- Takes one character; `none` when no token can contain or follow it. -/
def step : State → Char → Option (List Token × State)
  | .between, c => start c
  | .word read, c =>
    if c.isAlpha then some ([], .word (c :: read))
    else do
      let token ← word? read.reverse
      let (tokens, state) ← start c
      return (token :: tokens, state)
  | .number read, c =>
    if isNumberChar c then some ([], .number (c :: read))
    else do
      let token ← number? read.reverse
      let (tokens, state) ← start c
      return (token :: tokens, state)
  | .string units, c =>
    if c = '"' then
      some ([.string ((joinSurrogates units.reverse).map String.ofList)], .between)
    else if c = '\\' then some ([], .escape units)
    else if c.toNat < 32 then none
    else some ([], .string (c.toNat :: units))
  | .escape units, c =>
    if c = 'u' then some ([], .hex units 4 0)
    else (escaped? c).map fun unit => ([], .string (unit :: units))
  | .hex units missing value, c =>
    (hexValue? c).map fun digit =>
      let value := 16 * value + digit
      ([], if missing ≤ 1 then .string (value :: units) else .hex units (missing - 1) value)

/-- The token that the end of the text completes; `none` inside a string. -/
def finish : State → Option (List Token)
  | .between => some []
  | .word read => (word? read.reverse).map ([·])
  | .number read => (number? read.reverse).map ([·])
  | _ => none

/-- Cuts the rest of a text into tokens. -/
def cut (state : State) : List Char → Option (List Token)
  | [] => finish state
  | c :: rest => do
    let (tokens, state) ← step state c
    return tokens ++ (← cut state rest)

/-- The tokens of a text; `none` when it cannot be cut into tokens. -/
def tokens? (text : List Char) : Option (List Token) := cut .between text

end Token

end PhraseScript.Json
