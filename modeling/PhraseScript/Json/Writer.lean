import PhraseScript.Json.Basic
import PhraseScript.Number.Decimal

/-!
# Writing JSON

Compact texts: nothing between the tokens, members in the order of the value.  In strings
only the quotation mark, the backslash and the control characters below U+0020 are escaped.
Reals are written with the fewest digits that read back, with a point from `10 ^ (-5)` up to
`10 ^ 16` and with an exponent beyond.
-/

namespace PhraseScript.Json

/-- A digit of a hexadecimal number, in lower case. -/
def hexDigit (n : Nat) : Char :=
  if n < 10 then Char.ofNat ('0'.toNat + n) else Char.ofNat ('a'.toNat + (n - 10))

/-- A character as it stands in a string. -/
def escape (c : Char) : List Char :=
  if c = '"' then ['\\', '"']
  else if c = '\\' then ['\\', '\\']
  else if c = '\n' then ['\\', 'n']
  else if c = '\r' then ['\\', 'r']
  else if c = '\t' then ['\\', 't']
  else if c.toNat = 8 then ['\\', 'b']
  else if c.toNat = 12 then ['\\', 'f']
  else if c.toNat < 32 then ['\\', 'u', '0', '0', hexDigit (c.toNat / 16), hexDigit (c.toNat % 16)]
  else [c]

/-- A string between quotation marks. -/
def quote (s : String) : String :=
  String.ofList ('"' :: (s.toList.flatMap escape ++ ['"']))

/-- A positive or negative real: always with a point or an exponent. -/
def realText (magnitude : Magnitude) : String :=
  let decimal := magnitude.shortest .even
  if decimal.digits = 0 then "0.0"
  else if decimal.leadingExponent < -5 ∨ 15 < decimal.leadingExponent then decimal.scientific
  else if 0 ≤ decimal.exponent then decimal.positional ++ ".0"
  else decimal.positional

/-- The text of a number. -/
def Number.text : Number → String
  | .integer value => (if value < 0 then "-" else "") ++ naturalText value.natAbs
  | .real negative magnitude => (if negative then "-" else "") ++ realText magnitude

mutual

/-- The compact text of a value. -/
def compact : Json → String
  | .null => "null"
  | .bool value => if value then "true" else "false"
  | .number value => value.text
  | .string value => quote value
  | .array items => "[" ++ compactItems items ++ "]"
  | .object members => "\x7b" ++ compactMembers members ++ "\x7d"

/-- The items of an array, separated by commas. -/
def compactItems : List Json → String
  | [] => ""
  | [item] => compact item
  | item :: rest => compact item ++ "," ++ compactItems rest

/-- The members of an object, separated by commas. -/
def compactMembers : List (String × Json) → String
  | [] => ""
  | [(key, value)] => quote key ++ ":" ++ compact value
  | (key, value) :: rest => quote key ++ ":" ++ compact value ++ "," ++ compactMembers rest

end

/-- An object with its members in the given order, their values already written. -/
def record (fields : List (String × String)) : String :=
  "\x7b" ++ ",".intercalate (fields.map fun field => quote field.1 ++ ":" ++ field.2) ++ "\x7d"

end PhraseScript.Json
