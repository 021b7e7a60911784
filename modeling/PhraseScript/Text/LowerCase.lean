import PhraseScript.Text.CaseTable

/-!
# Lower case

The lower case form of a text.  Two letters need more than a table: a capital sigma at the end
of a word becomes a final sigma, and a capital I with a dot becomes two characters.
-/

namespace PhraseScript.Text

/-- The lower case form of a letter that has one of a single character, elsewhere the
character itself. -/
def lowerChar (c : Char) : Char :=
  if c.toNat < 0x80 then
    if c.isUpper then Char.ofNat (c.toNat + 0x20) else c
  else
    match lowerRanges.find? (·.contains c.toNat) with
    | some range => Char.ofNat (c.toNat + range.shift).toNat
    | none => c

/-- The next character is cased, those passed over aside. -/
def nextIsCased (cs : List Char) : Bool :=
  match cs.dropWhile fun c => inRanges caseIgnorableRanges c.toNat with
  | [] => false
  | c :: _ => inRanges casedRanges c.toNat

/-- The lower case form of a character that stands between two texts, the one before it
given last character first.  A capital sigma ends a word when a cased character comes before
it and none after it. -/
def lowerAt (before : List Char) (c : Char) (after : List Char) : List Char :=
  if c = 'Σ' then
    if nextIsCased before && !nextIsCased after then ['ς'] else ['σ']
  else if c = 'İ' then ['i', '\u0307']
  else [lowerChar c]

/-- The lower case form of the rest of a text, after the characters before it. -/
def lowerFrom (before : List Char) : List Char → List Char
  | [] => []
  | c :: rest => lowerAt before c rest ++ lowerFrom (c :: before) rest

/-- A text in lower case. -/
def toLower (s : String) : String := String.ofList (lowerFrom [] s.toList)

end PhraseScript.Text
