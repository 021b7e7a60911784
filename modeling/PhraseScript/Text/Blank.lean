/-!
# White space

The 25 characters with the Unicode property `White_Space`, and the three things done with
them: dropping them from the ends of a text, and cutting a text into the words between them.
-/

namespace PhraseScript.Text

/-- A character with the Unicode property `White_Space`. -/
def isBlank (c : Char) : Bool :=
  let n := c.toNat
  (0x9 ≤ n && n ≤ 0xD) || n == 0x20 || n == 0x85 || n == 0xA0 || n == 0x1680 ||
    (0x2000 ≤ n && n ≤ 0x200A) || n == 0x2028 || n == 0x2029 || n == 0x202F || n == 0x205F ||
    n == 0x3000

/-- The text without the blanks it begins with. -/
def trimStart (cs : List Char) : List Char := cs.dropWhile isBlank

/-- The text without the blanks it begins and ends with. -/
def trim (cs : List Char) : List Char :=
  (trimStart (trimStart cs).reverse).reverse

/-- Puts a character in front of the first word. -/
def consWord (c : Char) : List (List Char) → List (List Char)
  | [] => [[c]]
  | word :: rest => (c :: word) :: rest

/-- The words of a text: its longest stretches without a blank.  `pending` tells whether
the character before the text belongs to a word, which the text then continues. -/
def wordsFrom (pending : Bool) : List Char → List (List Char)
  | [] => if pending then [[]] else []
  | c :: rest =>
    if isBlank c then
      if pending then [] :: wordsFrom false rest else wordsFrom false rest
    else consWord c (wordsFrom true rest)

/-- The longest stretches of a text without a blank, in order. -/
def words (cs : List Char) : List (List Char) := wordsFrom false cs

end PhraseScript.Text
