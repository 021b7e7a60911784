import PhraseScript.Json.Token

/-!
# JSON as written

A text that is one JSON value, before anything is asked of its contents: members stay in
their order and may repeat a key, numbers keep their digits, and a string may be without
contents.  A reader that skips a member skips it in this form, so that nothing is asked of
what it skips.

The value is put together by a machine with a stack of the arrays and objects that are still
open, one token at a time.
-/

namespace PhraseScript.Json

/-- A JSON value as written. -/
inductive Written where
  | null
  | bool (value : Bool)
  | number (literal : Literal)
  /-- A string, without contents when an escape names half of a surrogate pair. -/
  | string (contents : Option String)
  | array (items : List Written)
  | object (members : List (Option String × Written))

namespace Written

instance : Inhabited Written := ⟨.null⟩

/-- An array or object that is still open, with what it holds so far, last first.  An object
waits for the value of a key. -/
inductive Frame where
  | array (items : List Written)
  | object (members : List (Option String × Written)) (key : Option String)

/-- What the machine takes next. -/
inductive Expecting where
  /-- A value. -/
  | value
  /-- A value, or the end of an array that is still empty. -/
  | firstItem
  /-- A key of the object with these members so far, last first. -/
  | key (members : List (Option String × Written))
  /-- A key, or the end of an object that is still empty. -/
  | firstKey
  /-- The colon after a key. -/
  | colon (members : List (Option String × Written)) (key : Option String)
  /-- A comma or the end of what is open, after a value. -/
  | separator (value : Written)

/-- The machine: what it takes next, and what is open, innermost first. -/
structure Machine where
  expecting : Expecting
  opened : List Frame

/-- The value that a token is by itself. -/
def ofToken? : Token → Option Written
  | .null => some .null
  | .bool value => some (.bool value)
  | .number literal => some (.number literal)
  | .string contents => some (.string contents)
  | _ => none

/-- Takes the first token of a value. -/
def beginValue (opened : List Frame) (token : Token) : Option Machine :=
  match token with
  | .openBracket => some ⟨.firstItem, .array [] :: opened⟩
  | .openBrace => some ⟨.firstKey, opened⟩
  | token => (ofToken? token).map fun value => ⟨.separator value, opened⟩

/-- Takes one token; `none` when it cannot stand there. -/
def step (machine : Machine) (token : Token) : Option Machine :=
  match machine.expecting, machine.opened, token with
  | .value, opened, token => beginValue opened token
  | .firstItem, .array [] :: opened, .closeBracket => some ⟨.separator (.array []), opened⟩
  | .firstItem, opened, token => beginValue opened token
  | .firstKey, opened, .closeBrace => some ⟨.separator (.object []), opened⟩
  | .firstKey, opened, .string key => some ⟨.colon [] key, opened⟩
  | .key members, opened, .string key => some ⟨.colon members key, opened⟩
  | .colon members key, opened, .colon => some ⟨.value, .object members key :: opened⟩
  | .separator value, .array items :: opened, .comma =>
    some ⟨.value, .array (value :: items) :: opened⟩
  | .separator value, .array items :: opened, .closeBracket =>
    some ⟨.separator (.array (value :: items).reverse), opened⟩
  | .separator value, .object members key :: opened, .comma =>
    some ⟨.key ((key, value) :: members), opened⟩
  | .separator value, .object members key :: opened, .closeBrace =>
    some ⟨.separator (.object ((key, value) :: members).reverse), opened⟩
  | _, _, _ => none

/-- The value of a machine that has nothing open. -/
def finished? (machine : Machine) : Option Written :=
  match machine.expecting, machine.opened with
  | .separator value, [] => some value
  | _, _ => none

/-- The value that a list of tokens spells. -/
def ofTokens? (tokens : List Token) : Option Written :=
  (tokens.foldlM step ⟨.value, []⟩).bind finished?

/-- Reads a text that is one JSON value. -/
def read? (text : String) : Option Written :=
  (Token.tokens? text.toList).bind ofTokens?

mutual

/-- How many arrays and objects are open at the deepest point of a value. -/
def depth : Written → Nat
  | .array items => itemsDepth items + 1
  | .object members => membersDepth members + 1
  | _ => 0

/-- The greatest depth among items. -/
def itemsDepth : List Written → Nat
  | [] => 0
  | item :: rest => max (depth item) (itemsDepth rest)

/-- The greatest depth among members. -/
def membersDepth : List (Option String × Written) → Nat
  | [] => 0
  | (_, value) :: rest => max (depth value) (membersDepth rest)

end

end Written

end PhraseScript.Json
