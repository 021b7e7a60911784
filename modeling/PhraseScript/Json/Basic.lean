import PhraseScript.Dictionary
import PhraseScript.Number.Double

/-!
# JSON values

Numbers keep whether they were written as integers: `1` and `1.0` are different values.
Objects list their members by increasing key, so equal objects are equal lists.
-/

namespace PhraseScript

/-- A number in a JSON value. -/
inductive Json.Number where
  /-- An integer of at most 64 bits. -/
  | integer (value : Int)
  /-- Any other number, held as a finite double. -/
  | real (negative : Bool) (magnitude : Magnitude)
deriving DecidableEq

/-- A JSON value. -/
inductive Json where
  | null
  | bool (value : Bool)
  | number (value : Json.Number)
  | string (value : String)
  | array (items : List Json)
  /-- The members by increasing key. -/
  | object (members : List (String × Json))

namespace Json

instance : Inhabited Json := ⟨.null⟩

/-- An integer. -/
def int (value : Int) : Json := .number (.integer value)

/-- The object with the given members; of several with one key the last counts. -/
def ofMembers (members : List (String × Json)) : Json :=
  .object (members.foldl (fun sorted member => insertEntry member.1 member.2 sorted) [])

/-- The member under a key; only objects have members. -/
def member? (key : String) : Json → Option Json
  | .object members => valueAt? key members
  | _ => none

end Json

/-- The double nearest to a JSON number. -/
def Json.Number.toDouble : Json.Number → Double
  | .integer value => .ofInt value
  | .real negative magnitude => .finite negative magnitude

/-- A double as a JSON value: an integer when it is whole and below `2 ^ 53` in magnitude,
so that zero loses its sign; `null` when it is not finite. -/
def Double.toJson (x : Double) : Json :=
  match x.toInt? with
  | some value => .int value
  | none =>
    match x with
    | .finite negative magnitude => .number (.real negative magnitude)
    | _ => .null

end PhraseScript
