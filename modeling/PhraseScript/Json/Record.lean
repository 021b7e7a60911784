import PhraseScript.Dictionary
import PhraseScript.Json.Reading

/-!
# Records in JSON

The forms in which structured data is read.  A record is an object with fields, or an array
that lists the fields in their order; fields that are not asked for are passed over.  A
dictionary is an object with arbitrary keys.
-/

namespace PhraseScript.Json.Written

/-- The fields of a record among `names`.  An object may have others besides, but none of
these twice; an array may leave out the last ones. -/
def record? (names : List String) : Written → Option (List (String × Written))
  | .array items => if items.length ≤ names.length then some (names.zip items) else none
  | .object members => do
    let members ← members.mapM fun member => member.1.map (·, member.2)
    let known := members.filter fun member => member.1 ∈ names
    if (known.map Prod.fst).Nodup then some known else none
  | _ => none

/-- The entries of a dictionary; of several with one key the last counts. -/
def dictionary? {α : Type} (read : Written → Option α) : Written → Option (Dictionary α)
  | .object members => do
    let entries ← members.mapM fun member => do return (← member.1, ← read member.2)
    return .ofList entries
  | _ => none

/-- The items of an array. -/
def items? {α : Type} (read : Written → Option α) : Written → Option (List α)
  | .array items => items.mapM read
  | _ => none

/-- A string with contents. -/
def string? : Written → Option String
  | .string contents => contents
  | _ => none

/-- A natural number of at most 64 bits. -/
def natural? : Written → Option Nat
  | .number literal =>
    match Number.ofLiteral? literal with
    | some (.integer value) => if 0 ≤ value then some value.toNat else none
    | _ => none
  | _ => none

end PhraseScript.Json.Written
