import PhraseScript.Derivation.Basic
import PhraseScript.Json.Record

/-!
# Derivation trees as JSON

Every node is a record whose first field, `kind`, tells which other fields it has.  Inside a
tree a kind may also be given by number.  A span is a record of its own and may be left out.
-/

namespace PhraseScript

/-- A span as a JSON object. -/
def Span.toJson (span : Span) : Json :=
  .ofMembers [("start", .int span.start), ("end", .int span.stop)]

/-- Reads a span. -/
def Span.ofWritten? (written : Json.Written) : Option Span := do
  let fields ← written.record? ["start", "end"]
  return ⟨← (← fields.lookup "start").natural?, ← (← fields.lookup "end").natural?⟩

namespace Derivation

mutual

/-- A tree as a JSON object, its span included. -/
def toJson : Derivation → Json
  | .leaf category word span =>
    .ofMembers [("kind", .string "leaf"), ("category", .string category), ("word", .string word),
      ("span", span.toJson)]
  | .node lhs rhs children span =>
    .ofMembers [("kind", .string "rule"), ("lhs", .string lhs),
      ("rhs", .array (rhs.map .string)), ("children", .array (forestJson children)),
      ("span", span.toJson)]

/-- Several trees as JSON objects. -/
def forestJson : List Derivation → List Json
  | [] => []
  | tree :: rest => toJson tree :: forestJson rest

end

/-- The two kinds of node. -/
inductive NodeKind where
  | rule
  | leaf
deriving DecidableEq

/-- The fields of a kind of node, in their order. -/
def NodeKind.fields : NodeKind → List String
  | .rule => ["kind", "lhs", "rhs", "children", "span"]
  | .leaf => ["kind", "category", "word", "span"]

/-- The kind of node that a `kind` field names or numbers. -/
def NodeKind.ofWritten? (written : Json.Written) : Option NodeKind :=
  if written.string? = some "rule" ∨ written.natural? = some 0 then some .rule
  else if written.string? = some "leaf" ∨ written.natural? = some 1 then some .leaf
  else none

/-- The field of a node that holds its kind: in an array the first item. -/
def kindField? : Json.Written → Option Json.Written
  | .array items => items.head?
  | .object members => members.lookup (some "kind")
  | _ => none

/-- The span among the fields of a node. -/
def spanAmong? (fields : List (String × Json.Written)) : Option Span :=
  match fields.lookup "span" with
  | some span => Span.ofWritten? span
  | none => some .unset

/-- Puts a node together from its fields and its children, which leaves do not have. -/
def ofFields? (written : Json.Written) (children : Option (List Derivation)) :
    Option Derivation := do
  let kind ← NodeKind.ofWritten? (← kindField? written)
  let fields ← written.record? kind.fields
  let span ← spanAmong? fields
  match kind with
  | .rule =>
    let lhs ← (← fields.lookup "lhs").string?
    let rhs ← (← fields.lookup "rhs").items? (·.string?)
    return .node lhs rhs (← children) span
  | .leaf =>
    let category ← (← fields.lookup "category").string?
    let word ← (← fields.lookup "word").string?
    return .leaf category word span

mutual

/-- Reads a tree. -/
def ofWritten? : Json.Written → Option Derivation
  | .object members => ofFields? (.object members) (childrenAmong? members)
  | .array items => ofFields? (.array items) (childrenAt? 3 items)
  | _ => none

/-- Reads an array of trees. -/
def forestOfWritten? : Json.Written → Option (List Derivation)
  | .array items => treesOfWritten? items
  | _ => none

/-- Reads several trees. -/
def treesOfWritten? : List Json.Written → Option (List Derivation)
  | [] => some []
  | item :: rest => do return (← ofWritten? item) :: (← treesOfWritten? rest)

/-- Reads the children among the members of a node. -/
def childrenAmong? : List (Option String × Json.Written) → Option (List Derivation)
  | [] => none
  | (key, value) :: rest =>
    if key = some "children" then forestOfWritten? value else childrenAmong? rest

/-- Reads the children at a position among the items of a node. -/
def childrenAt? : Nat → List Json.Written → Option (List Derivation)
  | _, [] => none
  | 0, item :: _ => forestOfWritten? item
  | position + 1, _ :: rest => childrenAt? position rest

end

end Derivation

end PhraseScript
