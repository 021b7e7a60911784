import PhraseScript.Json.Record
import PhraseScript.Json.Writer
import PhraseScript.Session.Basic

/-!
# Sessions as JSON

A session is a record of an environment and, when there is one, a recording; an environment is
a record of two dictionaries.  Reading counts the arrays and objects that are open around what
it reads, and `allowance` is how many more may be opened.
-/

namespace PhraseScript

namespace Environment

/-- Reads an environment. -/
def ofWritten? (allowance : Nat) (written : Json.Written) : Option Environment := do
  let fields ← written.record? ["variables", "lists"]
  let vars ← (← fields.lookup "variables").dictionary? (·.within? (allowance - 2))
  let lists ← (← fields.lookup "lists").dictionary? (·.items? (·.within? (allowance - 3)))
  return ⟨vars, lists⟩

/-- The variables as an object. -/
def variablesJson (environment : Environment) : Json := .object environment.vars.entries

/-- The lists as an object of arrays. -/
def listsJson (environment : Environment) : Json :=
  .object (environment.lists.map .array).entries

/-- An environment as an object. -/
def toJson (environment : Environment) : Json :=
  .ofMembers [("variables", environment.variablesJson), ("lists", environment.listsJson)]

/-- The text of an environment, variables first. -/
def text (environment : Environment) : String :=
  Json.record [("variables", environment.variablesJson.compact),
    ("lists", environment.listsJson.compact)]

end Environment

namespace Session

/-- Reads a recording, which may also be `null`. -/
def programOfWritten? (allowance : Nat) : Json.Written → Option (Option (List Json))
  | .null => some none
  | written => (written.items? (·.within? (allowance - 1))).map some

/-- Reads a session. -/
def ofWritten? (allowance : Nat) (written : Json.Written) : Option Session := do
  let fields ← written.record? ["environment", "program"]
  let environment ← Environment.ofWritten? (allowance - 1) (← fields.lookup "environment")
  let program ← programOfWritten? (allowance - 1) ((fields.lookup "program").getD .null)
  return ⟨environment, program⟩

/-- Reads a text as a session. -/
def read? (text : String) : Option Session := do
  ofWritten? Json.maxDepth (← Json.Written.read? text)

/-- A session as an object, without a program when nothing is recorded. -/
def toJson (session : Session) : Json :=
  .ofMembers (("environment", session.environment.toJson) ::
    (session.program.map fun program => ("program", .array program)).toList)

/-- The text of a session, the environment first. -/
def text (session : Session) : String :=
  Json.record (("environment", session.environment.text) ::
    (session.program.map fun program => ("program", (Json.array program).compact)).toList)

end Session

end PhraseScript
