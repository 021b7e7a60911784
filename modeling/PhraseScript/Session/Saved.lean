import PhraseScript.Session.Document

/-!
# Saved sessions

A session in a file stands in a record together with the name of the schema it follows.
-/

namespace PhraseScript.Session

/-- The schema of saved sessions. -/
def schema : String := "sn-session.v1"

/-- The text of a saved session. -/
def savedText (session : Session) : String :=
  Json.record [("schemaVersion", Json.quote schema), ("session", session.text)]

/-- Reads a saved session, with the name of its schema. -/
def readSaved? (text : String) : Option (String × Session) := do
  let fields ← (← Json.Written.read? text).record? ["schemaVersion", "session"]
  let schema ← (← fields.lookup "schemaVersion").string?
  let session ← ofWritten? (Json.maxDepth - 1) (← fields.lookup "session")
  return (schema, session)

end PhraseScript.Session
