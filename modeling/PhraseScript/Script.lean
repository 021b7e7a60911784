import PhraseScript.Meaning.Wire
import PhraseScript.Session.Document

/-!
# Scripts

What a sentence stands for: commands, and the variables and lists they find.
-/

namespace PhraseScript

/-- A script. -/
structure Script where
  commands : List Block
  vars : Dictionary Json
  lists : Dictionary (List Json)

namespace Script

/-- The commands of a meaning that can be carried out.  Nothing is no commands. -/
def commandsOf : Meaning → Except Fault (List Block)
  | .null => .ok []
  | .command block => .ok [block]
  | .commands blocks => .ok blocks
  | .handler blocks => .ok blocks
  | other => .error (.unresolvedTopLevel other.kind.name)

/-- The script of a meaning, in an environment. -/
def assemble (meaning : Meaning) (environment : Environment) : Except Fault Script := do
  return ⟨← commandsOf meaning, environment.vars, environment.lists⟩

/-- The environment that a script shows. -/
def environment (script : Script) : Environment := ⟨script.vars, script.lists⟩

/-- A script as an object. -/
def toJson (script : Script) : Json :=
  .ofMembers [("commands", .array (Meaning.blocksWire script.commands)),
    ("variables", script.environment.variablesJson), ("lists", script.environment.listsJson)]

/-- The text of a script, the commands first, or the kind of the part that has no form in
scripts. -/
def write (script : Script) : Except Meaning.Kind String := do
  let commands ← (Meaning.commands script.commands).write
  return Json.record [("commands", commands),
    ("variables", script.environment.variablesJson.compact),
    ("lists", script.environment.listsJson.compact)]

end Script

end PhraseScript
