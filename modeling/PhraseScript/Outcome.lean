import PhraseScript.Derivation.Reading
import PhraseScript.Evaluation
import PhraseScript.Grammar.Standard
import PhraseScript.Script

/-!
# The outcome of a sentence

A sentence is carried out in a session, and gives a script and the session for the next
sentence.  A failure gives no session: the one before stays in force.
-/

namespace PhraseScript

/-- The script that a sentence stands for, and the session after it. -/
structure Outcome where
  script : Script
  session : Session

namespace Language

/-- The standard language with those sounds, in which `numbers` knows the numbers. -/
def standard (sounds : List String) (numbers : NumberWords) : Language :=
  ⟨.standard sounds, Grammar.standardTable, numbers⟩

/-- The meaning of a tree in a session, and the session after it. -/
def interpret (language : Language) (tree : Derivation) (session : Session) :
    Except Failure (Meaning × Session) :=
  match (language.evaluate tree).run.run session with
  | (.ok meaning, session) => .ok (meaning, session)
  | (.error failure, _) => .error failure

/-- The outcome of a tree in a session.  Whatever goes wrong is reported with the sentence. -/
def translate (language : Language) (tree : Derivation) (session : Session) :
    Except Failure Outcome :=
  match language.interpret tree session with
  | .error failure => .error (failure.inSentence tree.sentence)
  | .ok (meaning, session) =>
    match Script.assemble meaning session.environment with
    | .error fault => .error ((fault : Failure).inSentence tree.sentence)
    | .ok script => .ok ⟨script, session⟩

/-- The outcome of a tree in an empty session. -/
def translateFresh (language : Language) (tree : Derivation) : Except Failure Outcome :=
  language.translate tree {}

/-- The outcome of a text of a tree in a session. -/
def translateText (language : Language) (text : String) (session : Session) :
    Except Failure Outcome :=
  match Derivation.read text with
  | .error fault => .error fault
  | .ok tree => language.translate tree session

end Language

end PhraseScript
