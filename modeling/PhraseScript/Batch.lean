import PhraseScript.Outcome

/-!
# Many sources

A batch is a chain: each source is carried out in the session that the one before it left, in
the order of their names.  The first that fails ends it.
-/

namespace PhraseScript

/-- What a batch gives: the scripts by source, in order, and the session after the last one. -/
structure Batch where
  scripts : List (String × Script)
  session : Session

/-- The source at which a batch stopped, and why. -/
structure BatchFailure where
  source : String
  failure : Failure
deriving DecidableEq

namespace Language

/-- The outcome of sources one after another. -/
def translateInTurn (language : Language) (session : Session) :
    List (String × String) → Except BatchFailure Batch
  | [] => .ok ⟨[], session⟩
  | (source, text) :: rest =>
    match language.translateText text session with
    | .error failure => .error ⟨source, failure⟩
    | .ok outcome => do
      let batch ← language.translateInTurn outcome.session rest
      return { batch with scripts := (source, outcome.script) :: batch.scripts }

/-- The outcome of sources in the order of their names. -/
def translateBatch (language : Language) (sources : Dictionary String) (session : Session) :
    Except BatchFailure Batch :=
  language.translateInTurn session sources.entries

end Language

end PhraseScript
