import Mathlib.Order.Defs.Unbundled
import Mathlib.Tactic.Lemma
import PhraseScript.CommandLine.Run

/-!
# How runs end

A run of the program in some surroundings ends with a value or with a fault, and leaves the
surroundings in some state (`endingIn`).  If every operation takes a state to a related one, and
the relation is reflexive and transitive, then a run that is made of these operations does so, too
(`Relates`).
-/

namespace PhraseScript.CommandLine

variable {σ α β : Type}

/-- How a run ends from a state, and the state that it leaves. -/
def endingIn (run : Run (StateM σ) α) (state : σ) : Except RunFault α × σ := run.run.run state

section Endings

variable {state between after : σ} {value : α} {fault : RunFault}

lemma endingIn_bind (run : Run (StateM σ) α) (next : α → Run (StateM σ) β) (state : σ) :
    endingIn (run >>= next) state =
      match endingIn run state with
      | (.ok value, between) => endingIn (next value) between
      | (.error fault, after) => (.error fault, after) := by
  simp only [endingIn, ExceptT.run, StateT.run, bind, ExceptT.bind, ExceptT.mk, StateT.bind]
  rcases run state with ⟨_ | _, _⟩ <;> rfl

lemma endingIn_bind_ok {run : Run (StateM σ) α} {next : α → Run (StateM σ) β}
    (h : endingIn run state = (.ok value, between)) :
    endingIn (run >>= next) state = endingIn (next value) between := by
  rw [endingIn_bind, h]

lemma endingIn_bind_error {run : Run (StateM σ) α} {next : α → Run (StateM σ) β}
    (h : endingIn run state = (.error fault, after)) :
    endingIn (run >>= next) state = (.error fault, after) := by
  rw [endingIn_bind, h]

/-- An operation of the surroundings, whose reason for failing becomes a fault. -/
lemma endingIn_orFault (operation : StateM σ (Except String α)) (fault : String → RunFault)
    (state : σ) :
    endingIn (orFault operation fault) state =
      match operation.run state with
      | (.ok value, after) => (.ok value, after)
      | (.error reason, after) => (.error (fault reason), after) := by
  simp only [endingIn, orFault, ExceptT.run, ExceptT.mk, StateT.run, bind, StateT.bind]
  rcases operation state with ⟨_ | _, _⟩ <;> rfl

end Endings

/-- Whatever comes of a run, it takes a state to a related one. -/
def Relates (R : σ → σ → Prop) (run : Run (StateM σ) α) : Prop :=
  ∀ state, R state (endingIn run state).2

section Relates

variable {R : σ → σ → Prop}

lemma Relates.of_endingIn {run : Run (StateM σ) α} (h : Relates R run) {state after : σ}
    {result : Except RunFault α} (hrun : endingIn run state = (result, after)) : R state after := by
  have hstate := h state
  rwa [hrun] at hstate

lemma relates_pure [Std.Refl R] (value : α) : Relates R (pure value : Run (StateM σ) α) :=
  fun state => refl_of R state

lemma relates_throw [Std.Refl R] (fault : RunFault) :
    Relates R (throw fault : Run (StateM σ) α) := fun state => refl_of R state

lemma relates_bind [IsTrans σ R] {run : Run (StateM σ) α} {next : α → Run (StateM σ) β}
    (h : Relates R run) (hnext : ∀ value, Relates R (next value)) : Relates R (run >>= next) := by
  intro state
  have hrun := h state
  rw [endingIn_bind]
  rcases heq : endingIn run state with ⟨_ | value, between⟩
  · rwa [heq] at hrun
  · rw [heq] at hrun
    exact trans_of R hrun (hnext value between)

lemma relates_lift (R : σ → σ → Prop) {operation : StateM σ α}
    (h : ∀ state, R state (operation.run state).2) :
    Relates R (liftM operation : Run (StateM σ) α) := h

lemma relates_orFault (R : σ → σ → Prop) {operation : StateM σ (Except String α)}
    (h : ∀ state, R state (operation.run state).2) (fault : String → RunFault) :
    Relates R (orFault operation fault) := by
  intro state
  have hoperation := h state
  rw [endingIn_orFault]
  rcases heq : operation.run state with ⟨_ | _, _⟩ <;> rwa [heq] at hoperation

/-- A tree is read by asking for directories and files. -/
lemma relates_readTree (R : σ → σ → Prop) [Std.Refl R] [IsTrans σ R] [Host (StateM σ)]
    (hdirectory : ∀ state, R state ((Host.workingDirectory : StateM σ _).run state).2)
    (hfile : ∀ path state, R state ((Host.isFile path : StateM σ _).run state).2)
    (hread : ∀ path state, R state ((Host.readText path : StateM σ _).run state).2)
    (path : String) : Relates R (readTree path : Run (StateM σ) String) := by
  have habsolute : Relates R (absolute path : Run (StateM σ) String) := by
    rw [absolute]
    split
    · exact relates_pure _
    · exact relates_bind (relates_orFault R hdirectory _) fun _ => relates_pure _
  refine relates_bind habsolute fun path => relates_bind (relates_lift R (hfile path)) fun _ => ?_
  split
  · exact relates_orFault R (hread path) _
  · exact relates_throw _

end Relates

end PhraseScript.CommandLine
