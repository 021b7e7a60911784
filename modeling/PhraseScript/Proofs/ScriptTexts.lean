import PhraseScript.CommandLine.Fault
import PhraseScript.Proofs.Safety
import PhraseScript.Proofs.SavedSessions

/-!
# The texts of scripts

Every script that sentences lead to has a text, that of one JSON value
(`Language.write_of_translate`).  The texts of JSON values, and the names of faults, are texts on
one line (`OneLine`), so that each of them can be printed as a line.
-/

namespace PhraseScript

/-! ### Scripts as values -/

namespace Script

/-- A script as one value, the commands first. -/
def document (script : Script) : Json :=
  .object [("commands", .array (Meaning.blocksWire script.commands)),
    ("variables", script.environment.variablesJson), ("lists", script.environment.listsJson)]

lemma write_eq_ok {script : Script}
    (h : (Meaning.commands script.commands).firstDeferred? = none) :
    script.write = .ok script.document.compact := by
  rw [write, Meaning.write_eq_ok h, document, ← Json.record_eq]
  rfl

end Script

/-- What a sentence leads to has a text. -/
lemma Language.write_of_translate {sounds : List String} {tree : Derivation} {session : Session}
    {outcome : Outcome} (h : (standard sounds .numerals).translate tree session = .ok outcome) :
    outcome.script.write = .ok outcome.script.document.compact := by
  obtain ⟨meaning, hmeaning, hcommands, -⟩ := translate_eq_ok_iff.mp h
  have hadmits := (ensures_evaluate numerals_only_isFinite (fun _ hx => hx) tree).result hmeaning
  have hblocks := allCommands_of_commandsOf hadmits hcommands
  exact Script.write_eq_ok (Fits.body hblocks).firstDeferred?_eq_none

/-! ### Texts on one line -/

/-- There is no line break in the text. -/
def OneLine (text : String) : Prop := '\n' ∉ text.toList

instance (text : String) : Decidable (OneLine text) :=
  inferInstanceAs (Decidable ('\n' ∉ text.toList))

lemma oneLine_append {text more : String} (h : OneLine text) (hmore : OneLine more) :
    OneLine (text ++ more) := by
  rw [OneLine, String.toList_append, List.mem_append]
  exact not_or.mpr ⟨h, hmore⟩

namespace Json

lemma newline_not_mem_escape (c : Char) : '\n' ∉ escape c := by
  -- a hexadecimal digit has a value
  have hhex {n : Nat} (h : n < 16) : '\n' ≠ hexDigit n := by
    intro heq
    have hvalue := Token.hexValue?_hexDigit h
    rw [← heq] at hvalue
    cases hvalue
  by_cases hnewline : c = '\n'
  · subst hnewline
    decide
  · rw [escape]
    iterate 6
      split
      · decide
    split
    · next hcontrol =>
      have hquotient : '\n' ≠ hexDigit (c.toNat / 16) := hhex (by omega)
      have hremainder : '\n' ≠ hexDigit (c.toNat % 16) := hhex (by omega)
      simp [hquotient, hremainder]
    · simpa using Ne.symm hnewline

lemma oneLine_quote (text : String) : OneLine (quote text) := by
  rw [OneLine, quote, String.toList_ofList]
  simp [newline_not_mem_escape]

lemma oneLine_number (n : Number) : OneLine n.text := by
  intro hmem
  rw [← n.text_literal] at hmem
  have := isNumberChar_of_mem_text n.isJson_literal _ hmem
  cases this

mutual

lemma oneLine_compact : (value : Json) → OneLine value.compact
  | .null => (by decide : OneLine "null")
  | .bool false => (by decide : OneLine "false")
  | .bool true => (by decide : OneLine "true")
  | .number n => oneLine_number n
  | .string text => oneLine_quote text
  | .array items => by
    rw [compact]
    exact oneLine_append (oneLine_append (by decide) (oneLine_compactItems items)) (by decide)
  | .object members => by
    rw [compact]
    exact oneLine_append (oneLine_append (by decide) (oneLine_compactMembers members)) (by decide)

lemma oneLine_compactItems : (items : List Json) → OneLine (compactItems items)
  | [] => (by decide : OneLine "")
  | [item] => oneLine_compact item
  | item :: next :: rest => by
    rw [compactItems]
    · exact oneLine_append (oneLine_append (oneLine_compact item) (by decide))
        (oneLine_compactItems (next :: rest))
    · simp

lemma oneLine_compactMembers : (members : List (String × Json)) → OneLine (compactMembers members)
  | [] => (by decide : OneLine "")
  | [(key, value)] => by
    rw [compactMembers]
    exact oneLine_append (oneLine_append (oneLine_quote key) (by decide)) (oneLine_compact value)
  | (key, value) :: next :: rest => by
    rw [compactMembers]
    · exact oneLine_append (oneLine_append (oneLine_append (oneLine_append (oneLine_quote key)
        (by decide)) (oneLine_compact value)) (by decide)) (oneLine_compactMembers (next :: rest))
    · simp

end

end Json

lemma CommandLine.RunFault.oneLine_code (fault : RunFault) : OneLine fault.code := by
  have hfault (fault : Fault) : OneLine fault.code := by
    cases fault <;> (rw [Fault.code]; decide)
  cases fault
  case sentence failure => exact hfault failure.fault
  case batch failure => exact hfault failure.failure.fault
  all_goals rw [code]; decide

end PhraseScript
