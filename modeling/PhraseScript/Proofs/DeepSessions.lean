import PhraseScript.Proofs.Brackets
import PhraseScript.Proofs.ReachableSessions
import PhraseScript.Proofs.Spelling

/-!
# Sessions deeper than any bound

"Set x to negative x" stores an expression, and every further "negative" puts another one around
it.  Nothing limits how many there are, so that sentences lead to sessions of every depth
(`Session.reachable_negatedX`): some of them are saved and cannot be loaded.
-/

namespace PhraseScript

/-! ### Texts of trees -/

namespace Bracketed

/-- A token as text, with a blank after it. -/
def tokenText : Token → List Char
  | .opening => ['(', ' ']
  | .closing => [')', ' ']
  | .word text => text.toList ++ [' ']

/-- A text that is one word of a bracketed tree. -/
def IsWord (text : String) : Prop := text.toList ≠ [] ∧ ∀ c ∈ text.toList, isWordChar c = true

instance (text : String) : Decidable (IsWord text) :=
  decidable_of_iff ((!text.toList.isEmpty && text.toList.all isWordChar) = true)
    (by simp [IsWord])

/-- A tree as text. -/
def treeText (tree : Derivation) : String := String.ofList ((spelled tree).flatMap tokenText)

lemma cuts_tokenText {tokens : List Token} (h : ∀ word, .word word ∈ tokens → IsWord word) :
    Cuts (tokens.flatMap tokenText) tokens := by
  have hblank : Text.isBlank ' ' = true := by decide
  induction tokens with
  | nil => exact .nil
  | cons token rest ih =>
    have hrest := ih fun word hword => h word (List.mem_cons_of_mem _ hword)
    cases token with
    | opening => exact .opening (.blank hblank hrest)
    | closing => exact .closing (.blank hblank hrest)
    | word text =>
      obtain ⟨hne, hchars⟩ := h text (by simp)
      have hends : ∀ c, (' ' :: rest.flatMap tokenText).head? = some c → isWordChar c = false := by
        rintro c hc
        obtain rfl := Option.some.inj hc
        decide
      have hword := Cuts.word hne hchars hends (.blank hblank hrest)
      rw [String.ofList_toList] at hword
      simpa [tokenText] using hword

/-- A tree is read off its text. -/
lemma read_treeText {tree : Derivation} (hbare : Bare tree)
    (hwords : ∀ word, .word word ∈ spelled tree → IsWord word) :
    Derivation.read (treeText tree) = .ok tree.reindexed := by
  obtain ⟨rest, hspelled⟩ : ∃ rest, spelled tree = .opening :: rest := by
    cases tree <;> exact ⟨_, rfl⟩
  have htrim : Text.trimStart ((spelled tree).flatMap tokenText) =
      (spelled tree).flatMap tokenText := by
    rw [hspelled]
    rfl
  have hhead : ((spelled tree).flatMap tokenText).head? ≠ some '{' := by
    rw [hspelled]
    exact fun h => absurd (Option.some.inj h) (by decide)
  have htokens : tokens ((spelled tree).flatMap tokenText) = spelled tree :=
    (cuts_iff.mp (cuts_tokenText hwords)).symm
  rw [Derivation.read, treeText, String.toList_ofList, htrim, if_neg hhead, read_eq_ok_iff]
  exact ⟨tree, by rw [htokens, ofTokens_eq_ok_iff]; exact ⟨hbare, rfl⟩, rfl⟩

end Bracketed

/-! ### Sentences of any depth -/

namespace Derivation

/-- "Negative ... negative x", with so many negatives. -/
def negated : Nat → Derivation
  | 0 => apply "NP" [word "VARIABLE_NAME" "x"]
  | n + 1 => apply "NP" [word "Negative" "negative", negated n]

/-- "Make x." -/
def making : Derivation :=
  apply "CreateCommand" [word "Make" "make", apply "VARIABLE_LIST" [word "VARIABLE_NAME" "x"]]

/-- "Set x to negative ... negative x", with so many negatives. -/
def setting (n : Nat) : Derivation :=
  apply "DataCommand" [word "Set" "set", word "VARIABLE_NAME" "x", word "To" "to", negated n]

/-- The words that these sentences are written with. -/
def settingWords : List String :=
  ["DataCommand", "Set", "set", "VARIABLE_NAME", "x", "To", "to", "NP", "Negative", "negative"]

end Derivation

namespace Bracketed

open PhraseScript.Derivation

lemma bare_negated (n : Nat) : Bare (negated n) := by
  induction n with
  | zero => exact .apply _ (by simp) (by simpa using .word _ _)
  | succ n ih => exact .apply _ (by simp) (by simpa using ⟨.word _ _, ih⟩)

lemma bare_making : Bare making :=
  .apply _ (by simp) (by simpa using ⟨.word _ _, .apply _ (by simp) (by simpa using .word _ _)⟩)

lemma bare_setting (n : Nat) : Bare (setting n) :=
  .apply _ (by simp) (by simpa using ⟨.word _ _, .word _ _, .word _ _, bare_negated n⟩)

lemma mem_settingWords_of_negated {n : Nat} {text : String}
    (h : .word text ∈ spelled (negated n)) : text ∈ settingWords := by
  induction n with
  | zero =>
    simp only [negated, apply, word, spelled, forestSpelled, List.append_nil, List.cons_append,
      List.nil_append, List.mem_cons, reduceCtorEq, Token.word.injEq, List.not_mem_nil, or_false,
      false_or] at h
    rcases h with rfl | rfl | rfl <;> decide
  | succ n ih =>
    simp only [negated, apply, word, spelled, forestSpelled, List.append_nil, List.cons_append,
      List.nil_append, List.mem_cons, List.mem_append, reduceCtorEq, Token.word.injEq,
      List.not_mem_nil, or_false, false_or] at h
    rcases h with rfl | rfl | rfl | h
    · decide
    · decide
    · decide
    · exact ih h

lemma mem_settingWords {n : Nat} {text : String} (h : .word text ∈ spelled (setting n)) :
    text ∈ settingWords := by
  simp only [setting, apply, word, spelled, forestSpelled, List.append_nil, List.cons_append,
    List.nil_append, List.mem_cons, List.mem_append, reduceCtorEq, Token.word.injEq,
    List.not_mem_nil, or_false, false_or] at h
  rcases h with rfl | rfl | rfl | rfl | rfl | rfl | rfl | h
  all_goals first | decide | exact mem_settingWords_of_negated h

lemma isWord_of_mem_settingWords : ∀ text ∈ settingWords, IsWord text := by decide +kernel

lemma isWord_of_making {text : String} (h : .word text ∈ spelled making) : IsWord text := by
  have hall : ∀ text ∈ ["CreateCommand", "Make", "make", "VARIABLE_LIST", "VARIABLE_NAME", "x"],
      IsWord text := by decide +kernel
  refine hall text ?_
  simpa only [making, apply, word, spelled, forestSpelled, List.append_nil, List.cons_append,
    List.nil_append, List.mem_cons, reduceCtorEq, Token.word.injEq, List.not_mem_nil, or_false,
    false_or] using h

end Bracketed

/-- What "negative ... negative x" means. -/
def negation : Nat → Meaning
  | 0 => .readVariable "x"
  | n + 1 => .expression (.mk Opcode.multiply [Construction.minusOne, negation n])

namespace Session

/-- The session after "make x". -/
def withX : Session := { environment := ({} : Environment).declareVariable "x" }

/-- The session after "set x to negative ... negative x". -/
def negatedX (n : Nat) : Session :=
  { environment := { withX.environment with
      vars := withX.environment.vars.insert "x" (negation n).wire } }

end Session

namespace Language

variable {sounds : List String} {numbers : NumberWords} {session : Session}

open PhraseScript.Derivation

/-- A leaf means what its word does. -/
lemma gives_word {category text : String} {meaning : Meaning}
    (h : (Lexicon.standard sounds).lookup category text = .ok meaning) :
    Gives ((standard sounds numbers).evaluate (word category text)) session meaning session :=
  gives_leaf_iff.mpr ⟨h, rfl⟩

/-- A node means what its rule makes of the meanings of its children. -/
lemma gives_apply {lhs : String} (rhs : List String) (construction : Construction)
    {children : List Derivation} {parts : List Meaning} {before between after : Session}
    {meaning : Meaning} (hrule : (⟨lhs, rhs⟩, construction) ∈ Grammar.standard)
    (hcategories : children.map category = rhs)
    (hparts : Threads (fun tree => Gives ((standard sounds numbers).evaluate tree)) children before
      parts between)
    (hbuild : Gives (construction.build ⟨⟨lhs, rhs⟩, parts, numbers⟩) between meaning after) :
    Gives ((standard sounds numbers).evaluate (apply lhs children)) before meaning after := by
  subst hcategories
  exact gives_node_iff.mpr ⟨construction, parts, between, hrule, rfl, hparts, hbuild⟩

lemma gives_keyword {category text : String} {words : List String}
    (h : (category, words) ∈ Lexicon.keywords) (htext : text ∈ words) :
    Gives ((standard sounds numbers).evaluate (word category text)) session .null session :=
  gives_word (Lexicon.lookup_keyword h htext)

lemma gives_x : Gives ((standard sounds numbers).evaluate (word "VARIABLE_NAME" "x")) session
    (.variableName "x") session := by
  have hlower : Text.toLower "x" = "x" := by decide +kernel
  refine gives_word ?_
  rw [Lexicon.lookup_variableName, hlower]

lemma isOperand_negation (n : Nat) : (negation n).isOperand = true := by
  cases n <;> rfl

lemma gives_negated (n : Nat) :
    Gives ((standard sounds numbers).evaluate (negated n)) session (negation n) session := by
  induction n with
  | zero =>
    refine gives_apply ["VARIABLE_NAME"] .readVariable ?_ rfl (.cons gives_x .nil) ?_
    · simp [Grammar.standard, Grammar.operatorRules, Grammar.rule]
    · simp [Construction.build, Call.variableName, Call.part, negation]
  | succ n ih =>
    have hnegative : ("Negative", ["negative"]) ∈ Lexicon.keywords := by decide +kernel
    refine gives_apply ["Negative", "NP"] .negative ?_ ?_
      (.cons (gives_keyword hnegative (by simp)) (.cons ih .nil)) ?_
    · simp [Grammar.standard, Grammar.operatorRules, Grammar.rule]
    · cases n <;> rfl
    · simp [Construction.build, Call.operand, Call.part, negation, isOperand_negation]

lemma gives_making : Gives ((standard sounds numbers).evaluate making) {} .null
    Session.withX := by
  have hmake : ("Make", ["make", "create"]) ∈ Lexicon.keywords := by decide +kernel
  have hlist : Gives ((standard sounds numbers).evaluate
      (apply "VARIABLE_LIST" [word "VARIABLE_NAME" "x"])) {} (.declaration ⟨.vars, ["x"]⟩) {} := by
    refine gives_apply ["VARIABLE_NAME"] .declareOne ?_ rfl (.cons gives_x .nil) ?_
    · simp [Grammar.standard, Grammar.dataRules, Grammar.rule]
    · simp [Construction.build, Call.variableName, Call.part]
  refine gives_apply ["Make", "VARIABLE_LIST"] .createVariables ?_ rfl
    (.cons (gives_keyword hmake (by simp)) (.cons hlist .nil)) ?_
  · simp [Grammar.standard, Grammar.dataRules, Grammar.rule]
  · simp only [Construction.build, gives_bind, gives_lift, gives_environment,
      gives_setEnvironment, gives_pure]
    exact ⟨["x"], _, ⟨rfl, rfl⟩, _, _, ⟨rfl, rfl⟩, (), _, rfl, trivial, rfl⟩

lemma variableReads_negation (n : Nat) : (negation n).variableReads = ["x"] := by
  induction n with
  | zero => rfl
  | succ n ih =>
    have hmultiply : Opcode.multiply ≠ Opcode.readVariable := by decide
    simp [negation, Meaning.variableReads, Meaning.blockReads, Meaning.operandReads,
      Construction.minusOne, hmultiply, ih]

lemma firstDeferred?_negation (n : Nat) : (negation n).firstDeferred? = none := by
  induction n with
  | zero => rfl
  | succ n ih =>
    simp [negation, Meaning.firstDeferred?, Meaning.blockFirstDeferred?,
      Meaning.operandsFirstDeferred?, Construction.minusOne, ih]

lemma gives_setting (n : Nat) : Gives ((standard sounds numbers).evaluate (setting n))
    Session.withX (.command (.mk Opcode.setVariable [.text "x", negation n]))
    (Session.negatedX n) := by
  have hset : ("Set", ["set"]) ∈ Lexicon.keywords := by decide +kernel
  have hto : ("To", ["to"]) ∈ Lexicon.keywords := by decide +kernel
  have hdeclared : Session.withX.environment.hasVariable "x" = true := by decide +kernel
  refine gives_apply ["Set", "VARIABLE_NAME", "To", "NP"] .setVariable ?_ ?_
    (.cons (gives_keyword hset (by simp)) (.cons gives_x (.cons (gives_keyword hto (by simp))
      (.cons (gives_negated n) .nil)))) ?_
  · simp [Grammar.standard, Grammar.dataRules, Grammar.rule]
  · cases n <;> rfl
  · have hoperand : Call.declaredOperand ⟨⟨"DataCommand", ["Set", "VARIABLE_NAME", "To", "NP"]⟩,
        [.null, .variableName "x", .null, negation n], numbers⟩ Session.withX.environment 3 =
          .ok (negation n) := by
      refine bind_eq_ok_iff.mpr ⟨negation n, bind_eq_ok_iff.mpr ⟨negation n, rfl, ?_⟩,
        bind_eq_ok_iff.mpr ⟨(), Environment.requireVariables_eq_ok_iff.mpr ?_, rfl⟩⟩
      · rw [if_pos (isOperand_negation n)]
        rfl
      · simpa [variableReads_negation] using hdeclared
    simp only [Construction.build, Construction.assign, gives_bind, gives_lift, gives_environment,
      gives_setEnvironment, gives_pure, Environment.assign_eq_ok_iff]
    exact ⟨"x", _, ⟨rfl, rfl⟩, _, _, ⟨rfl, rfl⟩, negation n, _, ⟨hoperand, rfl⟩, _, _,
      ⟨Meaning.toWire_eq_ok (firstDeferred?_negation n), rfl⟩, _, _, ⟨rfl, rfl⟩, _, _,
      ⟨⟨hdeclared, rfl⟩, rfl⟩, (), _, rfl, rfl, rfl⟩

/-- The text of a tree means what the tree does. -/
lemma translateText_of_gives {tree : Derivation} {before after : Session} {meaning : Meaning}
    {blocks : List Block} (hbare : Bracketed.Bare tree)
    (hwords : ∀ text, .word text ∈ Bracketed.spelled tree → Bracketed.IsWord text)
    (hgives : Gives ((standard sounds numbers).evaluate tree) before meaning after)
    (hcommands : Script.commandsOf meaning = .ok blocks) :
    (standard sounds numbers).translateText (Bracketed.treeText tree) before =
      .ok ⟨⟨blocks, after.environment.vars, after.environment.lists⟩, after⟩ := by
  have htranslate : (standard sounds numbers).translate tree.reindexed before =
      .ok ⟨⟨blocks, after.environment.vars, after.environment.lists⟩, after⟩ :=
    translate_eq_ok_iff.mpr
      ⟨meaning, gives_of_respelled tree (respelled_reindexFrom 0 tree) hgives, hcommands, rfl⟩
  rw [translateText, Bracketed.read_treeText hbare hwords]
  exact htranslate

lemma translateText_making : (standard sounds numbers).translateText
    (Bracketed.treeText making) {} =
      .ok ⟨⟨[], Session.withX.environment.vars, Session.withX.environment.lists⟩,
        Session.withX⟩ :=
  translateText_of_gives Bracketed.bare_making (fun _ => Bracketed.isWord_of_making)
    gives_making rfl

lemma translateText_setting (n : Nat) : (standard sounds numbers).translateText
    (Bracketed.treeText (setting n)) Session.withX =
      .ok ⟨⟨[.mk Opcode.setVariable [.text "x", negation n]],
        (Session.negatedX n).environment.vars, (Session.negatedX n).environment.lists⟩,
        Session.negatedX n⟩ :=
  translateText_of_gives (Bracketed.bare_setting n)
    (fun text htext =>
      Bracketed.isWord_of_mem_settingWords text (Bracketed.mem_settingWords htext))
    (gives_setting n) rfl

end Language

/-! ### Sessions of any depth -/

lemma wire_minusOne : Construction.minusOne.wire = .int (-1) :=
  Meaning.wire_of_toInt? (Double.toInt?_ofInt (by decide))

/-- Every negative puts one more array around the value. -/
lemma wire_negation_succ (n : Nat) :
    (negation (n + 1)).wire =
      .array [.string Opcode.multiply, .int (-1), (negation n).wire] := by
  simp only [negation, Meaning.wire, Meaning.blockWire, Meaning.operandsWire, wire_minusOne]

lemma depth_wire_negation (n : Nat) : (negation n).wire.depth = n + 1 := by
  induction n with
  | zero => rfl
  | succ n ih => simp [wire_negation_succ, Json.depth, Json.itemsDepth, Json.int, ih]

lemma numbers_wire_negation (n : Nat) :
    ∀ number ∈ (negation n).wire.numbers, number = .integer (-1) := by
  induction n with
  | zero => exact List.forall_mem_nil _
  | succ n ih => simpa [wire_negation_succ, Json.numbers, Json.itemNumbers, Json.int] using ih

namespace Session

lemma reachable_withX : withX.Reachable :=
  have htext : (Language.standard [] .numerals).translateText _ _ = _ :=
    Language.translateText_making
  Reachable.empty.sentence htext

/-- However many negatives there are, sentences lead to the session with them. -/
theorem reachable_negatedX (n : Nat) : (negatedX n).Reachable :=
  have htext : (Language.standard [] .numerals).translateText _ _ = _ :=
    Language.translateText_setting n
  reachable_withX.sentence htext

lemma entries_negatedX (n : Nat) :
    (negatedX n).environment.vars.entries = [("x", (negation n).wire)] := by
  have hxx : ¬"x" < "x" := String.lt_irrefl _
  show insertEntry "x" (negation n).wire (insertEntry "x" (.int 0) []) = _
  rw [insertEntry, insertEntry, if_neg hxx, if_neg hxx]

lemma values_negatedX (n : Nat) : (negatedX n).values = [(negation n).wire] := by
  rw [values, Environment.values, entries_negatedX]
  rfl

/-- No depth is too great for a session. -/
theorem depth_savedDocument_negatedX (n : Nat) : (negatedX n).savedDocument.depth = n + 5 := by
  have hvariables : (negatedX n).environment.variablesJson.depth = n + 2 := by
    rw [Environment.variablesJson, entries_negatedX]
    simp [Json.depth, Json.membersDepth, depth_wire_negation]
  have hlists : (negatedX n).environment.listsJson.depth = 1 := rfl
  have hprogram : (negatedX n).program = none := rfl
  simp [savedDocument, document, Environment.document, hprogram, Json.depth, Json.membersDepth,
    hvariables, hlists]

/-- There may be no real numbers at all. -/
lemma realsReadBack_of_integers {session : Session}
    (h : ∀ value ∈ session.values, ∀ number ∈ value.numbers, ∃ i, number = .integer i) :
    session.RealsReadBack := by
  intro value hvalue negative magnitude hreal
  obtain ⟨i, hi⟩ := h value hvalue _ hreal
  cases hi

lemma realsReadBack_withX : withX.RealsReadBack := by
  have hvalues : withX.values = [.int 0] := rfl
  refine realsReadBack_of_integers fun value hvalue number hnumber => ⟨0, ?_⟩
  rw [hvalues, List.mem_singleton] at hvalue
  subst hvalue
  exact List.mem_singleton.mp hnumber

lemma realsReadBack_negatedX (n : Nat) : (negatedX n).RealsReadBack := by
  refine realsReadBack_of_integers fun value hvalue number hnumber => ⟨-1, ?_⟩
  rw [values_negatedX, List.mem_singleton] at hvalue
  subst hvalue
  exact numbers_wire_negation n number hnumber

/-- With up to 122 negatives the session is loaded as it was saved, with more it is not loaded at
all. -/
theorem readSaved?_negatedX (n : Nat) :
    readSaved? (negatedX n).savedText = if n ≤ 122 then some (schema, negatedX n) else none := by
  have hdepth : n + 5 ≤ Json.maxDepth ↔ n ≤ 122 := by
    rw [Json.maxDepth]
    omega
  rw [(reachable_negatedX n).readSaved?_eq (realsReadBack_negatedX n),
    depth_savedDocument_negatedX]
  simp only [hdepth]

end Session

end PhraseScript
