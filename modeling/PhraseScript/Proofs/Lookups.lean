import Mathlib.Data.List.Induction
import Mathlib.Data.List.Nodup
import Mathlib.Tactic.Lemma
import PhraseScript.Outcome

/-!
# What the tables of the standard language have

The rules and the words of the standard language are given as lists, of which tables are made.  A
table has what its list has, and where the list has something several times the last counts
(`RuleTable.lookup?_ofList`, `Lexicon.producer?_standard`).

An evaluation can therefore look things up in the lists (`Language.evaluate_standard`), so that
the tables need not be made when it is carried out.
-/

namespace PhraseScript

/-- What is found in a list of entries is one of them. -/
lemma mem_of_lookup {α β : Type} [BEq α] [LawfulBEq α] {entries : List (α × β)} {key : α}
    {value : β} (h : entries.lookup key = some value) : (key, value) ∈ entries := by
  obtain ⟨before, after, rfl, -⟩ := List.lookup_eq_some_iff.mp h
  exact List.mem_append_right before (.head after)

/-- What is listed once is found in a list. -/
lemma lookup_of_mem {α β : Type} [BEq α] [LawfulBEq α] {entries : List (α × β)}
    (hnodup : (entries.map Prod.fst).Nodup) {key : α} {value : β} (h : (key, value) ∈ entries) :
    entries.lookup key = some value := by
  obtain ⟨before, after, rfl⟩ := List.append_of_mem h
  refine List.lookup_eq_some_iff.mpr ⟨before, after, rfl, fun entry hentry => ?_⟩
  rw [List.map_append, List.nodup_append] at hnodup
  have hne : entry.1 ≠ key :=
    hnodup.2.2 entry.1 (List.mem_map_of_mem hentry) key (by simp)
  simpa using hne.symm

/-! ### Rules -/

/-- A table has on a rule what its list has last. -/
theorem RuleTable.lookup?_ofList (rules : List (RuleKey × Action)) (key : RuleKey) :
    (ofList rules).lookup? key = rules.reverse.lookup key := by
  induction rules using List.reverseRecOn with
  | nil => rfl
  | append_singleton rules rule ih =>
    have hinsert : ofList (rules ++ [rule]) = (ofList rules).insert rule.1 rule.2 := by
      simp [ofList]
    rw [hinsert, lookup?_insert, ih, List.reverse_concat, List.lookup_cons]
    by_cases h : key = rule.1
    · simp [h]
    · rw [if_neg h, beq_false_of_ne h]

/-- The standard table has on a rule the last construction that is listed for it. -/
theorem Grammar.lookup?_standardTable_eq (key : RuleKey) :
    standardTable.lookup? key = (standard.reverse.lookup key).map Construction.build := by
  rw [standardTable, RuleTable.lookup?_ofList, ← List.map_reverse]
  induction standard.reverse with
  | nil => rfl
  | cons rule rest ih =>
    rw [List.map_cons, List.lookup_cons, List.lookup_cons, ih]
    cases key == rule.1 <;> rfl

/-! ### Words -/

namespace Lexicon

variable {category lower : String}

lemma producer?_addWords (lexicon : Lexicon) (listed : String) (words : List String)
    (produce : Producer) :
    (lexicon.addWords listed words produce).producer? category lower =
      if category = listed ∧ lower ∈ words.map Text.toLower then some produce
      else lexicon.producer? category lower := by
  induction words generalizing lexicon with
  | nil => simp [addWords]
  | cons word rest ih =>
    show ((lexicon.addWord listed word produce).addWords listed rest produce).producer? _ _ = _
    rw [ih, producer?_addWord]
    by_cases hcategory : category = listed <;> by_cases hword : lower = Text.toLower word <;>
      simp [hcategory, hword]

/-- What entries have last for a word of a category. -/
def lastListed? (entries : List (String × List String × Producer)) (category lower : String) :
    Option Producer :=
  (entries.reverse.find? fun entry =>
    entry.1 = category ∧ lower ∈ entry.2.1.map Text.toLower).map (·.2.2)

lemma producer?_foldl_addWords (entries : List (String × List String × Producer)) :
    (entries.foldl (fun lexicon (category, words, produce) =>
      lexicon.addWords category words produce) (∅ : Lexicon)).producer? category lower =
        lastListed? entries category lower := by
  induction entries using List.reverseRecOn with
  | nil => rfl
  | append_singleton entries entry ih =>
    obtain ⟨listed, words, produce⟩ := entry
    rw [List.foldl_append, List.foldl_cons, List.foldl_nil, producer?_addWords, ih, lastListed?,
      lastListed?, List.reverse_concat, List.find?_cons]
    by_cases h : category = listed ∧ lower ∈ words.map Text.toLower
    · have hfound : listed = category ∧ lower ∈ words.map Text.toLower := ⟨h.1.symm, h.2⟩
      rw [if_pos h, decide_eq_true hfound]
      rfl
    · have hnot : ¬(listed = category ∧ lower ∈ words.map Text.toLower) :=
        fun hfound => h ⟨hfound.1.symm, hfound.2⟩
      rw [if_neg h, decide_eq_false hnot]

/-- A category is not opened by listing words. -/
lemma others_foldl_addWords (entries : List (String × List String × Producer)) :
    ((entries.foldl (fun lexicon (category, words, produce) =>
      lexicon.addWords category words produce) (∅ : Lexicon)).wordClass category).others =
        none := by
  have hword (lexicon : Lexicon) (listed word : String) (produce : Producer)
      (h : (lexicon.wordClass category).others = none) :
      ((lexicon.addWord listed word produce).wordClass category).others = none := by
    rw [wordClass_addWord]
    split
    · next heq => exact heq ▸ h
    · exact h
  refine List.foldlRecOn (motive := fun lexicon : Lexicon =>
    (lexicon.wordClass category).others = none) entries _ rfl ?_
  rintro lexicon h ⟨listed, words, produce⟩ -
  exact List.foldlRecOn (motive := fun lexicon : Lexicon =>
    (lexicon.wordClass category).others = none) words _ h fun lexicon h word _ =>
      hword lexicon listed word produce h

/-- Opening categories leaves the words that are listed. -/
lemma wordClass_foldl_addOpen (opened : List (String × Producer)) (lexicon : Lexicon) :
    (opened.foldl (fun lexicon (category, produce) => lexicon.addOpen category produce)
      lexicon).wordClass category =
        { lexicon.wordClass category with
          others := (opened.reverse.lookup category).or (lexicon.wordClass category).others } := by
  induction opened using List.reverseRecOn with
  | nil => rfl
  | append_singleton opened entry ih =>
    obtain ⟨listed, produce⟩ := entry
    rw [List.foldl_append, List.foldl_cons, List.foldl_nil, wordClass_addOpen,
      List.reverse_concat, List.lookup_cons]
    by_cases h : category = listed
    · subst h
      rw [if_pos rfl, ih]
      simp
    · rw [if_neg h, ih, beq_false_of_ne h]

/-- The standard lexicon has for a word what is listed last for it, or else what takes all words
of its category. -/
theorem producer?_standard (sounds : List String) (category lower : String) :
    (standard sounds).producer? category lower =
      (lastListed? (standardWords sounds) category lower).or
        (standardOpen.reverse.lookup category) := by
  rw [producer?, standard, wordClass_foldl_addOpen, others_foldl_addWords, Option.or_none,
    ← producer?_foldl_addWords, producer?, others_foldl_addWords, Option.or_none]

end Lexicon

/-! ### Evaluation -/

namespace Language

/-- The meaning of a word, looked up in the lists of the standard lexicon. -/
def listedWord (sounds : List String) (category word : String) : Except Fault Meaning :=
  match (Lexicon.lastListed? (Lexicon.standardWords sounds) category (Text.toLower word)).or
      (Lexicon.standardOpen.reverse.lookup category) with
  | some produce => produce (Text.toLower word)
  | none => .error (.unknownWord category word)

/-- The action of a node, looked up in the list of the standard rules. -/
def listedAction (rule : RuleKey) (children : List Derivation) : Except Fault Action :=
  match shapeFault? rule children with
  | some fault => .error fault
  | none =>
    match Grammar.standard.reverse.lookup rule with
    | some construction => .ok construction.build
    | none => .error (.unknownRule rule.text)

mutual

/-- The meaning of a tree in the standard language, with everything looked up in the lists. -/
def evaluateListed (sounds : List String) (numbers : NumberWords) :
    Derivation → Interpretation Meaning
  | .leaf category word span => located category span (listedWord sounds category word)
  | .node lhs rhs children span => do
    let rule : RuleKey := ⟨lhs, rhs⟩
    let action ← located lhs span (listedAction rule children)
    let parts ← evaluateListedForest sounds numbers children
    located lhs span (action ⟨rule, parts, numbers⟩)

/-- The meanings of several trees in the standard language. -/
def evaluateListedForest (sounds : List String) (numbers : NumberWords) :
    List Derivation → Interpretation (List Meaning)
  | [] => return []
  | tree :: rest => do
    let part ← evaluateListed sounds numbers tree
    let parts ← evaluateListedForest sounds numbers rest
    return part :: parts

end

section

variable (sounds : List String) (numbers : NumberWords)

lemma lookup_standard_eq (category word : String) :
    (Lexicon.standard sounds).lookup category word = listedWord sounds category word := by
  rw [Lexicon.lookup, Lexicon.producer?_standard]
  rfl

lemma action_standard_eq (rule : RuleKey) (children : List Derivation) :
    (standard sounds numbers).action rule children = listedAction rule children := by
  rw [action, listedAction]
  have hlookup : (standard sounds numbers).rules.lookup? rule =
      (Grammar.standard.reverse.lookup rule).map Construction.build :=
    Grammar.lookup?_standardTable_eq rule
  rw [hlookup]
  cases shapeFault? rule children with
  | some fault => rfl
  | none => cases Grammar.standard.reverse.lookup rule <;> rfl

mutual

/-- An evaluation in the standard language can look everything up in the lists. -/
theorem evaluate_standard : (tree : Derivation) →
    (standard sounds numbers).evaluate tree = evaluateListed sounds numbers tree
  | .leaf category word span => by
    rw [evaluate, evaluateListed, ← lookup_standard_eq]
    rfl
  | .node lhs rhs children span => by
    rw [evaluate, evaluateListed, evaluateForest_standard children, action_standard_eq]
    rfl

/-- The same for several trees. -/
theorem evaluateForest_standard : (trees : List Derivation) →
    (standard sounds numbers).evaluateForest trees = evaluateListedForest sounds numbers trees
  | [] => rfl
  | tree :: rest => by
    rw [evaluateForest, evaluateListedForest, evaluate_standard tree,
      evaluateForest_standard rest]

end

end

end Language

end PhraseScript
