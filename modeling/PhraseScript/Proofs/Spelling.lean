import Mathlib.Data.List.Forall2
import PhraseScript.Proofs.Failures

/-!
# Spelling

Words are looked up in lower case and spans are only reported.  Two trees that differ in the letter
case of their words and in their spans (`Derivation.Respelled`) therefore mean the same, and a
sentence fails with both of them or with none, at one node and with faults of one name
(`Language.translate_respelled`).

Of two such failures only the word that is not in the lexicon can differ, which is reported as it
was written (`Fault.Alike`).  Words and rules of the language are arbitrary.
-/

namespace PhraseScript

/-! ### Trees that are spelled differently -/

/-- Two trees that differ in the letter case of their words and in their spans only. -/
inductive Derivation.Respelled : Derivation → Derivation → Prop where
  | leaf {category word word' : String} {span span' : Span}
      (h : Text.toLower word = Text.toLower word') :
      Respelled (.leaf category word span) (.leaf category word' span')
  | node {lhs : String} {rhs : List String} {children children' : List Derivation}
      {span span' : Span} (h : List.Forall₂ Respelled children children') :
      Respelled (.node lhs rhs children span) (.node lhs rhs children' span')

namespace Derivation

variable {tree tree' : Derivation} {trees trees' : List Derivation}

lemma Respelled.category_eq (h : tree.Respelled tree') : tree.category = tree'.category := by
  cases h <;> rfl

lemma map_category_eq_of_respelled (h : List.Forall₂ Respelled trees trees') :
    trees.map category = trees'.map category := by
  induction h with
  | nil => rfl
  | cons h _ ih => rw [List.map_cons, List.map_cons, h.category_eq, ih]

lemma Respelled.children (h : tree.Respelled tree') :
    List.Forall₂ Respelled tree.children tree'.children := by
  cases h with
  | leaf => exact .nil
  | node h => exact h

lemma exists_getElem?_of_respelled (h : List.Forall₂ Respelled trees trees') {position : Nat}
    (htree : trees[position]? = some tree) :
    ∃ tree', trees'[position]? = some tree' ∧ tree.Respelled tree' := by
  induction h generalizing position with
  | nil => cases htree
  | @cons first first' rest rest' hfirst _ ih =>
    cases position with
    | zero =>
      obtain rfl := Option.some.inj htree
      exact ⟨first', rfl, hfirst⟩
    | succ position => exact ih htree

mutual

/-- Counting the spans out leaves the words as they are. -/
theorem respelled_reindexFrom (next : Nat) : (tree : Derivation) →
    tree.Respelled (reindexFrom next tree).1
  | .leaf _ _ _ => .leaf rfl
  | .node _ _ children _ => .node (respelled_reindexForest next children)

/-- The same for several trees. -/
theorem respelled_reindexForest (next : Nat) : (trees : List Derivation) →
    List.Forall₂ Respelled trees (reindexForest next trees).1
  | [] => .nil
  | tree :: rest => .cons (respelled_reindexFrom next tree) (respelled_reindexForest _ rest)

end

end Derivation

/-! ### Faults -/

/-- Two faults are the same, up to the way in which an unknown word is written. -/
inductive Fault.Alike : Fault → Fault → Prop where
  | refl {fault : Fault} : Alike fault fault
  | unknownWord {category word word' : String} :
      Alike (.unknownWord category word) (.unknownWord category word')

lemma Fault.Alike.code_eq {fault fault' : Fault} (h : fault.Alike fault') :
    fault.code = fault'.code := by
  cases h <;> rfl

namespace Lexicon

variable {lexicon : Lexicon} {category word word' : String}

lemma lookup_eq_ok_of_toLower_eq (h : Text.toLower word = Text.toLower word') {meaning : Meaning}
    (hlookup : lexicon.lookup category word = .ok meaning) :
    lexicon.lookup category word' = .ok meaning := by
  rw [lookup] at hlookup ⊢
  rw [← h]
  cases hproducer : lexicon.producer? category (Text.toLower word) with
  | some produce => simpa [hproducer] using hlookup
  | none => simp [hproducer] at hlookup

lemma lookup_eq_error_of_toLower_eq (h : Text.toLower word = Text.toLower word') {fault : Fault}
    (hlookup : lexicon.lookup category word = .error fault) :
    ∃ fault', lexicon.lookup category word' = .error fault' ∧ fault.Alike fault' := by
  rw [lookup] at hlookup
  rw [lookup, ← h]
  cases hproducer : lexicon.producer? category (Text.toLower word) with
  | some produce => exact ⟨fault, by simpa [hproducer] using hlookup, .refl⟩
  | none =>
    rw [hproducer] at hlookup
    obtain rfl := Except.error.inj hlookup
    exact ⟨_, rfl, .unknownWord⟩

end Lexicon

namespace Language

variable {language : Language} {tree tree' node : Derivation} {session before after : Session}
  {path : List Nat} {fault : Fault}

/-! ### Meanings -/

open PhraseScript.Derivation in
mutual

/-- What a tree means depends neither on letter case nor on spans. -/
theorem gives_of_respelled : (tree : Derivation) → ∀ ⦃tree'⦄, tree.Respelled tree' →
    ∀ ⦃before meaning after⦄, Gives (language.evaluate tree) before meaning after →
      Gives (language.evaluate tree') before meaning after
  | .leaf category word span => by
    rintro _ ⟨h⟩ before meaning after hgives
    simp only [evaluate, gives_located, gives_lift] at hgives ⊢
    exact ⟨Lexicon.lookup_eq_ok_of_toLower_eq h hgives.1, hgives.2⟩
  | .node lhs rhs children span => by
    rintro _ (_ | ⟨h⟩) before meaning after hgives
    simp only [evaluate, gives_bind, gives_located, gives_lift, action_eq_ok_iff,
      ← map_category_eq_of_respelled h] at hgives ⊢
    obtain ⟨action, start, haction, parts, between, hparts, hmeaning⟩ := hgives
    exact ⟨action, start, haction, parts, between, givesForest_of_respelled children h hparts,
      hmeaning⟩

/-- The same for several trees. -/
theorem givesForest_of_respelled : (trees : List Derivation) →
    ∀ ⦃trees'⦄, List.Forall₂ Respelled trees trees' → ∀ ⦃before parts after⦄,
      Gives (language.evaluateForest trees) before parts after →
        Gives (language.evaluateForest trees') before parts after
  | [] => by
    rintro _ ⟨⟩ before parts after hgives
    exact hgives
  | tree :: rest => by
    rintro _ (_ | ⟨h, hrest⟩) before parts after hgives
    obtain ⟨part, between, others, hpart, hothers, rfl⟩ := gives_forest_cons.mp hgives
    exact gives_forest_cons.mpr ⟨part, between, others, gives_of_respelled tree h hpart,
      givesForest_of_respelled rest hrest hothers, rfl⟩

end

/-! ### Failures -/

lemma Applies.of_respelled (happlies : language.Applies tree) (h : tree.Respelled tree') :
    language.Applies tree' := by
  cases h with
  | leaf => exact happlies
  | node h => exact ⟨(Derivation.map_category_eq_of_respelled h).symm.trans happlies.1, happlies.2⟩

lemma FailsItself.of_respelled (hfails : language.FailsItself tree before fault after)
    (h : tree.Respelled tree') :
    ∃ fault', language.FailsItself tree' before fault' after ∧ fault.Alike fault' := by
  cases h with
  | leaf h =>
    obtain ⟨hlookup⟩ := hfails
    obtain ⟨fault', hlookup', halike⟩ := Lexicon.lookup_eq_error_of_toLower_eq h hlookup
    exact ⟨fault', .word hlookup', halike⟩
  | node h =>
    have hcategories := Derivation.map_category_eq_of_respelled h
    refine ⟨fault, ?_, .refl⟩
    cases hfails with
    | misshapen hmisshapen => exact .misshapen (hmisshapen.of_map_category_eq hcategories)
    | unknownRule hsame hlookup => exact .unknownRule (hcategories.symm.trans hsame) hlookup
    | action hsame haction hparts hstops =>
      exact .action (hcategories.symm.trans hsame) haction (givesForest_of_respelled _ h hparts)
        hstops

/-- Trees that are spelled differently fail at one node. -/
lemma FailsAt.of_respelled (hfails : language.FailsAt tree session path node fault after)
    (h : tree.Respelled tree') :
    ∃ node' fault', language.FailsAt tree' session path node' fault' after ∧
      node.category = node'.category ∧ fault.Alike fault' := by
  obtain ⟨before, hreaches, hitself⟩ := hfails
  induction path generalizing tree tree' session with
  | nil =>
    obtain ⟨rfl, rfl⟩ := reaches_nil_iff.mp hreaches
    obtain ⟨fault', hitself', halike⟩ := hitself.of_respelled h
    exact ⟨tree', fault', ⟨before, reaches_nil_iff.mpr ⟨rfl, rfl⟩, hitself'⟩, h.category_eq, halike⟩
  | cons position path ih =>
    obtain ⟨happlies, child, parts, between, hchild, hparts, hinside⟩ :=
      reaches_cons_iff.mp hreaches
    obtain ⟨child', hchild', hrespelled⟩ :=
      Derivation.exists_getElem?_of_respelled h.children hchild
    obtain ⟨node', fault', ⟨before', hinside', hitself'⟩, hcategory, halike⟩ :=
      ih hrespelled hinside
    refine ⟨node', fault', ⟨before', reaches_cons_iff.mpr ⟨happlies.of_respelled h, child', parts,
      between, hchild', ?_, hinside'⟩, hitself'⟩, hcategory, halike⟩
    exact givesForest_of_respelled _ (List.forall₂_take position h.children) hparts

/-- Letter case and spans do not change a translation, whatever the words and the rules of the
language are.  Two trees that are spelled differently have one outcome, or both fail: with faults
of one name and at one node, or as whole sentences. -/
theorem translate_respelled (language : Language) {tree tree' : Derivation}
    (h : tree.Respelled tree') (session : Session) :
    (∃ outcome, language.translate tree session = .ok outcome ∧
      language.translate tree' session = .ok outcome) ∨
    ∃ failure failure', language.translate tree session = .error failure ∧
      language.translate tree' session = .error failure' ∧
      failure.fault.code = failure'.fault.code ∧
      failure.place.map Place.category = failure'.place.map Place.category ∧
      ((failure.place = none ∧ failure'.place = none) ∨
        ∃ path node node' after, language.FailsAt tree session path node failure.fault after ∧
          language.FailsAt tree' session path node' failure'.fault after ∧
          failure.place = some node.place ∧ failure'.place = some node'.place) := by
  cases htranslate : language.translate tree session with
  | ok outcome =>
    obtain ⟨meaning, hmeaning, hscript⟩ := translate_eq_ok_iff.mp htranslate
    exact .inl ⟨outcome, rfl,
      translate_eq_ok_iff.mpr ⟨meaning, gives_of_respelled tree h hmeaning, hscript⟩⟩
  | error failure =>
    rcases translate_eq_error_iff.mp htranslate with ⟨located, after, hstops, rfl⟩ |
      ⟨meaning, after, hmeaning, hnot, rfl⟩
    · obtain ⟨path, node, fault, hfails, rfl⟩ := stops_iff_exists_failsAt.mp hstops
      obtain ⟨node', fault', hfails', hcategory, halike⟩ := hfails.of_respelled h
      have htranslate' := translate_eq_error_iff.mpr
        (.inl ⟨_, after, stops_of_failsAt hfails', rfl⟩)
      exact .inr ⟨_, _, rfl, htranslate', halike.code_eq, congrArg some hcategory,
        .inr ⟨path, node, node', after, hfails, hfails', rfl, rfl⟩⟩
    · have htranslate' := translate_eq_error_iff.mpr
        (.inr ⟨meaning, after, gives_of_respelled tree h hmeaning, hnot, rfl⟩)
      exact .inr ⟨_, _, rfl, htranslate', rfl, rfl, .inl ⟨rfl, rfl⟩⟩

/-- "Make é", with the words as they are written. -/
def makingAs (make name : String) (span : Span) : Derivation :=
  .node "CreateCommand" ["Make", "VARIABLE_LIST"] [.leaf "Make" make span,
    .node "VARIABLE_LIST" ["VARIABLE_NAME"] [.leaf "VARIABLE_NAME" name span] span] span

lemma respelled_makingAs {make make' name name' : String} {span span' : Span}
    (hmake : Text.toLower make = Text.toLower make')
    (hname : Text.toLower name = Text.toLower name') :
    (makingAs make name span).Respelled (makingAs make' name' span') :=
  .node (.cons (.leaf hmake) (.cons (.node (.cons (.leaf hname) .nil)) .nil))

theorem translate_respelled_makingAs :
    (makingAs "make" "é" .unset).Respelled (makingAs "Make" "É" ⟨3, 5⟩) ∧
    (makingAs "mkae" "é" .unset).Respelled (makingAs "Mkae" "É" ⟨3, 5⟩) ∧
    (∃ outcome, (standard [] .numerals).translate (makingAs "make" "é" .unset) {} = .ok outcome ∧
      (standard [] .numerals).translate (makingAs "Make" "É" ⟨3, 5⟩) {} = .ok outcome) ∧
    ∃ failure failure',
      (standard [] .numerals).translate (makingAs "mkae" "é" .unset) {} = .error failure ∧
      (standard [] .numerals).translate (makingAs "Mkae" "É" ⟨3, 5⟩) {} = .error failure' ∧
      failure.fault.code = failure'.fault.code := by
  have hmake : (makingAs "make" "é" .unset).Respelled (makingAs "Make" "É" ⟨3, 5⟩) :=
    respelled_makingAs (by decide +kernel) (by decide +kernel)
  have hmkae : (makingAs "mkae" "é" .unset).Respelled (makingAs "Mkae" "É" ⟨3, 5⟩) :=
    respelled_makingAs (by decide +kernel) (by decide +kernel)
  have hok : ((standard [] .numerals).translate (makingAs "make" "é" .unset) {}).toBool = true := by
    rw [translate, interpret, evaluate_standard]
    decide +kernel
  have hnot : ((standard [] .numerals).translate (makingAs "mkae" "é" .unset) {}).toBool =
      false := by
    rw [translate, interpret, evaluate_standard]
    decide +kernel
  refine ⟨hmake, hmkae, (translate_respelled _ hmake {}).resolve_right ?_, ?_⟩
  · rintro ⟨failure, -, hfailure, -⟩
    rw [hfailure] at hok
    cases hok
  · rcases translate_respelled _ hmkae {} with ⟨outcome, houtcome, -⟩ |
      ⟨failure, failure', hfailure, hfailure', hcode, -⟩
    · rw [houtcome] at hnot
      cases hnot
    · exact ⟨failure, failure', hfailure, hfailure', hcode⟩

end Language

end PhraseScript
