import Mathlib.Data.List.Forall2
import Mathlib.Logic.Function.Iterate
import PhraseScript.Proofs.Stretches
import PhraseScript.Proofs.Values

/-!
# Stacks of modifiers

Modifiers act on meanings, and comparators can be modified again and again.  All that is left of
a modifier in the end is the number of its negations.

In a sentence modifiers are stacked by nested phrases, each around the one before it
(`Derivation.modifiedPhrase`).  Such a phrase means something exactly if all its parts do, and it
means the innermost comparator with the modifiers put around it one after another
(`Language.understands_modifiedPhrase_iff`, by induction from a single modifier).  The main
statement is `Language.modifiers_act`.
-/

namespace PhraseScript

/-! ### The action -/

namespace Modifier

theorem after_assoc (first second third : Modifier) :
    (first.after second).after third = first.after (second.after third) :=
  Modifier.ext (List.append_assoc _ _ _)

/-- How often a modifier negates. -/
def negations (modifier : Modifier) : Nat := modifier.layers.count .negate

lemma foldr_around_eq_iterate (layers : List Polarity) (meaning : Meaning) :
    layers.foldr Polarity.around meaning = Meaning.negated^[layers.count .negate] meaning := by
  induction layers with
  | nil => rfl
  | cons layer rest ih =>
    cases layer with
    | affirm =>
      rw [List.foldr_cons, ih, List.count_cons_of_ne (by decide)]
      rfl
    | negate =>
      rw [List.foldr_cons, ih, List.count_cons_self, Function.iterate_succ_apply']
      rfl

/-- Affirmations leave no trace, wherever they are. -/
lemma around_eq_iterate (modifier : Modifier) (meaning : Meaning) :
    modifier.around meaning = Meaning.negated^[modifier.negations] meaning :=
  foldr_around_eq_iterate modifier.layers meaning

end Modifier

namespace Comparator

/-- How often a comparator negates its relation. -/
def negations (comparator : Comparator) : Nat := comparator.modifier.elim 0 Modifier.negations

lemma between_eq_iterate (comparator : Comparator) (left right : Meaning) :
    comparator.between left right =
      Meaning.negated^[comparator.negations] (comparator.relation.between left right) := by
  obtain ⟨relation, modifier⟩ := comparator
  cases modifier with
  | none => rfl
  | some modifier => exact modifier.around_eq_iterate _

/-- The condition of a comparator that is modified by several modifiers, the innermost first. -/
lemma between_foldl_modified (modifiers : List Modifier) (comparator : Comparator)
    (left right : Meaning) :
    (modifiers.foldl modified comparator).between left right =
      modifiers.foldl (fun meaning modifier => modifier.around meaning)
        (comparator.between left right) := by
  induction modifiers generalizing comparator with
  | nil => rfl
  | cons modifier rest ih => rw [List.foldl_cons, ih, between_modified, List.foldl_cons]

end Comparator

/-- Of modifiers around each other the negations add up. -/
lemma Modifier.foldl_around_eq_iterate (modifiers : List Modifier) (meaning : Meaning) :
    modifiers.foldl (fun meaning modifier => modifier.around meaning) meaning =
      Meaning.negated^[(modifiers.map negations).sum] meaning := by
  induction modifiers generalizing meaning with
  | nil => rfl
  | cons modifier rest ih =>
    rw [List.foldl_cons, ih, around_eq_iterate, List.map_cons, List.sum_cons, Nat.add_comm,
      Function.iterate_add_apply]

/-! ### Phrases that leave the session as it is -/

namespace Grammar

/-- What changes the session acts. -/
def Rule.actsToChange (rule : Rule) : Bool :=
  (Sense.ofCategory rule.1.lhs).acts || !rule.2.changesSession

theorem standard_actsToChange {rule : Rule} (h : rule ∈ standard) : rule.actsToChange = true := by
  have hall : standard.all Rule.actsToChange = true := by decide +kernel
  exact List.all_eq_true.mp hall rule h

end Grammar

lemma Threads.session_eq {R : Derivation → Session → Meaning → Session → Prop}
    {trees : List Derivation} {before after : Session} {parts : List Meaning}
    (h : Threads R trees before parts after)
    (hkeep : ∀ tree ∈ trees, ∀ before part after, R tree before part after → before = after) :
    before = after := by
  induction h with
  | nil => rfl
  | cons h _ ih =>
    exact (hkeep _ (by simp) _ _ _ h).trans (ih fun tree htree => hkeep tree (by simp [htree]))

namespace Language

variable {sounds : List String} {numbers : NumberWords}

lemma still_steps : EvaluationSteps sounds numbers fun tree before _ after =>
    (Sense.ofCategory tree.category).acts = false → before = after where
  leaf _ _ := rfl
  node := by
    intro rule children span parts before between meaning after hrule hcategories _ _ hparts
      hbuild hacts
    have hchanges := Grammar.standard_actsToChange hrule
    rw [Grammar.Rule.actsToChange, show (Sense.ofCategory rule.1.lhs).acts = false from hacts,
      Bool.false_or, Bool.not_eq_true'] at hchanges
    have hbetween : before = between := by
      refine hparts.session_eq fun tree htree before part after h => h.2 ?_
      -- a phrase that acts would make the whole phrase act
      rw [← Bool.not_eq_true]
      intro htreeActs
      have hcategory : tree.category ∈ rule.1.rhs := hcategories ▸ List.mem_map_of_mem htree
      exact Bool.false_ne_true
        (hacts.symm.trans (Grammar.acts_lhs_of_acts hrule hcategory htreeActs))
    exact hbetween.trans (Construction.still_build hchanges _ _ _ _ hbuild)

/-- A phrase that does not act leaves the session as it is. -/
theorem session_eq_of_gives {tree : Derivation} {before after : Session} {meaning : Meaning}
    (h : Gives ((standard sounds numbers).evaluate tree) before meaning after)
    (hacts : (Sense.ofCategory tree.category).acts = false) : before = after :=
  still_steps.evaluate tree before meaning after h hacts

/-- In a session a phrase of a category is understood, and the session stays as it is. -/
structure Understands (language : Language) (session : Session) (category : String)
    (tree : Derivation) (meaning : Meaning) : Prop where
  category_eq : tree.category = category
  interpret_eq : language.interpret tree session = .ok (meaning, session)

/-- Several phrases are understood, each of its category. -/
inductive UnderstandsAll (language : Language) (session : Session) :
    List String → List Derivation → List Meaning → Prop where
  | nil : UnderstandsAll language session [] [] []
  | cons {category : String} {categories : List String} {tree : Derivation}
      {trees : List Derivation} {part : Meaning} {parts : List Meaning}
      (h : language.Understands session category tree part)
      (hs : UnderstandsAll language session categories trees parts) :
      UnderstandsAll language session (category :: categories) (tree :: trees) (part :: parts)

section UnderstandsAll

variable {session : Session} {trees : List Derivation} {parts : List Meaning}

lemma UnderstandsAll.categories_eq {language : Language} {categories : List String}
    (h : language.UnderstandsAll session categories trees parts) :
    trees.map Derivation.category = categories := by
  induction h with
  | nil => rfl
  | cons h _ ih => rw [List.map_cons, h.category_eq, ih]

lemma UnderstandsAll.threads {language : Language} {categories : List String}
    (h : language.UnderstandsAll session categories trees parts) :
    Threads (fun tree => Gives (language.evaluate tree)) trees session parts session := by
  induction h with
  | nil => exact .nil
  | cons h _ ih => exact .cons (interpret_eq_ok_iff.mp h.interpret_eq) ih

/-- A phrase whose children are understood is understood, by a construction that leaves the session
as it is. -/
lemma understands_node {rule : Grammar.Rule} (hrule : rule ∈ Grammar.standard) {span : Span}
    {meaning : Meaning}
    (htrees : (standard sounds numbers).UnderstandsAll session rule.1.rhs trees parts)
    (hbuild : Gives (rule.2.build ⟨rule.1, parts, numbers⟩) session meaning session) :
    (standard sounds numbers).Understands session rule.1.lhs
      (.node rule.1.lhs rule.1.rhs trees span) meaning :=
  ⟨rfl, interpret_eq_ok_iff.mpr ((gives_rule_iff hrule htrees.categories_eq).mpr
    ⟨parts, session, htrees.threads, hbuild⟩)⟩

end UnderstandsAll

end Language

/-! ### Stacks of phrases -/

namespace Derivation

/-- A phrase with modifiers put around it, the first of them innermost.  Each comes with the span
of the phrase that it makes. -/
def modifiedPhrase (base : Derivation) : List (Derivation × Span) → Derivation
  | [] => base
  | (layer, span) :: rest =>
    modifiedPhrase (.node "CBP" ["LMOD", "CBP"] [layer, base] span) rest

lemma category_modifiedPhrase {base : Derivation} (h : base.category = "CBP")
    (layers : List (Derivation × Span)) : (modifiedPhrase base layers).category = "CBP" := by
  induction layers generalizing base with
  | nil => exact h
  | cons layer rest ih => exact ih rfl

end Derivation

namespace Language

open PhraseScript.Derivation

variable {sounds : List String} {numbers : NumberWords}

lemma exists_modifier_of_gives {tree : Derivation} {before after : Session} {meaning : Meaning}
    (h : Gives ((standard sounds numbers).evaluate tree) before meaning after)
    (hcategory : tree.category = "LMOD") :
    before = after ∧ ∃ modifier, meaning = .modifier modifier ∧
      (standard sounds numbers).Understands before "LMOD" tree (.modifier modifier) := by
  obtain rfl := session_eq_of_gives h (by rw [hcategory]; decide)
  have hcovers : (Sense.ofCategory "LMOD").Covers meaning := hcategory ▸ covers_of_gives h
  cases meaning with
  | modifier modifier => exact ⟨rfl, modifier, rfl, hcategory, interpret_eq_ok_iff.mpr h⟩
  | _ => exact hcovers.elim

lemma exists_comparator_of_gives {tree : Derivation} {before after : Session} {meaning : Meaning}
    (h : Gives ((standard sounds numbers).evaluate tree) before meaning after)
    (hcategory : tree.category = "CBP") :
    before = after ∧ ∃ comparator, meaning = .comparator comparator ∧
      (standard sounds numbers).Understands before "CBP" tree (.comparator comparator) := by
  obtain rfl := session_eq_of_gives h (by rw [hcategory]; decide +kernel)
  have hcovers : (Sense.ofCategory "CBP").Covers meaning := hcategory ▸ covers_of_gives h
  cases meaning with
  | comparator comparator => exact ⟨rfl, comparator, rfl, hcategory, interpret_eq_ok_iff.mpr h⟩
  | _ => exact hcovers.elim

/-- A modified comparator is understood if the modifier and the comparator are. -/
lemma understands_modified_iff {layer base : Derivation} {span : Span} {session : Session}
    {comparator : Comparator} :
    (standard sounds numbers).Understands session "CBP"
        (.node "CBP" ["LMOD", "CBP"] [layer, base] span) (.comparator comparator) ↔
      ∃ modifier inner,
        (standard sounds numbers).Understands session "LMOD" layer (.modifier modifier) ∧
        (standard sounds numbers).Understands session "CBP" base (.comparator inner) ∧
        comparator = inner.modified modifier := by
  have hrule : (⟨"CBP", ["LMOD", "CBP"]⟩, .modifyComparator) ∈ Grammar.standard := by
    simp [Grammar.standard, Grammar.logicRules, Grammar.rule]
  constructor
  · rintro ⟨-, h⟩
    obtain ⟨construction, parts, between, hother, hcategories, hparts, hbuild⟩ :=
      gives_node_iff.mp (interpret_eq_ok_iff.mp h)
    obtain rfl := Grammar.construction_unique hrule hother
    obtain ⟨hlayerCategory, hbaseCategory⟩ : layer.category = "LMOD" ∧ base.category = "CBP" := by
      simpa using hcategories
    cases hparts with
    | cons hlayer hrest =>
      cases hrest with
      | cons hbase hnil =>
        cases hnil
        obtain ⟨rfl, modifier, rfl, hmodifier⟩ := exists_modifier_of_gives hlayer hlayerCategory
        obtain ⟨rfl, inner, rfl, hinner⟩ := exists_comparator_of_gives hbase hbaseCategory
        obtain ⟨heq, -⟩ := gives_pure.mp hbuild
        exact ⟨modifier, inner, hmodifier, hinner, (Meaning.comparator.inj heq).symm⟩
  · rintro ⟨modifier, inner, hlayer, hbase, rfl⟩
    exact understands_node hrule (.cons hlayer (.cons hbase .nil)) (gives_pure.mpr ⟨rfl, rfl⟩)

/-- A stack of modifiers is understood if the modifiers and the innermost comparator are. -/
lemma understands_modifiedPhrase_iff {base : Derivation} {layers : List (Derivation × Span)}
    {session : Session} {comparator : Comparator} :
    (standard sounds numbers).Understands session "CBP" (modifiedPhrase base layers)
        (.comparator comparator) ↔
      ∃ inner modifiers,
        (standard sounds numbers).Understands session "CBP" base (.comparator inner) ∧
        List.Forall₂ (fun layer modifier =>
          (standard sounds numbers).Understands session "LMOD" layer (.modifier modifier))
          (layers.map Prod.fst) modifiers ∧
        comparator = modifiers.foldl Comparator.modified inner := by
  induction layers generalizing base with
  | nil =>
    constructor
    · exact fun h => ⟨comparator, [], h, .nil, rfl⟩
    · rintro ⟨inner, modifiers, hbase, ⟨⟩, rfl⟩
      exact hbase
  | cons layer rest ih =>
    obtain ⟨layer, span⟩ := layer
    rw [modifiedPhrase, ih]
    constructor
    · rintro ⟨outer, modifiers, houter, hrest, rfl⟩
      obtain ⟨modifier, inner, hlayer, hbase, rfl⟩ := understands_modified_iff.mp houter
      exact ⟨inner, modifier :: modifiers, hbase, .cons hlayer hrest, rfl⟩
    · rintro ⟨inner, modifiers, hbase, hlayers, rfl⟩
      obtain ⟨modifier, modifiers, hlayer, hrest, rfl⟩ := List.forall₂_cons_left_iff.mp hlayers
      exact ⟨_, modifiers, understands_modified_iff.mpr ⟨modifier, inner, hlayer, hbase, rfl⟩,
        hrest, rfl⟩

/-- Modifiers act on meanings and on comparators, and only their negations count: each of them puts
a block `not` around the condition.  A stack of modifiers in a sentence is understood if all its
parts are, in the session at the beginning.  It means its innermost comparator with the modifiers
put around it from the inside outwards, so that the condition of two values is that of the
innermost comparator with the modifiers around it. -/
theorem modifiers_act :
    (∀ first second third : Modifier,
      (first.after second).after third = first.after (second.after third)) ∧
    (∀ (outer inner : Modifier) (meaning : Meaning),
      (outer.after inner).around meaning = outer.around (inner.around meaning)) ∧
    (∀ (comparator : Comparator) (first second : Modifier) (left right : Meaning),
      ((comparator.modified first).modified second).between left right =
        second.around (first.around (comparator.between left right))) ∧
    (∀ (comparator : Comparator) (modifiers : List Modifier) (left right : Meaning),
      (modifiers.foldl Comparator.modified comparator).between left right =
          modifiers.foldl (fun meaning modifier => modifier.around meaning)
            (comparator.between left right) ∧
        (modifiers.foldl Comparator.modified comparator).between left right =
          (fun condition => Meaning.expression (.mk "not" [condition]))^[
              (modifiers.map Modifier.negations).sum + comparator.negations]
            (comparator.relation.between left right)) ∧
    ∀ (sounds : List String) (numbers : NumberWords) (rhs : List String)
      (children : List Derivation) (span : Span) (layers : List (Derivation × Span))
      (session after : Session) (meaning : Meaning),
      (standard sounds numbers).interpret
          (modifiedPhrase (.node "CBP" rhs children span) layers) session = .ok (meaning, after) ↔
        after = session ∧ ∃ comparator modifiers,
          (standard sounds numbers).Understands session "CBP" (.node "CBP" rhs children span)
            (.comparator comparator) ∧
          List.Forall₂ (fun layer modifier =>
            (standard sounds numbers).Understands session "LMOD" layer (.modifier modifier))
            (layers.map Prod.fst) modifiers ∧
          meaning = .comparator (modifiers.foldl Comparator.modified comparator) := by
  refine ⟨Modifier.after_assoc, Modifier.around_after, ?_, ?_, ?_⟩
  · intro comparator first second left right
    rw [Comparator.between_modified, Comparator.between_modified]
  · refine fun comparator modifiers left right =>
      ⟨comparator.between_foldl_modified modifiers left right, ?_⟩
    change _ = Meaning.negated^[_] _
    rw [Comparator.between_foldl_modified, Modifier.foldl_around_eq_iterate,
      Comparator.between_eq_iterate, ← Function.iterate_add_apply]
  · intro sounds numbers rhs children span layers session after meaning
    constructor
    · intro h
      obtain ⟨rfl, comparator, rfl, hunderstood⟩ := exists_comparator_of_gives
        (interpret_eq_ok_iff.mp h) (category_modifiedPhrase rfl layers)
      obtain ⟨inner, modifiers, hbase, hlayers, rfl⟩ :=
        understands_modifiedPhrase_iff.mp hunderstood
      exact ⟨rfl, inner, modifiers, hbase, hlayers, rfl⟩
    · rintro ⟨rfl, comparator, modifiers, hbase, hlayers, rfl⟩
      exact (understands_modifiedPhrase_iff.mpr
        ⟨comparator, modifiers, hbase, hlayers, rfl⟩).interpret_eq

end Language

end PhraseScript
