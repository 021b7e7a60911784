import PhraseScript.Proofs.Paths
import PhraseScript.Proofs.Safety

/-!
# Evaluations of nodes

What the evaluation of a node is made of: the node is made like a rule of the standard grammar,
its children are evaluated one after another, each from the session that the one before it leaves
(`Threads`), and the construction of the rule is carried out on what they mean.  These conditions
are not only necessary (`Language.gives_node_iff`), so that evaluations can also be put together.

`Language.EvaluationSteps` is the induction over evaluations that keeps all of this at hand.
-/

namespace PhraseScript

/-! ### Nodes that are made like a rule -/

/-- No rule is listed twice. -/
lemma Grammar.nodup_standard : (standard.map Prod.fst).Nodup := by decide +kernel

lemma Grammar.lookup?_standardTable {rule : Rule} (h : rule ∈ standard) :
    standardTable.lookup? rule.1 = some rule.2.build := by
  have hnodup : (standard.reverse.map Prod.fst).Nodup := by
    rw [List.map_reverse, List.nodup_reverse]
    exact nodup_standard
  rw [lookup?_standardTable_eq, lookup_of_mem hnodup (List.mem_reverse.mpr h)]
  rfl

/-- A rule has one construction. -/
lemma Grammar.construction_unique {key : RuleKey} {construction other : Construction}
    (h : (key, construction) ∈ standard) (hother : (key, other) ∈ standard) :
    construction = other :=
  congrArg Prod.snd (List.inj_on_of_nodup_map nodup_standard h hother rfl)

/-! ### Children one after another -/

/-- Something holds of trees one after another, each with a meaning, from the session that the
one before it leaves. -/
inductive Threads (R : Derivation → Session → Meaning → Session → Prop) :
    List Derivation → Session → List Meaning → Session → Prop where
  | nil {session : Session} : Threads R [] session [] session
  | cons {tree : Derivation} {rest : List Derivation} {before between after : Session}
      {part : Meaning} {parts : List Meaning} (h : R tree before part between)
      (hs : Threads R rest between parts after) :
      Threads R (tree :: rest) before (part :: parts) after

namespace Threads

variable {R S : Derivation → Session → Meaning → Session → Prop} {trees : List Derivation}
  {before after : Session} {parts : List Meaning}

lemma imp (h : Threads R trees before parts after)
    (himp : ∀ tree ∈ trees, ∀ before part after, R tree before part after →
      S tree before part after) : Threads S trees before parts after := by
  induction h with
  | nil => exact .nil
  | cons h _ ih =>
    exact .cons (himp _ (by simp) _ _ _ h) (ih fun tree htree => himp tree (by simp [htree]))

/-- What holds of each tree with its meaning, whatever the sessions. -/
lemma forall₂ {P : Derivation → Meaning → Prop} (h : Threads R trees before parts after)
    (himp : ∀ tree ∈ trees, ∀ before part after, R tree before part after → P tree part) :
    List.Forall₂ P trees parts := by
  induction h with
  | nil => exact .nil
  | cons h _ ih =>
    exact .cons (himp _ (by simp) _ _ _ h) (ih fun tree htree => himp tree (by simp [htree]))

lemma exists_part (h : Threads R trees before parts after) {tree : Derivation}
    (htree : tree ∈ trees) : ∃ start part stop, part ∈ parts ∧ R tree start part stop := by
  induction h with
  | nil => cases htree
  | @cons first rest start between _ part parts h _ ih =>
    rcases List.mem_cons.mp htree with rfl | htree
    · exact ⟨start, part, between, by simp, h⟩
    · obtain ⟨start, part, stop, hpart, hR⟩ := ih htree
      exact ⟨start, part, stop, by simp [hpart], hR⟩

lemma exists_tree (h : Threads R trees before parts after) {part : Meaning}
    (hpart : part ∈ parts) : ∃ tree ∈ trees, ∃ start stop, R tree start part stop := by
  induction h with
  | nil => cases hpart
  | @cons first rest start between _ part parts h _ ih =>
    rcases List.mem_cons.mp hpart with rfl | hpart
    · exact ⟨first, by simp, start, between, h⟩
    · obtain ⟨tree, htree, start, stop, hR⟩ := ih hpart
      exact ⟨tree, by simp [htree], start, stop, hR⟩

/-- At each position there are a tree and its meaning.  The tree is evaluated from the session at
the beginning if those before it keep the session. -/
lemma exists_of_getElem? (h : Threads R trees before parts after) {position : Nat}
    {tree : Derivation} (htree : trees[position]? = some tree) :
    ∃ start part stop, parts[position]? = some part ∧ R tree start part stop ∧
      ((∀ other ∈ trees.take position, ∀ before part after, R other before part after →
        before = after) → before = start) := by
  induction h generalizing position with
  | nil => cases htree
  | @cons first rest before between after part parts h _ ih =>
    cases position with
    | zero =>
      obtain rfl := Option.some.inj htree
      exact ⟨before, part, between, rfl, h, fun _ => rfl⟩
    | succ position =>
      obtain ⟨start, part, stop, hpart, hR, hstart⟩ := ih htree
      refine ⟨start, part, stop, hpart, hR, fun hkeep => ?_⟩
      obtain rfl := hkeep first (by simp) _ _ _ h
      exact hstart fun other hother => hkeep other (by simp [hother])

end Threads

namespace Language

variable {sounds : List String} {numbers : NumberWords} {before after : Session}

lemma gives_leaf_iff {category word : String} {span : Span} {meaning : Meaning} :
    Gives ((standard sounds numbers).evaluate (.leaf category word span)) before meaning after ↔
      (Lexicon.standard sounds).lookup category word = .ok meaning ∧ before = after := by
  rw [Language.evaluate, gives_located, gives_lift]
  rfl

lemma gives_forest_iff {trees : List Derivation} {parts : List Meaning} :
    Gives ((standard sounds numbers).evaluateForest trees) before parts after ↔
      Threads (fun tree => Gives ((standard sounds numbers).evaluate tree)) trees before parts
        after := by
  induction trees generalizing before parts after with
  | nil =>
    rw [Language.evaluateForest, gives_pure]
    constructor
    · rintro ⟨rfl, rfl⟩
      exact .nil
    · rintro ⟨⟩
      exact ⟨rfl, rfl⟩
  | cons tree rest ih =>
    simp only [gives_forest_cons, ih]
    constructor
    · rintro ⟨part, between, others, hpart, hothers, rfl⟩
      exact .cons hpart hothers
    · rintro ⟨⟩
      next between part others hpart hothers => exact ⟨part, between, others, hpart, hothers, rfl⟩

/-- A rule of the standard grammar that a node is made like is a rule of the standard language. -/
lemma applies_of_mem_standard {lhs : String} {rhs : List String} {construction : Construction}
    {children : List Derivation} {span : Span}
    (hrule : (⟨lhs, rhs⟩, construction) ∈ Grammar.standard)
    (hcategories : children.map Derivation.category = rhs) :
    (standard sounds numbers).Applies (.node lhs rhs children span) :=
  ⟨hcategories, Option.isSome_iff_exists.mpr ⟨_, Grammar.lookup?_standardTable hrule⟩⟩

/-- What it takes for a node to have a meaning. -/
theorem gives_node_iff {lhs : String} {rhs : List String} {children : List Derivation}
    {span : Span} {meaning : Meaning} :
    Gives ((standard sounds numbers).evaluate (.node lhs rhs children span)) before meaning after ↔
      ∃ construction parts between, (⟨lhs, rhs⟩, construction) ∈ Grammar.standard ∧
        children.map Derivation.category = rhs ∧
        Threads (fun tree => Gives ((standard sounds numbers).evaluate tree)) children before parts
          between ∧
        Gives (construction.build ⟨⟨lhs, rhs⟩, parts, numbers⟩) between meaning after := by
  simp only [Language.evaluate, gives_bind, gives_located, gives_lift, gives_forest_iff]
  constructor
  · rintro ⟨action, start, ⟨haction, rfl⟩, parts, between, hparts, hbuild⟩
    obtain ⟨hcategories, construction, hrule, rfl⟩ :=
      (yields_action lhs rhs children span).result haction
    exact ⟨construction, parts, between, hrule, hcategories, hparts, hbuild⟩
  · rintro ⟨construction, parts, between, hrule, hcategories, hparts, hbuild⟩
    refine ⟨construction.build, before, ⟨?_, rfl⟩, parts, between, hparts, hbuild⟩
    exact action_eq_ok_iff.mpr ⟨hcategories, Grammar.lookup?_standardTable hrule⟩

/-- What it takes for a node to have a meaning when its rule is known. -/
lemma gives_rule_iff {key : RuleKey} {construction : Construction}
    (hrule : (key, construction) ∈ Grammar.standard) {children : List Derivation} {span : Span}
    (hcategories : children.map Derivation.category = key.rhs) {meaning : Meaning} :
    Gives ((standard sounds numbers).evaluate (.node key.lhs key.rhs children span)) before meaning
        after ↔
      ∃ parts between,
        Threads (fun tree => Gives ((standard sounds numbers).evaluate tree)) children before parts
          between ∧
        Gives (construction.build ⟨key, parts, numbers⟩) between meaning after := by
  rw [gives_node_iff]
  constructor
  · rintro ⟨other, parts, between, hother, -, hparts, hbuild⟩
    obtain rfl := Grammar.construction_unique hrule hother
    exact ⟨parts, between, hparts, hbuild⟩
  · rintro ⟨parts, between, hparts, hbuild⟩
    exact ⟨construction, parts, between, hrule, hcategories, hparts, hbuild⟩

/-- What has to be shown of successful evaluations by induction.  Of a node it may be assumed what
`gives_node_iff` says, that everything has the sense of its category, and that the children have
the property. -/
structure EvaluationSteps (sounds : List String) (numbers : NumberWords)
    (P : Derivation → Session → Meaning → Session → Prop) : Prop where
  leaf : ∀ {category word span session meaning},
    (Lexicon.standard sounds).lookup category word = .ok meaning →
      P (.leaf category word span) session meaning session
  node : ∀ {rule : Grammar.Rule} {children span parts before between meaning after},
    rule ∈ Grammar.standard → children.map Derivation.category = rule.1.rhs →
    Sense.CoversAll rule.1.rhs parts → (Sense.ofCategory rule.1.lhs).Covers meaning →
    Threads (fun tree before part after =>
      Gives ((standard sounds numbers).evaluate tree) before part after ∧
        P tree before part after) children before parts between →
    Gives (rule.2.build ⟨rule.1, parts, numbers⟩) between meaning after →
      P (.node rule.1.lhs rule.1.rhs children span) before meaning after

variable {P : Derivation → Session → Meaning → Session → Prop}

/-- The evaluation of a node out of those of its parts. -/
lemma gives_of_threads {rule : Grammar.Rule} (hrule : rule ∈ Grammar.standard)
    {children : List Derivation} (hcategories : children.map Derivation.category = rule.1.rhs)
    (span : Span) {parts : List Meaning} {before between after : Session} {meaning : Meaning}
    (hchildren : Threads (fun tree before part after =>
      Gives ((standard sounds numbers).evaluate tree) before part after ∧
        P tree before part after) children before parts between)
    (hbuild : Gives (rule.2.build ⟨rule.1, parts, numbers⟩) between meaning after) :
    Gives ((standard sounds numbers).evaluate (.node rule.1.lhs rule.1.rhs children span)) before
      meaning after :=
  (gives_rule_iff hrule hcategories).mpr
    ⟨parts, between, hchildren.imp fun _ _ _ _ _ h => h.1, hbuild⟩

mutual

/-- Induction over the evaluation of a tree, with the evaluations of its parts at hand. -/
theorem EvaluationSteps.evaluate (h : EvaluationSteps sounds numbers P) :
    (tree : Derivation) → ∀ before meaning after,
      Gives ((standard sounds numbers).evaluate tree) before meaning after →
        P tree before meaning after
  | .leaf category word span => by
    intro before meaning after hgives
    obtain ⟨hlookup, rfl⟩ := gives_leaf_iff.mp hgives
    exact h.leaf hlookup
  | .node lhs rhs children span => by
    intro before meaning after hgives
    obtain ⟨construction, parts, between, hrule, hcategories, hparts, hbuild⟩ :=
      gives_node_iff.mp hgives
    have hsenses := covers_of_givesForest (gives_forest_iff.mpr hparts)
    rw [hcategories] at hsenses
    exact h.node hrule hcategories hsenses (covers_of_gives hgives)
      (h.evaluateForest children _ _ _ hparts) hbuild

/-- Induction over the evaluation of a forest, with the evaluations of its parts at hand. -/
theorem EvaluationSteps.evaluateForest (h : EvaluationSteps sounds numbers P) :
    (trees : List Derivation) → ∀ before parts after,
      Threads (fun tree => Gives ((standard sounds numbers).evaluate tree)) trees before parts
        after →
      Threads (fun tree before part after =>
        Gives ((standard sounds numbers).evaluate tree) before part after ∧
          P tree before part after) trees before parts after
  | [] => by
    rintro before parts after ⟨⟩
    exact .nil
  | tree :: rest => by
    rintro before parts after ⟨⟩
    next between part parts hpart hparts =>
      exact .cons ⟨hpart, h.evaluate tree _ _ _ hpart⟩ (h.evaluateForest rest _ _ _ hparts)

end

end Language

end PhraseScript
