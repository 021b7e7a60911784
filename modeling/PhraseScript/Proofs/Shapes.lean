import Mathlib.Tactic.Lemma
import PhraseScript.Evaluation

/-!
# How nodes fit their rules

A node is compared with its rule before anything inside it is evaluated, and only the categories
of its children count.  `shapeFault?_eq_none_iff` says when a node fits, `shapeFault?_eq_some_iff`
which fault it has otherwise (`Misshapen`).  `Language.action_eq_ok_iff` and
`Language.action_eq_error_iff` add the look-up of the rule.
-/

namespace PhraseScript

/-- What is wrong with children that are not those of a rule: there are too many of them or too
few, or one is the first of another category. -/
inductive Misshapen (rule : RuleKey) (children : List Derivation) : Fault → Prop where
  | arity (h : children.length ≠ rule.rhs.length) :
      Misshapen rule children (.arity rule.text rule.rhs.length children.length)
  | misplaced {position : Nat} {child : Derivation} {expected : String}
      (hlength : children.length = rule.rhs.length)
      (hbefore : (children.take position).map Derivation.category = rule.rhs.take position)
      (hchild : children[position]? = some child) (hexpected : rule.rhs[position]? = some expected)
      (h : child.category ≠ expected) :
      Misshapen rule children
        (.treeSyntax (.misplacedChild position rule.text child.category expected))

section

variable {rule : RuleKey} {children children' : List Derivation} {fault : Fault}

lemma misplaced?_eq_some_iff {start : Nat} {rhs : List String} :
    misplaced? rule start children rhs = some fault ↔
      ∃ position child expected,
        (children.take position).map Derivation.category = rhs.take position ∧
        children[position]? = some child ∧ rhs[position]? = some expected ∧
        child.category ≠ expected ∧
        fault = .treeSyntax
          (.misplacedChild (start + position) rule.text child.category expected) := by
  induction children generalizing start rhs with
  | nil => simp [misplaced?]
  | cons first children ih =>
    cases rhs with
    | nil => simp [misplaced?]
    | cons category rhs =>
      rw [misplaced?]
      by_cases hfirst : first.category = category
      · rw [if_pos hfirst, ih]
        constructor
        · rintro ⟨position, child, expected, hbefore, hchild, hexpected, hne, rfl⟩
          refine ⟨position + 1, child, expected, ?_, hchild, hexpected, hne, ?_⟩
          · rw [List.take_succ_cons, List.map_cons, hfirst, hbefore, List.take_succ_cons]
          · rw [Nat.add_right_comm, Nat.add_assoc]
        · rintro ⟨position, child, expected, hbefore, hchild, hexpected, hne, rfl⟩
          cases position with
          | zero =>
            obtain rfl := Option.some.inj hchild
            exact absurd (hfirst.trans (Option.some.inj hexpected)) hne
          | succ position =>
            rw [List.take_succ_cons, List.take_succ_cons, List.map_cons] at hbefore
            refine ⟨position, child, expected, (List.cons.inj hbefore).2, hchild, hexpected, hne,
              ?_⟩
            rw [Nat.add_right_comm, Nat.add_assoc]
      · rw [if_neg hfirst]
        constructor
        · intro h
          exact ⟨0, first, category, rfl, rfl, rfl, hfirst, (Option.some.inj h).symm⟩
        · rintro ⟨position, child, expected, hbefore, hchild, hexpected, hne, rfl⟩
          cases position with
          | zero =>
            obtain rfl := Option.some.inj hchild
            obtain rfl := Option.some.inj hexpected
            rfl
          | succ position =>
            rw [List.take_succ_cons, List.take_succ_cons, List.map_cons] at hbefore
            exact absurd (List.cons.inj hbefore).1 hfirst

lemma misplaced?_eq_none_iff {start : Nat} {rhs : List String}
    (hlength : children.length = rhs.length) :
    misplaced? rule start children rhs = none ↔ children.map Derivation.category = rhs := by
  induction children generalizing start rhs with
  | nil => simp [misplaced?, (List.length_eq_zero_iff.mp hlength.symm)]
  | cons first children ih =>
    cases rhs with
    | nil => cases hlength
    | cons category rhs =>
      rw [misplaced?, List.map_cons, List.cons.injEq]
      split
      · next hfirst => rw [ih (Nat.succ.inj hlength), and_iff_right hfirst]
      · next hfirst => simp [hfirst]

lemma shapeFault?_eq_some_iff : shapeFault? rule children = some fault ↔
    Misshapen rule children fault := by
  rw [shapeFault?]
  split
  · next hlength =>
    rw [misplaced?_eq_some_iff]
    constructor
    · rintro ⟨position, child, expected, hbefore, hchild, hexpected, hne, rfl⟩
      rw [Nat.zero_add]
      exact .misplaced hlength hbefore hchild hexpected hne
    · rintro (harity | ⟨-, hbefore, hchild, hexpected, hne⟩)
      · exact absurd hlength harity
      · exact ⟨_, _, _, hbefore, hchild, hexpected, hne, by rw [Nat.zero_add]⟩
  · next hlength =>
    constructor
    · intro h
      obtain rfl := Option.some.inj h
      exact .arity hlength
    · rintro (harity | ⟨hsame, -⟩)
      · rfl
      · exact absurd hsame hlength

lemma shapeFault?_eq_none_iff :
    shapeFault? rule children = none ↔ children.map Derivation.category = rule.rhs := by
  rw [shapeFault?]
  split
  · next hlength => exact misplaced?_eq_none_iff hlength
  · next hlength =>
    refine iff_of_false (by simp) fun hcategories => hlength ?_
    rw [← hcategories, List.length_map]

lemma Misshapen.categories_ne (h : Misshapen rule children fault) :
    children.map Derivation.category ≠ rule.rhs := by
  rw [Ne, ← shapeFault?_eq_none_iff, shapeFault?_eq_some_iff.mpr h]
  simp

/-- What is wrong with children depends on their categories. -/
lemma Misshapen.of_map_category_eq (h : Misshapen rule children fault)
    (hcategories : children.map Derivation.category = children'.map Derivation.category) :
    Misshapen rule children' fault := by
  have hlength : children.length = children'.length := by
    simpa using congrArg List.length hcategories
  cases h with
  | arity h =>
    rw [hlength] at h ⊢
    exact .arity h
  | @misplaced position child expected hsame hbefore hchild hexpected hne =>
    have hcategory : children'[position]?.map Derivation.category = some child.category := by
      rw [← List.getElem?_map, ← hcategories, List.getElem?_map, hchild, Option.map_some]
    obtain ⟨child', hchild', heq⟩ := Option.map_eq_some_iff.mp hcategory
    rw [← heq] at hne ⊢
    refine .misplaced (hlength ▸ hsame) ?_ hchild' hexpected hne
    rw [List.map_take, ← hcategories, ← List.map_take, hbefore]

namespace Language

variable {language : Language}

lemma action_eq_ok_iff {action : Action} :
    language.action rule children = .ok action ↔
      children.map Derivation.category = rule.rhs ∧
        language.rules.lookup? rule = some action := by
  rw [Language.action, ← shapeFault?_eq_none_iff]
  cases shapeFault? rule children with
  | some fault => simp
  | none => cases language.rules.lookup? rule <;> simp

lemma action_eq_error_iff :
    language.action rule children = .error fault ↔
      Misshapen rule children fault ∨ children.map Derivation.category = rule.rhs ∧
        language.rules.lookup? rule = none ∧ fault = .unknownRule rule.text := by
  rw [Language.action, ← shapeFault?_eq_none_iff, ← shapeFault?_eq_some_iff]
  cases shapeFault? rule children with
  | some fault => simp
  | none => cases language.rules.lookup? rule <;> simp [eq_comm]

end Language

end

end PhraseScript
