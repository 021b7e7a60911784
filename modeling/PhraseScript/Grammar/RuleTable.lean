import PhraseScript.Grammar.Construction

/-!
# Tables of rules

A table has at most one action for each rule; adding a rule a second time replaces what was
there.  Its keys are listed in their order, whatever the order in which they were added.
-/

namespace PhraseScript

/-- Rules with the actions that carry them out, the last added first. -/
structure RuleTable where
  rules : List (RuleKey × Action) := []

namespace RuleTable

instance : EmptyCollection RuleTable := ⟨{}⟩

/-- The action of a rule. -/
def lookup? (table : RuleTable) (key : RuleKey) : Option Action := table.rules.lookup key

/-- Adds a rule, replacing the one with the same key. -/
def insert (table : RuleTable) (key : RuleKey) (action : Action) : RuleTable :=
  ⟨(key, action) :: table.rules.filter fun rule => rule.1 ≠ key⟩

/-- Adds the rule of a text, or reports a text that is none. -/
def add (table : RuleTable) (declaration : String) (action : Action) : Except String RuleTable :=
  match RuleKey.parse? declaration with
  | some key => .ok (table.insert key action)
  | none => .error ("invalid rule declaration \"" ++ declaration ++ "\"")

/-- There is a rule of that text. -/
def contains (table : RuleTable) (declaration : String) : Bool :=
  ((RuleKey.parse? declaration).bind table.lookup?).isSome

/-- The number of rules. -/
def size (table : RuleTable) : Nat := table.rules.length

/-- The keys of the rules, in order. -/
def keys (table : RuleTable) : List RuleKey :=
  (table.rules.map Prod.fst).mergeSort fun a b => decide (a ≤ b)

/-- The table of some rules; of several with one key the last counts. -/
def ofList (rules : List (RuleKey × Action)) : RuleTable :=
  rules.foldl (fun table rule => table.insert rule.1 rule.2) ∅

theorem lookup?_insert (table : RuleTable) (key other : RuleKey) (action : Action) :
    (table.insert key action).lookup? other =
      if other = key then some action else table.lookup? other := by
  rw [lookup?, insert, List.lookup_cons]
  by_cases h : other = key
  · simp [h]
  · rw [if_neg h, beq_false_of_ne h]
    show (table.rules.filter fun rule => rule.1 ≠ key).lookup other = table.rules.lookup other
    induction table.rules with
    | nil => rfl
    | cons rule rest ih =>
      by_cases hr : rule.1 = key
      · rw [List.filter_cons_of_neg (by simp [hr]), ih, List.lookup_cons,
          beq_false_of_ne (hr ▸ h)]
      · rw [List.filter_cons_of_pos (by simp [hr]), List.lookup_cons, List.lookup_cons, ih]

end RuleTable

end PhraseScript
