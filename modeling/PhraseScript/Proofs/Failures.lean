import PhraseScript.Proofs.Paths
import PhraseScript.Proofs.Safety

/-!
# Where evaluations fail

A failure is located at a node, and this is the node that fails by itself
(`Language.FailsItself`): a word without a meaning, a node that is not made like its rule or has
none, or one whose rule cannot be carried out on what its children mean.  The nodes above it are
made like rules of the language, and the trees to the left of it have meanings, one after another
(`Language.Reaches`).

The main statement is `Language.fails_at_first_node`.  Words and rules are arbitrary here, not
only those of the standard language.
-/

namespace PhraseScript

namespace Language

/-! ### Nodes that fail by themselves -/

/-- From the session `before` a node fails by itself and leaves the session `after`.  Without a
rule that it is made like it fails right away, before any of its children. -/
inductive FailsItself (language : Language) :
    Derivation → Session → Fault → Session → Prop where
  | word {category word : String} {span : Span} {before : Session} {fault : Fault}
      (h : language.lexicon.lookup category word = .error fault) :
      FailsItself language (.leaf category word span) before fault before
  | misshapen {lhs : String} {rhs : List String} {children : List Derivation} {span : Span}
      {before : Session} {fault : Fault} (h : Misshapen ⟨lhs, rhs⟩ children fault) :
      FailsItself language (.node lhs rhs children span) before fault before
  | unknownRule {lhs : String} {rhs : List String} {children : List Derivation} {span : Span}
      {before : Session} (hcategories : children.map Derivation.category = rhs)
      (h : language.rules.lookup? ⟨lhs, rhs⟩ = none) :
      FailsItself language (.node lhs rhs children span) before
        (.unknownRule (RuleKey.text ⟨lhs, rhs⟩)) before
  | action {lhs : String} {rhs : List String} {children : List Derivation} {span : Span}
      {before between after : Session} {parts : List Meaning} {action : Action} {fault : Fault}
      (hcategories : children.map Derivation.category = rhs)
      (haction : language.rules.lookup? ⟨lhs, rhs⟩ = some action)
      (hparts : Gives (language.evaluateForest children) before parts between)
      (h : Stops (action ⟨⟨lhs, rhs⟩, parts, language.numbers⟩) between fault after) :
      FailsItself language (.node lhs rhs children span) before fault after

/-- The evaluation of a tree comes to a node that fails by itself. -/
def FailsAt (language : Language) (tree : Derivation) (session : Session) (path : List Nat)
    (node : Derivation) (fault : Fault) (after : Session) : Prop :=
  ∃ before, language.Reaches tree session path node before ∧
    language.FailsItself node before fault after

variable {language : Language} {tree node : Derivation} {trees : List Derivation}
  {session before between after : Session} {path : List Nat} {fault : Fault} {failure : Failure}

/-! ### Failures of several trees -/

lemma stops_forest_cons :
    Stops (language.evaluateForest (tree :: trees)) before failure after ↔
      Stops (language.evaluate tree) before failure after ∨
        ∃ part between, Gives (language.evaluate tree) before part between ∧
          Stops (language.evaluateForest trees) between failure after := by
  simp only [evaluateForest, stops_bind, stops_pure, and_false, exists_false, or_false]

/-- Several trees fail with the first of them that does. -/
lemma stops_forest_iff :
    Stops (language.evaluateForest trees) before failure after ↔
      ∃ position tree parts between, trees[position]? = some tree ∧
        Gives (language.evaluateForest (trees.take position)) before parts between ∧
        Stops (language.evaluate tree) between failure after := by
  induction trees generalizing before with
  | nil => simp [evaluateForest]
  | cons first trees ih =>
    rw [stops_forest_cons]
    constructor
    · rintro (h | ⟨part, between, hpart, h⟩)
      · exact ⟨0, first, [], before, rfl, gives_pure.mpr ⟨rfl, rfl⟩, h⟩
      · obtain ⟨position, tree, parts, start, htree, hparts, hfails⟩ := ih.mp h
        exact ⟨position + 1, tree, part :: parts, start, htree,
          gives_forest_cons.mpr ⟨part, between, parts, hpart, hparts, rfl⟩, hfails⟩
    · rintro ⟨position, tree, parts, start, htree, hparts, hfails⟩
      cases position with
      | zero =>
        obtain rfl := Option.some.inj htree
        obtain ⟨-, rfl⟩ := gives_pure.mp hparts
        exact .inl hfails
      | succ position =>
        rw [List.take_succ_cons] at hparts
        obtain ⟨part, between, others, hpart, hothers, rfl⟩ := gives_forest_cons.mp hparts
        exact .inr ⟨part, between, hpart,
          ih.mpr ⟨position, tree, others, start, htree, hothers, hfails⟩⟩

/-! ### Failures of a tree -/

lemma stops_leaf_iff {category word : String} {span : Span} :
    Stops (language.evaluate (.leaf category word span)) before failure after ↔
      ∃ fault, language.FailsItself (.leaf category word span) before fault after ∧
        failure = ⟨fault, some ⟨category, span⟩, none⟩ := by
  rw [evaluate, stops_located]
  refine exists_congr fun fault => and_congr_left fun _ => ?_
  rw [stops_lift]
  constructor
  · rintro ⟨h, rfl⟩
    exact .word h
  · rintro ⟨h⟩
    exact ⟨h, rfl⟩

/-- A node fails by itself, or one of its children fails. -/
lemma stops_node_iff {lhs : String} {rhs : List String} {children : List Derivation}
    {span : Span} :
    Stops (language.evaluate (.node lhs rhs children span)) before failure after ↔
      (∃ fault, language.FailsItself (.node lhs rhs children span) before fault after ∧
        failure = ⟨fault, some ⟨lhs, span⟩, none⟩) ∨
      language.Applies (.node lhs rhs children span) ∧
        Stops (language.evaluateForest children) before failure after := by
  simp only [evaluate, stops_bind, stops_located, stops_lift, gives_located, gives_lift,
    action_eq_ok_iff, action_eq_error_iff]
  constructor
  · rintro (⟨fault, ⟨hmisshapen | ⟨hcategories, hlookup, rfl⟩, rfl⟩, rfl⟩ |
      ⟨action, _, ⟨⟨hcategories, haction⟩, rfl⟩,
        hfails | ⟨parts, between, hparts, fault, hfault, rfl⟩⟩)
    · exact .inl ⟨fault, .misshapen hmisshapen, rfl⟩
    · exact .inl ⟨_, .unknownRule hcategories hlookup, rfl⟩
    · exact .inr ⟨⟨hcategories, by simp [haction]⟩, hfails⟩
    · exact .inl ⟨fault, .action hcategories haction hparts hfault, rfl⟩
  · rintro (⟨fault, hfails, rfl⟩ | ⟨⟨hcategories, hlookup⟩, hfails⟩)
    · cases hfails with
      | misshapen h => exact .inl ⟨fault, ⟨.inl h, rfl⟩, rfl⟩
      | unknownRule hcategories h => exact .inl ⟨_, ⟨.inr ⟨hcategories, h, rfl⟩, rfl⟩, rfl⟩
      | action hcategories haction hparts h =>
        exact .inr ⟨_, _, ⟨⟨hcategories, haction⟩, rfl⟩, .inr ⟨_, _, hparts, fault, h, rfl⟩⟩
    · obtain ⟨action, haction⟩ := Option.isSome_iff_exists.mp hlookup
      exact .inr ⟨action, before, ⟨⟨hcategories, haction⟩, rfl⟩, .inl hfails⟩

/-! ### The first node that fails -/

/-- A tree fails where the evaluation comes to a node that fails by itself. -/
lemma stops_of_failsAt (h : language.FailsAt tree session path node fault after) :
    Stops (language.evaluate tree) session ⟨fault, some node.place, none⟩ after := by
  induction path generalizing tree session with
  | nil =>
    obtain ⟨before, hreaches, hfails⟩ := h
    obtain ⟨rfl, rfl⟩ := reaches_nil_iff.mp hreaches
    cases node with
    | leaf category word span => exact stops_leaf_iff.mpr ⟨fault, hfails, rfl⟩
    | node lhs rhs children span => exact stops_node_iff.mpr (.inl ⟨fault, hfails, rfl⟩)
  | cons position path ih =>
    obtain ⟨before, hreaches, hfails⟩ := h
    obtain ⟨happlies, child, parts, between, hchild, hparts, hinside⟩ :=
      reaches_cons_iff.mp hreaches
    have hstops := ih ⟨before, hinside, hfails⟩
    cases tree with
    | leaf category word span => exact happlies.elim
    | node lhs rhs children span =>
      exact stops_node_iff.mpr (.inr ⟨happlies,
        stops_forest_iff.mpr ⟨position, child, parts, between, hchild, hparts, hstops⟩⟩)

mutual

/-- A tree that fails has a node that fails by itself, to which its evaluation comes. -/
theorem exists_failsAt : (tree : Derivation) → ∀ session failure after,
    Stops (language.evaluate tree) session failure after →
      ∃ path node fault, language.FailsAt tree session path node fault after ∧
        failure = ⟨fault, some node.place, none⟩
  | .leaf category word span => by
    intro session failure after h
    obtain ⟨fault, hfails, rfl⟩ := stops_leaf_iff.mp h
    exact ⟨[], _, fault, ⟨session, reaches_nil_iff.mpr ⟨rfl, rfl⟩, hfails⟩, rfl⟩
  | .node lhs rhs children span => by
    intro session failure after h
    rcases stops_node_iff.mp h with ⟨fault, hfails, rfl⟩ | ⟨happlies, h⟩
    · exact ⟨[], _, fault, ⟨session, reaches_nil_iff.mpr ⟨rfl, rfl⟩, hfails⟩, rfl⟩
    · obtain ⟨position, child, parts, between, path, node, fault, hchild, hparts,
        ⟨before, hreaches, hfails⟩, rfl⟩ := exists_failsAt_of_forest children _ _ _ h
      exact ⟨position :: path, node, fault, ⟨before, reaches_cons_iff.mpr
        ⟨happlies, child, parts, between, hchild, hparts, hreaches⟩, hfails⟩, rfl⟩

/-- The same for several trees, of which those before the one that fails have meanings. -/
theorem exists_failsAt_of_forest : (trees : List Derivation) → ∀ session failure after,
    Stops (language.evaluateForest trees) session failure after →
      ∃ position child parts between path node fault, trees[position]? = some child ∧
        Gives (language.evaluateForest (trees.take position)) session parts between ∧
        language.FailsAt child between path node fault after ∧
        failure = ⟨fault, some node.place, none⟩
  | [] => fun _ _ _ h => absurd h stops_pure
  | tree :: rest => by
    intro session failure after h
    rcases stops_forest_cons.mp h with h | ⟨part, between, hpart, h⟩
    · obtain ⟨path, node, fault, hfails, rfl⟩ := exists_failsAt tree _ _ _ h
      exact ⟨0, tree, [], session, path, node, fault, rfl, gives_pure.mpr ⟨rfl, rfl⟩, hfails, rfl⟩
    · obtain ⟨position, child, parts, start, path, node, fault, hchild, hparts, hfails, rfl⟩ :=
        exists_failsAt_of_forest rest _ _ _ h
      exact ⟨position + 1, child, part :: parts, start, path, node, fault, hchild,
        gives_forest_cons.mpr ⟨part, between, parts, hpart, hparts, rfl⟩, hfails, rfl⟩

end

/-- A node that fails by itself although it is made like a rule has children with meanings. -/
lemma FailsItself.gives_children {parts : List Meaning} {child : Derivation} {position : Nat}
    (h : language.FailsItself tree before fault after) (happlies : language.Applies tree)
    (hchild : tree.children[position]? = some child)
    (hparts : Gives (language.evaluateForest (tree.children.take position)) before parts between) :
    ∃ part stop, Gives (language.evaluate child) between part stop := by
  cases h with
  | word => exact happlies.elim
  | misshapen hmisshapen => exact absurd happlies.1 hmisshapen.categories_ne
  | unknownRule _ hlookup =>
    have hknown := happlies.2
    rw [hlookup] at hknown
    cases hknown
  | action _ _ hall _ =>
    obtain ⟨others, start, part, stop, hothers, hpart, -⟩ := exists_gives_of_getElem? hall hchild
    obtain ⟨-, rfl⟩ := hothers.unique hparts
    exact ⟨part, stop, hpart⟩

/-- An evaluation does not come to a node that fails behind one that fails. -/
lemma not_lt_of_gives_take {position other : Nat} {child : Derivation}
    {parts others : List Meaning} {stop : Session}
    (hchild : trees[position]? = some child)
    (hparts : Gives (language.evaluateForest (trees.take position)) before parts between)
    (hfails : language.FailsAt child between path node fault after)
    (hothers : Gives (language.evaluateForest (trees.take other)) before others stop) :
    ¬position < other := by
  intro hlt
  have htake : (trees.take other)[position]? = some child := by
    rw [List.getElem?_take_of_lt hlt, hchild]
  obtain ⟨more, start, part, finish, hmore, hpart, -⟩ := exists_gives_of_getElem? hothers htake
  rw [List.take_take, Nat.min_eq_left (Nat.le_of_lt hlt)] at hmore
  obtain ⟨-, rfl⟩ := hmore.unique hparts
  exact not_gives_of_stops (stops_of_failsAt hfails) hpart

/-- No node fails inside one that fails by itself. -/
lemma FailsAt.not_failsAt_cons {position : Nat} {other : List Nat} {otherNode : Derivation}
    {otherFault : Fault} {otherAfter : Session}
    (h : language.FailsAt tree session [] node fault after) :
    ¬language.FailsAt tree session (position :: other) otherNode otherFault otherAfter := by
  rintro ⟨before', hreaches', hinside⟩
  obtain ⟨before, hreaches, hfails⟩ := h
  obtain ⟨rfl, rfl⟩ := reaches_nil_iff.mp hreaches
  obtain ⟨happlies, child, parts, between, hchild, hparts, hreaches'⟩ :=
    reaches_cons_iff.mp hreaches'
  obtain ⟨part, stop, hpart⟩ := hfails.gives_children happlies hchild hparts
  exact not_gives_of_stops (stops_of_failsAt ⟨before', hreaches', hinside⟩) hpart

/-- There is one path to a node that fails by itself. -/
lemma FailsAt.path_unique {other : List Nat} {otherNode : Derivation} {otherFault : Fault}
    {otherAfter : Session} (h : language.FailsAt tree session path node fault after)
    (hother : language.FailsAt tree session other otherNode otherFault otherAfter) :
    path = other := by
  induction path generalizing tree session other with
  | nil =>
    cases other with
    | nil => rfl
    | cons position other => exact (h.not_failsAt_cons hother).elim
  | cons position path ih =>
    cases other with
    | nil => exact (hother.not_failsAt_cons h).elim
    | cons position' other =>
      obtain ⟨before, hreaches, hfails⟩ := h
      obtain ⟨before', hreaches', hfails'⟩ := hother
      obtain ⟨-, child, parts, between, hchild, hparts, hreaches⟩ := reaches_cons_iff.mp hreaches
      obtain ⟨-, child', parts', between', hchild', hparts', hreaches'⟩ :=
        reaches_cons_iff.mp hreaches'
      have hinside : language.FailsAt child between path node fault after :=
        ⟨before, hreaches, hfails⟩
      have hinside' : language.FailsAt child' between' other otherNode otherFault otherAfter :=
        ⟨before', hreaches', hfails'⟩
      obtain rfl : position = position' :=
        Nat.le_antisymm (Nat.not_lt.mp (not_lt_of_gives_take hchild' hparts' hinside' hparts))
          (Nat.not_lt.mp (not_lt_of_gives_take hchild hparts hinside hparts'))
      obtain rfl := Option.some.inj (hchild.symm.trans hchild')
      obtain ⟨-, rfl⟩ := hparts.unique hparts'
      rw [ih hinside hinside']

/-- The failure of a tree is the fault of a node that fails by itself, at the place of it. -/
lemma stops_iff_exists_failsAt :
    Stops (language.evaluate tree) session failure after ↔
      ∃ path node fault, language.FailsAt tree session path node fault after ∧
        failure = ⟨fault, some node.place, none⟩ := by
  constructor
  · exact exists_failsAt tree _ _ _
  · rintro ⟨path, node, fault, hfails, rfl⟩
    exact stops_of_failsAt hfails

/-- A meaning has no commands because of its kind. -/
lemma commandsOf_eq_error_iff {meaning : Meaning} :
    Script.commandsOf meaning = .error fault ↔
      (∀ commands, Script.commandsOf meaning ≠ .ok commands) ∧
        fault = .unresolvedTopLevel meaning.kind.name := by
  cases meaning <;> simp [Script.commandsOf, eq_comm]

lemma translate_eq_error_iff :
    language.translate tree session = .error failure ↔
      (∃ located after, Stops (language.evaluate tree) session located after ∧
        failure = located.inSentence tree.sentence) ∨
      ∃ meaning after, Gives (language.evaluate tree) session meaning after ∧
        (∀ commands, Script.commandsOf meaning ≠ .ok commands) ∧
        failure = ⟨.unresolvedTopLevel meaning.kind.name, none, some tree.sentence⟩ := by
  simp only [← interpret_eq_ok_iff, exists_and_right, ← fails_iff_exists_stops,
    ← interpret_eq_error_iff, translate]
  rcases language.interpret tree session with located | ⟨meaning, after⟩
  · simp [eq_comm]
  · rcases hcommands : Script.commandsOf meaning with fault | commands
    · obtain ⟨hne, rfl⟩ := commandsOf_eq_error_iff.mp hcommands
      simp [Script.assemble, hcommands, bind, Except.bind, Failure.inSentence, eq_comm]
    · simp [Script.assemble, hcommands, bind, Except.bind, pure, Except.pure]

/-- How a sentence fails, whatever the words and the rules of the language are.  The evaluation of
its tree fails at one node: the nodes above it are made like rules, the trees to the left of it
have meanings one after another, and the node fails by itself.  That failure is reported with the
place of the node and with the sentence.  The only failure without a place is that of a whole
sentence whose meaning has no commands. -/
theorem fails_at_first_node (language : Language) (tree : Derivation) (session : Session)
    (failure : Failure) :
    (∀ after, Stops (language.evaluate tree) session failure after ↔
      ∃! path, ∃ node fault, language.FailsAt tree session path node fault after ∧
        failure = ⟨fault, some node.place, none⟩) ∧
    (language.translate tree session = .error failure ↔
      (∃ located after, Stops (language.evaluate tree) session located after ∧
        failure = located.inSentence (" ".intercalate tree.words)) ∨
      ∃ meaning after, Gives (language.evaluate tree) session meaning after ∧
        (∀ commands, Script.commandsOf meaning ≠ .ok commands) ∧
        failure = ⟨.unresolvedTopLevel meaning.kind.name, none,
          some (" ".intercalate tree.words)⟩) := by
  refine ⟨fun after => ?_, translate_eq_error_iff⟩
  rw [stops_iff_exists_failsAt]
  constructor
  · rintro ⟨path, node, fault, hfails, rfl⟩
    refine ⟨path, ⟨node, fault, hfails, rfl⟩, ?_⟩
    rintro other ⟨otherNode, otherFault, hother, -⟩
    exact hother.path_unique hfails
  · rintro ⟨path, h, -⟩
    exact ⟨path, h⟩

end Language

end PhraseScript
