import PhraseScript.Proofs.Conversations
import PhraseScript.Proofs.Stretches

/-!
# What is recorded

A session that records gets an entry for every sequence of a sentence, those inside a sequence
before the sequence (`Derivation.sequences`).  The entry is the form of the commands that the
actions of the sequence add to the script, which are a stretch of it.

Recording is an effect of a rule that may be anywhere in the tree, and a script is a value that is
made of those of all rules.  The main statement is `Language.program_of_translate_standard`, which
brings the two together.
-/

namespace PhraseScript

/-! ### The sequences of a tree -/

/-- The phrase that is recorded. -/
def Grammar.sequencePhrase : RuleKey := ⟨"SequentialCommand", ["SequenceAdverb", "AL"]⟩

namespace Derivation

mutual

/-- The paths to the sequences of a tree, the tree itself last. -/
def sequences : Derivation → List (List Nat)
  | .leaf _ _ _ => []
  | .node lhs _ children _ =>
    forestSequences 0 children ++ if lhs = Grammar.sequencePhrase.lhs then [[]] else []

/-- The paths to the sequences of children, the first of which is at a position. -/
def forestSequences (position : Nat) : List Derivation → List (List Nat)
  | [] => []
  | tree :: rest => (sequences tree).map (position :: ·) ++ forestSequences (position + 1) rest

end

/-- The node at the end of one path is left before that at the end of another: it is below it, or
to the left of it. -/
inductive Earlier : List Nat → List Nat → Prop where
  | inside {position : Nat} {path : List Nat} : Earlier (position :: path) []
  | left {position other : Nat} {path path' : List Nat} (h : position < other) :
      Earlier (position :: path) (other :: path')
  | within {position : Nat} {path path' : List Nat} (h : Earlier path path') :
      Earlier (position :: path) (position :: path')

lemma exists_of_mem_forestSequences {trees : List Derivation} {position : Nat} {path : List Nat}
    (h : path ∈ forestSequences position trees) :
    ∃ offset inner tree, path = (position + offset) :: inner ∧ trees[offset]? = some tree ∧
      inner ∈ tree.sequences := by
  induction trees generalizing position with
  | nil => cases h
  | cons tree rest ih =>
    rw [forestSequences, List.mem_append, List.mem_map] at h
    rcases h with ⟨inner, hinner, rfl⟩ | h
    · exact ⟨0, inner, tree, rfl, rfl, hinner⟩
    · obtain ⟨offset, inner, found, rfl, hfound, hinner⟩ := ih h
      exact ⟨offset + 1, inner, found, by rw [Nat.add_right_comm, Nat.add_assoc], hfound, hinner⟩

lemma mem_forestSequences {trees : List Derivation} (position : Nat) {offset : Nat}
    {tree : Derivation} {inner : List Nat} (htree : trees[offset]? = some tree)
    (h : inner ∈ tree.sequences) :
    (position + offset) :: inner ∈ forestSequences position trees := by
  induction trees generalizing position offset with
  | nil => cases htree
  | cons first rest ih =>
    rw [forestSequences, List.mem_append, List.mem_map]
    cases offset with
    | zero =>
      obtain rfl := Option.some.inj htree
      exact .inl ⟨inner, h, rfl⟩
    | succ offset =>
      have hrest := ih (position + 1) htree
      rw [Nat.add_right_comm, Nat.add_assoc] at hrest
      exact .inr hrest

/-- The paths are those to the nodes of the phrase that is recorded. -/
lemma mem_sequences_iff {tree : Derivation} {path : List Nat} :
    path ∈ tree.sequences ↔ ∃ rhs children span,
      tree.nodeAt? path = some (.node Grammar.sequencePhrase.lhs rhs children span) := by
  induction path generalizing tree with
  | nil =>
    cases tree with
    | leaf category word span => simp [sequences, nodeAt?]
    | node lhs rhs children span =>
      rw [sequences, List.mem_append, nodeAt?]
      constructor
      · rintro (h | h)
        · obtain ⟨offset, inner, found, hpath, -⟩ := exists_of_mem_forestSequences h
          cases hpath
        · split at h
          · next hlhs => exact ⟨rhs, children, span, by rw [hlhs]⟩
          · cases h
      · rintro ⟨rhs', children', span', h⟩
        obtain ⟨hlhs, -⟩ := Derivation.node.inj (Option.some.inj h)
        exact .inr (by simp [hlhs])
  | cons position path ih =>
    cases tree with
    | leaf category word span => simp [sequences, nodeAt?, children]
    | node lhs rhs children span =>
      have hown : position :: path ∉
          (if lhs = Grammar.sequencePhrase.lhs then [[]] else [] : List (List Nat)) := by
        split <;> simp
      rw [sequences, List.mem_append, or_iff_left hown, nodeAt?]
      simp only [Option.bind_eq_some_iff, Derivation.children]
      constructor
      · intro h
        obtain ⟨offset, inner, child, hpath, hchild, hinner⟩ := exists_of_mem_forestSequences h
        obtain ⟨rfl, rfl⟩ := List.cons.inj hpath
        obtain ⟨rhs', children', span', hnode⟩ := ih.mp hinner
        exact ⟨rhs', children', span', child, by rwa [Nat.zero_add], hnode⟩
      · rintro ⟨rhs', children', span', child, hchild, hnode⟩
        have hmem := mem_forestSequences 0 hchild (ih.mpr ⟨rhs', children', span', hnode⟩)
        rwa [Nat.zero_add] at hmem

mutual

/-- The paths are in the order in which the nodes are left. -/
theorem pairwise_sequences : (tree : Derivation) → tree.sequences.Pairwise Earlier
  | .leaf _ _ _ => .nil
  | .node lhs rhs children span => by
    rw [sequences, List.pairwise_append]
    refine ⟨pairwise_forestSequences 0 children, by split <;> simp, ?_⟩
    intro path hpath own hown
    obtain ⟨offset, inner, -, rfl, -⟩ := exists_of_mem_forestSequences hpath
    obtain rfl : own = [] := by
      split at hown
      · exact List.mem_singleton.mp hown
      · cases hown
    exact .inside

/-- The same for the paths into several trees. -/
theorem pairwise_forestSequences (position : Nat) : (trees : List Derivation) →
    (forestSequences position trees).Pairwise Earlier
  | [] => .nil
  | tree :: rest => by
    rw [forestSequences, List.pairwise_append, List.pairwise_map]
    refine ⟨(pairwise_sequences tree).imp .within, pairwise_forestSequences (position + 1) rest, ?_⟩
    intro path hpath other hother
    obtain ⟨inner, -, rfl⟩ := List.mem_map.mp hpath
    obtain ⟨offset, inner', -, rfl, -⟩ := exists_of_mem_forestSequences hother
    exact .left (by omega)

end

end Derivation

/-! ### Rules that record -/

/-- Sequences are recorded, and nothing else. -/
def Grammar.Rule.recordsSequences (rule : Grammar.Rule) : Bool :=
  match rule.2 with
  | .recordSequence => rule.1 = sequencePhrase
  | _ => rule.1.lhs ≠ sequencePhrase.lhs

theorem Grammar.standard_recordsSequences {rule : Rule} (h : rule ∈ standard) :
    rule.recordsSequences = true := by
  have hall : standard.all Rule.recordsSequences = true := by decide
  exact List.all_eq_true.mp hall rule h

/-- Only a sequence that is recorded changes the recording. -/
lemma Construction.Does.program_eq {call : Call} {construction : Construction}
    {before after : Session} {meaning : Meaning} (h : Does call construction before meaning after)
    (hne : construction ≠ .recordSequence) : after.program = before.program := by
  cases h with
  | recordSequence => exact absurd rfl hne
  | _ => rfl

namespace Language

/-- An entry is the form of what the actions of the sequence at the end of a path mean, where the
evaluation of the tree comes to them. -/
def Recorded (language : Language) (tree : Derivation) (session : Session) (path : List Nat)
    (entry : Json) : Prop :=
  ∃ adverb actions span start meaning stop,
    tree.nodeAt? path = some (.node Grammar.sequencePhrase.lhs Grammar.sequencePhrase.rhs
      [adverb, actions] span) ∧
    actions.category = "AL" ∧ language.Reaches tree session (path ++ [1]) actions start ∧
    Gives (language.evaluate actions) start meaning stop ∧
    entry = .array (Meaning.blocksWire meaning.blocks)

variable {sounds : List String} {numbers : NumberWords} {before between after : Session}

/-- An entry for a sequence of a child is one for a sequence of the node. -/
lemma Recorded.outward {language : Language} {tree child : Derivation} {parts : List Meaning}
    {position : Nat} {path : List Nat} {entry : Json}
    (h : language.Recorded child between path entry) (happlies : language.Applies tree)
    (hchild : tree.children[position]? = some child)
    (hparts : Gives (language.evaluateForest (tree.children.take position)) before parts between) :
    language.Recorded tree before (position :: path) entry := by
  obtain ⟨adverb, actions, span, start, meaning, stop, hnode, hcategory, hreaches, hgives, rfl⟩ := h
  refine ⟨adverb, actions, span, start, meaning, stop, ?_, hcategory, ?_, hgives, rfl⟩
  · exact Option.bind_eq_some_iff.mpr ⟨child, hchild, hnode⟩
  · exact reaches_cons_iff.mpr ⟨happlies, child, parts, between, hchild, hparts, hreaches⟩

/-- The phrase that is recorded adds one entry, the form of what its actions mean. -/
lemma exists_entry {children : List Derivation} {span : Span} {parts : List Meaning}
    {meaning : Meaning} (hrule : (Grammar.sequencePhrase, .recordSequence) ∈ Grammar.standard)
    (hcategories : children.map Derivation.category = Grammar.sequencePhrase.rhs)
    (hparts : Gives ((standard sounds numbers).evaluateForest children) before parts between)
    (hbuild : Gives (Construction.build .recordSequence ⟨Grammar.sequencePhrase, parts, numbers⟩)
      between meaning after) :
    ∃ entry, after.program = between.program.map (· ++ [entry]) ∧
      (standard sounds numbers).Recorded (.node Grammar.sequencePhrase.lhs
        Grammar.sequencePhrase.rhs children span) before [] entry := by
  have happlies : (standard sounds numbers).Applies (.node Grammar.sequencePhrase.lhs
      Grammar.sequencePhrase.rhs children span) := applies_of_mem_standard hrule hcategories
  obtain ⟨adverb, rest, rfl, -, hrest⟩ := List.map_eq_cons_iff.mp hcategories
  obtain ⟨actions, rest, rfl, hcategory, hrest⟩ := List.map_eq_cons_iff.mp hrest
  obtain rfl := List.map_eq_nil_iff.mp hrest
  obtain ⟨first, middle, _, hfirst, hothers, rfl⟩ := gives_forest_cons.mp hparts
  obtain ⟨part, stop, _, hpart, hnone, rfl⟩ := gives_forest_cons.mp hothers
  obtain ⟨rfl, rfl⟩ := gives_pure.mp hnone
  have hbody := Construction.scriptBody_of_recordSequence hbuild
  obtain ⟨blocks, hblocks, hwire⟩ := Call.exists_of_scriptBody hbody
  have hsame : blocks = part.blocks :=
    (Script.commandsOf_eq_ok hblocks).trans (Call.blocks_of_scriptBody hbody)
  refine ⟨meaning.wire, ?_, adverb, actions, span, middle, part, stop, rfl, hcategory, ?_, hpart,
    ?_⟩
  · cases Construction.does_of_gives hbuild with
    | nothing hchanges => cases hchanges
    | recordSequence => rfl
  · exact reaches_cons_iff.mpr ⟨happlies, actions, [first], middle, rfl,
      gives_forest_cons.mpr ⟨first, middle, [], hfirst, gives_pure.mpr ⟨rfl, rfl⟩, rfl⟩,
      reaches_nil_iff.mpr ⟨rfl, rfl⟩⟩
  · rw [hwire, hsame]

/-- What a node adds to the recording after its children. -/
lemma exists_own_entries {lhs : String} {rhs : List String} {construction : Construction}
    {children : List Derivation} {parts : List Meaning} {meaning : Meaning} (span : Span)
    (hrule : (⟨lhs, rhs⟩, construction) ∈ Grammar.standard)
    (hcategories : children.map Derivation.category = rhs)
    (hparts : Gives ((standard sounds numbers).evaluateForest children) before parts between)
    (hbuild : Gives (construction.build ⟨⟨lhs, rhs⟩, parts, numbers⟩) between meaning after) :
    ∃ own, after.program = between.program.map (· ++ own) ∧
      List.Forall₂ ((standard sounds numbers).Recorded (.node lhs rhs children span) before)
        (if lhs = Grammar.sequencePhrase.lhs then [[]] else []) own := by
  have hrecords := Grammar.standard_recordsSequences hrule
  rw [Grammar.Rule.recordsSequences] at hrecords
  split at hrecords
  · next hconstruction =>
    obtain rfl : construction = .recordSequence := hconstruction
    obtain ⟨rfl, rfl⟩ := RuleKey.mk.inj (of_decide_eq_true hrecords)
    obtain ⟨entry, hprogram, hentry⟩ := exists_entry hrule hcategories hparts hbuild
    exact ⟨[entry], hprogram, .cons hentry .nil⟩
  · next hne =>
    have hlhs : lhs ≠ Grammar.sequencePhrase.lhs := of_decide_eq_true hrecords
    refine ⟨[], ?_, by simp [hlhs]⟩
    rw [(Construction.does_of_gives hbuild).program_eq hne]
    simp

variable (sounds numbers)

mutual

/-- What a tree adds to the recording, sequence by sequence. -/
theorem exists_entries : (tree : Derivation) → ∀ before meaning after,
    Gives ((standard sounds numbers).evaluate tree) before meaning after →
      ∃ entries, after.program = before.program.map (· ++ entries) ∧
        List.Forall₂ ((standard sounds numbers).Recorded tree before) tree.sequences entries
  | .leaf category word span => by
    intro before meaning after h
    obtain ⟨-, rfl⟩ := gives_leaf_iff.mp h
    exact ⟨[], by simp, .nil⟩
  | .node lhs rhs children span => by
    intro before meaning after h
    obtain ⟨construction, parts, between, hrule, hcategories, hthreads, hbuild⟩ :=
      gives_node_iff.mp h
    have hparts := gives_forest_iff.mpr hthreads
    obtain ⟨entries, hprogram, hentries⟩ :=
      exists_forest_entries children [] before [] before (gives_pure.mpr ⟨rfl, rfl⟩) parts between
        hparts
    obtain ⟨own, hprogram', hown⟩ :=
      exists_own_entries span hrule hcategories hparts hbuild
    refine ⟨entries ++ own, ?_, ?_⟩
    · rw [hprogram', hprogram, Option.map_map]
      congr 1
      funext sequences
      exact List.append_assoc sequences entries own
    · rw [Derivation.sequences]
      refine List.rel_append ?_ hown
      refine hentries.imp ?_
      rintro path entry ⟨position, inner, child, others, start, rfl, hchild, hothers, hrecorded⟩
      exact hrecorded.outward (applies_of_mem_standard hrule hcategories) hchild hothers

/-- What trees add to the recording behind others that have been evaluated, sequence by
sequence. -/
theorem exists_forest_entries : (trees : List Derivation) → ∀ others session parts before,
    Gives ((standard sounds numbers).evaluateForest others) session parts before →
    ∀ parts after, Gives ((standard sounds numbers).evaluateForest trees) before parts after →
      ∃ entries, after.program = before.program.map (· ++ entries) ∧
        List.Forall₂ (fun path entry => ∃ position inner child parts start,
            path = position :: inner ∧ (others ++ trees)[position]? = some child ∧
            Gives ((standard sounds numbers).evaluateForest ((others ++ trees).take position))
              session parts start ∧
            (standard sounds numbers).Recorded child start inner entry)
          (Derivation.forestSequences others.length trees) entries
  | [] => by
    intro others session first before hothers parts after h
    obtain ⟨-, rfl⟩ := gives_pure.mp h
    exact ⟨[], by simp, .nil⟩
  | tree :: rest => by
    intro others session first before hothers parts after h
    obtain ⟨part, between, more, hpart, hmore, rfl⟩ := gives_forest_cons.mp h
    obtain ⟨entries, hprogram, hentries⟩ := exists_entries tree _ _ _ hpart
    have hnext : Gives ((standard sounds numbers).evaluateForest (others ++ [tree])) session
        (first ++ [part]) between :=
      gives_forest_append.mpr ⟨first, before, [part], hothers,
        gives_forest_cons.mpr ⟨part, between, [], hpart, gives_pure.mpr ⟨rfl, rfl⟩, rfl⟩, rfl⟩
    obtain ⟨entries', hprogram', hentries'⟩ :=
      exists_forest_entries rest (others ++ [tree]) session _ between hnext more after hmore
    refine ⟨entries ++ entries', ?_, ?_⟩
    · rw [hprogram', hprogram, Option.map_map]
      congr 1
      funext sequences
      exact List.append_assoc sequences entries entries'
    · rw [Derivation.forestSequences]
      refine List.rel_append ?_ ?_
      · rw [List.forall₂_map_left_iff]
        refine hentries.imp fun path entry hrecorded => ?_
        exact ⟨others.length, path, tree, first, before, rfl, by simp, by simpa using hothers,
          hrecorded⟩
      · simpa using hentries'

end

/-! ### Recorded sentences -/

/-- What the sequence at the end of a path adds to the commands of a script and to the recording.
Its actions add a stretch of the commands, which is found by the tree, or all of them when they are
a handler; the entry of the recording is the form of the same commands. -/
structure Adds (language : Language) (tree : Derivation) (session : Session)
    (commands : List Block) (path : List Nat) (actions : Derivation) (meaning : Meaning)
    (entry : Json) : Prop where
  node : ∃ adverb span, tree.nodeAt? path =
    some (.node "SequentialCommand" ["SequenceAdverb", "AL"] [adverb, actions] span)
  evaluated : ∃ start stop, language.Reaches tree session (path ++ [1]) actions start ∧
    language.interpret actions start = .ok (meaning, stop)
  stretch : (tree.stretch (path ++ [1])).of? commands = some meaning.blocks
  handler : ∀ blocks, meaning = .handler blocks → commands = blocks
  entry : (Meaning.commands meaning.blocks).toWire = .ok entry

variable {sounds : List String} {numbers : NumberWords} {tree : Derivation} {session : Session}

/-- The commands of a script or a handler have a form in scripts. -/
lemma toWire_blocks_eq_ok {part : Meaning} (h : Sense.Admits (fun _ => True) .script part) :
    (Meaning.commands part.blocks).toWire = .ok (.array (Meaning.blocksWire part.blocks)) := by
  have hdeferred := Construction.firstDeferred?_eq_none_of_script h
  cases part with
  | commands blocks | handler blocks => exact Meaning.toWire_eq_ok hdeferred
  | _ => exact h.elim

/-- An entry of the recording is the form of a stretch of the commands of the tree. -/
lemma Recorded.exists_adds {path : List Nat} {entry : Json}
    (h : (standard sounds numbers).Recorded tree before path entry) {meaning : Meaning}
    (hgives : Gives ((standard sounds numbers).evaluate tree) before meaning after) :
    ∃ actions part,
      (standard sounds numbers).Adds tree before meaning.blocks path actions part entry := by
  obtain ⟨adverb, actions, span, start, part, stop, hnode, hcategory, hreaches, hpart, rfl⟩ := h
  have hacts : (Sense.ofCategory actions.category).acts = true := by
    rw [hcategory]
    decide
  obtain ⟨-, start', part', stop', hreaches', hpart', hplaced⟩ :=
    exists_placed hgives hreaches.node hacts
  -- the evaluation comes to the actions once
  obtain rfl := hreaches.session_unique hreaches'
  obtain ⟨rfl, -⟩ := hpart.unique hpart'
  refine ⟨actions, part, ⟨adverb, span, hnode⟩,
    ⟨start, stop, hreaches, interpret_eq_ok_iff.mpr hpart⟩, hplaced.stretch, ?_,
    toWire_blocks_eq_ok ?_⟩
  · rintro blocks hblocks
    rw [hplaced.handler blocks hblocks]
    rfl
  · have hadmits : (Sense.ofCategory actions.category).Admits (fun _ => True) part :=
      (ensures_evaluate (fun _ _ _ => trivial) (fun _ _ => trivial) actions).result hpart
    rwa [hcategory] at hadmits

/-- What a sentence adds to a recording, if there is one: an entry for each of its sequences, those
inside a sequence before the sequence and otherwise in the order of the words.  The entry is the
form of the commands that the actions of the sequence add to the script. -/
theorem program_of_translate_standard {outcome : Outcome}
    (h : (standard sounds numbers).translate tree session = .ok outcome) :
    (∀ path, path ∈ tree.sequences ↔ ∃ rhs children span,
      tree.nodeAt? path = some (.node "SequentialCommand" rhs children span)) ∧
    tree.sequences.Pairwise Derivation.Earlier ∧
    ∃ entries, outcome.session.program = session.program.map (· ++ entries) ∧
      List.Forall₂ (fun path entry => ∃ actions meaning, (standard sounds numbers).Adds tree
        session outcome.script.commands path actions meaning entry) tree.sequences entries := by
  obtain ⟨meaning, hmeaning, hcommands, -⟩ := translate_eq_ok_iff.mp h
  obtain ⟨entries, hprogram, hentries⟩ := exists_entries sounds numbers tree _ _ _ hmeaning
  refine ⟨fun path => Derivation.mem_sequences_iff, Derivation.pairwise_sequences tree, entries,
    hprogram, hentries.imp fun path entry hrecorded => ?_⟩
  rw [Script.commandsOf_eq_ok hcommands]
  exact hrecorded.exists_adds hmeaning

open PhraseScript.Derivation in
/-- "Stop, then repeat: then stop, forever", with a sequence inside another. -/
def nestedSequences : Derivation :=
  let stop := apply "AL" [apply "AP" [apply "SoundCommand" [word "Stop" "stop"]]]
  let following (actions : Derivation) : Derivation :=
    apply "AL" [apply "AP" [apply "SequentialCommand" [word "SequenceAdverb" "then", actions]]]
  let repetition := apply "AL" [apply "AP" [apply "ControlCommand" [word "Repeat" "repeat",
    following stop, word "Forever" "forever"]]]
  apply "S" [apply "AL" [apply "AP" [apply "SoundCommand" [word "Stop" "stop"]],
    following repetition]]

set_option maxRecDepth 1000 in
/-- The inner sequence is recorded first, and after what had been recorded before. -/
theorem program_of_translate_nestedSequences :
    let session : Session := { program := some [.string "before"] }
    let stop := Json.array [.string "stopAllSounds"]
    let forever := Json.array [.string "doForever", .array [stop]]
    nestedSequences.sequences = [[0, 1, 0, 0, 1, 0, 0, 1, 0, 0], [0, 1, 0, 0]] ∧
    nestedSequences.stretch [0, 1, 0, 0, 1, 0, 0, 1, 0, 0, 1] = ⟨[(1, 0)], 0, 1⟩ ∧
    nestedSequences.stretch [0, 1, 0, 0, 1] = ⟨[], 1, 1⟩ ∧
    ∃ outcome,
      (standard [] .numerals).translate nestedSequences session = .ok outcome ∧
      Meaning.blocksWire outcome.script.commands = [stop, forever] ∧
      outcome.session.program = some [.string "before", .array [stop], .array [forever]] ∧
      List.Forall₂ (fun path entry => ∃ actions meaning, (standard [] .numerals).Adds
        nestedSequences session outcome.script.commands path actions meaning entry)
          nestedSequences.sequences [.array [stop], .array [forever]] := by
  intro session stop forever
  have houtcome : (standard [] .numerals).translate nestedSequences session =
      .ok ⟨⟨[.mk Opcode.stopAllSounds [], .mk Opcode.repeatForever
          [.commands [.mk Opcode.stopAllSounds []]]], ∅, ∅⟩,
        { program := some [.string "before", .array [stop], .array [forever]] }⟩ := by
    rw [translate, interpret, evaluate_standard]
    rfl
  refine ⟨by decide +kernel, by decide +kernel, by decide +kernel, _, houtcome, rfl, rfl, ?_⟩
  obtain ⟨-, -, entries, hprogram, hentries⟩ := program_of_translate_standard houtcome
  obtain rfl : [.array [stop], .array [forever]] = entries :=
    (List.cons.inj (Option.some.inj hprogram)).2
  exact hentries

end Language

end PhraseScript
