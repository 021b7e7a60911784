import PhraseScript.Proofs.Commands

/-!
# The outline of a script

The outline of a script is the forest of its opcodes, in which what is below a command are the
commands of its bodies, body by body.  The outline of a tree is made of the nodes whose rules make
a command, in the order of the words, one below the other as they are in the tree; it is read
off the rules, without any meanings.  The main statement is
`Language.outline_of_translate_standard`: the two are equal, so that no command is lost, made
twice or moved.
-/

namespace PhraseScript

/-- An opcode with what is in its bodies. -/
inductive Outline where
  | mk (opcode : String) (bodies : List (List Outline))

/-! ### The outline of a script -/

/-- The opcode of a command, with the outlines of the commands in its bodies. -/
def Block.outline : Block → Outline := fold fun block bodies => .mk block.opcode bodies

/-- Below a command are the commands of its bodies. -/
lemma Block.outline_eq (block : Block) :
    block.outline = .mk block.opcode (block.bodies.map (List.map outline)) :=
  block.fold_eq _

/-! ### The outline of a tree -/

/-- A tree is a single word. -/
def Derivation.isWord : Derivation → Bool
  | .leaf _ _ _ => true
  | .node _ _ _ _ => false

/-- The opcode of the command that a node makes, if it makes one.  What is repeated for a
duration is repeated for ever when the duration is a single word. -/
def Grammar.nodeOpcode? (rule : RuleKey) (children : List Derivation) : Option String :=
  match repetitions.lookup rule with
  | some duration => some <|
    if (children[duration]?).any Derivation.isWord then Opcode.repeatForever
    else Opcode.repeatTimes
  | none => opcode? rule

namespace Derivation

mutual

/-- The outlines of the outermost nodes of a tree that make a command. -/
def outline : Derivation → List Outline
  | .leaf _ _ _ => []
  | .node lhs rhs children _ =>
    match Grammar.nodeOpcode? ⟨lhs, rhs⟩ children with
    | some opcode => [.mk opcode (bodyOutlines children)]
    | none => forestOutline children

/-- The outlines of the outermost nodes of several trees that make a command. -/
def forestOutline : List Derivation → List Outline
  | [] => []
  | tree :: rest => outline tree ++ forestOutline rest

/-- The outlines of several trees, tree by tree, without those that are no bodies and have no
nodes that make a command. -/
def bodyOutlines : List Derivation → List (List Outline)
  | [] => []
  | tree :: rest =>
    if tree.category ∈ Grammar.bodyPhrases || !(outline tree).isEmpty then
      outline tree :: bodyOutlines rest
    else bodyOutlines rest

end

/-- What a tree means has the commands of the outline of the tree.  A duration is a number
exactly when it is not a single word. -/
structure Outlined (tree : Derivation) (meaning : Meaning) : Prop where
  outline : meaning.blocks.map Block.outline = tree.outline
  duration : Sense.ofCategory tree.category = .duration →
    (meaning.kind = .number ↔ tree.isWord = false)

lemma outlined_of_means {category lower word : String} {span : Span} {meaning : Meaning}
    (h : Lexicon.Means category lower meaning) : Outlined (.leaf category word span) meaning where
  outline := by
    rw [h.blocks_eq_nil]
    rfl
  duration hduration := by
    have hsense : Sense.ofCategory category = .duration := hduration
    have hkind : meaning.kind ≠ .number := by
      cases h <;> first
        | exact absurd hsense (by decide)
        | intro hnumber
          cases hnumber
    exact ⟨fun hnumber => absurd hnumber hkind, fun hword => by cases hword⟩

lemma forestOutline_eq {children : List Derivation} {parts : List Meaning}
    (h : List.Forall₂ Outlined children parts) :
    (parts.flatMap Meaning.blocks).map Block.outline = forestOutline children := by
  induction h with
  | nil => rfl
  | cons hpart _ ih =>
    rw [List.flatMap_cons, List.map_append, hpart.outline, ih]
    rfl

/-- Where only bodies have commands, only bodies have an outline. -/
lemma bodyOutlines_eq {children : List Derivation} {parts : List Meaning}
    (h : List.Forall₂ Outlined children parts)
    (hsenses : Sense.CoversAll (children.map category) parts)
    (hbodies : ∀ phrase ∈ children.map category, phrase ∉ Grammar.bodyPhrases →
      (Sense.ofCategory phrase).acts = false) :
    bodyOutlines children =
      ((((children.map category).zip parts).filter (·.1 ∈ Grammar.bodyPhrases)).map
        (·.2.blocks)).map (List.map Block.outline) := by
  induction h with
  | nil => rfl
  | @cons child part children parts hpart _ ih =>
    obtain ⟨hsense, hsenses⟩ := List.forall₂_cons.mp hsenses
    rw [List.map_cons, List.forall_mem_cons] at hbodies
    have hrest := ih hsenses hbodies.2
    rw [bodyOutlines, List.map_cons, List.zip_cons_cons]
    by_cases hbody : child.category ∈ Grammar.bodyPhrases
    · rw [if_pos (by simp [hbody]), List.filter_cons_of_pos (by simp [hbody]), List.map_cons,
        List.map_cons, hpart.outline, hrest]
    -- a child that is no body does not act, so that it is left out on both sides
    · have hnone : child.outline = [] := by
        rw [← hpart.outline, hsense.blocks_eq_nil (hbodies.1 hbody), List.map_nil]
      rw [if_neg (by simp [hbody, hnone]), List.filter_cons_of_neg (by simp [hbody]), hrest]

end Derivation

/-- The duration of a repetition is where `Grammar.repetitions` says. -/
lemma Grammar.duration_of_mem_repetitions : ∀ entry ∈ repetitions,
    (entry.1.rhs[entry.2]?).map Sense.ofCategory = some .duration := by
  decide

/-- The opcode that a node has by its children is the one that its call has by their meanings. -/
lemma Grammar.nodeOpcode?_eq (call : Call) {children : List Derivation}
    (hcategories : children.map Derivation.category = call.rule.rhs)
    (houtlined : List.Forall₂ Derivation.Outlined children call.parts) :
    nodeOpcode? call.rule children = call.opcode? := by
  rw [nodeOpcode?, Call.opcode?]
  cases hrepetition : repetitions.lookup call.rule with
  | none => rfl
  | some duration =>
    have hsense := duration_of_mem_repetitions _ (mem_of_lookup hrepetition)
    rw [← hcategories, List.getElem?_map, Option.map_map, Option.map_eq_some_iff] at hsense
    obtain ⟨child, hchild, hduration⟩ := hsense
    obtain ⟨part, hpart, houtlined⟩ := exists_getElem?_of_forall₂ houtlined hchild
    have hiff := houtlined.duration hduration
    -- both sides look at the duration: the node at its shape, the call at its kind
    simp only [Call.repetitionOpcode, hchild, hpart, Option.any_some]
    cases part with
    | number count => rw [hiff.mp rfl, if_neg (by decide)]
    | _ =>
      have hword : child.isWord = true := by
        refine Bool.of_not_eq_false fun hnode => ?_
        have hnumber := hiff.mpr hnode
        cases hnumber
      rw [if_pos hword]

/-- A rule that gives a duration counts times. -/
def Grammar.Rule.countsDuration (rule : Grammar.Rule) : Bool :=
  match rule.2 with
  | .countTimes => true
  | _ => Sense.ofCategory rule.1.lhs ≠ .duration

theorem Grammar.standard_countsDuration {rule : Rule} (h : rule ∈ standard) :
    rule.countsDuration = true := by
  have hall : standard.all Rule.countsDuration = true := by decide
  exact List.all_eq_true.mp hall rule h

namespace Language

variable {sounds : List String} {numbers : NumberWords}

lemma outlined_cases : EvaluationCases sounds numbers
    (fun tree _ meaning _ => tree.Outlined meaning)
    (fun trees _ parts _ => List.Forall₂ Derivation.Outlined trees parts) where
  leaf h := Derivation.outlined_of_means h
  node {rule children span parts before between meaning after} hrule hcategories hsenses hmeaning
      houtlined hbuild := by
    let call : Call := ⟨rule.1, parts, numbers⟩
    have hopcode : Grammar.nodeOpcode? rule.1 children = call.opcode? :=
      Grammar.nodeOpcode?_eq call hcategories houtlined
    have hcarries := Grammar.Rule.carries_build
      (Grammar.standard_tellsCommands hrule) hsenses hmeaning hbuild
    refine ⟨?_, fun hduration => ?_⟩
    · rw [Derivation.outline, hopcode]
      rw [Call.Carries] at hcarries
      -- either the node makes one command around its children, or it hands their commands on
      cases hcall : call.opcode? with
      | some opcode =>
        simp only [call, hcall] at hcarries
        obtain ⟨block, rfl, rfl, hbodies, -, hothers⟩ := hcarries
        rw [← hcategories] at hsenses hothers
        have hblock : Derivation.bodyOutlines children =
            block.bodies.map (List.map Block.outline) := by
          rw [Derivation.bodyOutlines_eq houtlined hsenses hothers, hbodies, Call.bodies,
            hcategories]
        rw [Meaning.blocks, List.map_singleton, Block.outline_eq, hblock]
      | none =>
        simp only [call, hcall] at hcarries
        rw [hcarries, Derivation.forestOutline_eq houtlined]
    · have hrule := Grammar.standard_countsDuration hrule
      rw [Grammar.Rule.countsDuration] at hrule
      split at hrule
      · next hconstruction =>
        rw [hconstruction] at hbuild
        simp only [Construction.build, gives_bind, gives_pure] at hbuild
        obtain ⟨count, -, -, rfl, -⟩ := hbuild
        exact ⟨fun _ => rfl, fun _ => rfl⟩
      · exact absurd hduration (of_decide_eq_true hrule)
  nil := .nil
  cons hpart hrest := .cons hpart hrest

/-- The outline of a translated script is the outline of its tree. -/
theorem outline_of_translate_standard {tree : Derivation} {session : Session} {outcome : Outcome}
    (h : (standard sounds numbers).translate tree session = .ok outcome) :
    outcome.script.commands.map Block.outline = tree.outline := by
  obtain ⟨meaning, hmeaning, hcommands, -⟩ := translate_eq_ok_iff.mp h
  rw [Script.commandsOf_eq_ok hcommands]
  exact (outlined_cases.evaluate tree _ _ _ hmeaning).outline

theorem outline_of_translate_countingSentence :
    ∃ outcome, (standard [] .numerals).translate countingSentence {} = .ok outcome ∧
      outcome.script.commands.map Block.outline = countingSentence.outline := by
  obtain ⟨outcome, h⟩ := exists_translate_countingSentence
  exact ⟨outcome, h, outline_of_translate_standard h⟩

end Language

end PhraseScript
