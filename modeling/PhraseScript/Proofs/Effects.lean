import Mathlib.Data.List.Induction
import PhraseScript.Proofs.Commands

/-!
# What a sentence does to the environment

Some rules declare names, delete them or store values under them.  Which names these are can be
read off the tree (`Derivation.effects`), which values are stored cannot.  The main statement is
`Language.environment_of_translate_standard`: the environment after a sentence is the replay of
the effects of its tree, and the values that are stored are those of the commands of the script
that set variables, one for one and in the same order.
-/

namespace PhraseScript

/-- What can happen to a name. -/
inductive Change (α : Type) where
  | declareVariable
  | declareList
  | deleteVariable
  | store (value : α)
deriving DecidableEq

/-- What there is under the name of a variable once something has happened to it. -/
def Change.entry? : Change Json → Option Json
  | .declareVariable => some (.int 0)
  | .store value => some value
  | .declareList | .deleteVariable => none

/-- A change of what a name stands for. -/
structure Effect (α : Type) where
  name : String
  change : Change α
deriving DecidableEq

namespace Effect

variable {α : Type}

/-- An effect without the value. -/
def erase (effect : Effect α) : Effect Unit :=
  ⟨effect.name, match effect.change with
    | .declareVariable => .declareVariable
    | .declareList => .declareList
    | .deleteVariable => .deleteVariable
    | .store _ => .store ()⟩

/-- The value that is stored, with its name. -/
def stored? (effect : Effect α) : Option (String × α) :=
  match effect.change with
  | .store value => some (effect.name, value)
  | _ => none

/-- The effect changes what there is under the name of a variable. -/
def concerns (name : String) (effect : Effect α) : Bool :=
  match effect.change with
  | .declareList => false
  | _ => effect.name = name

/-- Carries an effect out. -/
def carryOut (environment : Environment) (effect : Effect Json) : Environment :=
  match effect.change with
  | .declareVariable =>
    { environment with vars := environment.vars.insert effect.name (.int 0) }
  | .declareList => { environment with lists := environment.lists.insert effect.name [] }
  | .deleteVariable => { environment with vars := environment.vars.erase effect.name }
  | .store value => { environment with vars := environment.vars.insert effect.name value }

/-- Carries effects out, one after another. -/
def replay (effects : List (Effect Json)) (environment : Environment) : Environment :=
  effects.foldl carryOut environment

lemma replay_append (effects others : List (Effect Json)) (environment : Environment) :
    replay (effects ++ others) environment = replay others (replay effects environment) :=
  List.foldl_append

lemma concerns_erase (name : String) (effect : Effect α) :
    effect.erase.concerns name = effect.concerns name := by
  obtain ⟨other, change⟩ := effect
  cases change <;> rfl

/-- An effect that does not concern a name leaves what there is under it. -/
lemma get?_carryOut_of_not_concerns {name : String} {effect : Effect Json}
    (h : effect.concerns name = false) (environment : Environment) :
    (effect.carryOut environment).vars.get? name = environment.vars.get? name := by
  obtain ⟨other, change⟩ := effect
  cases change with
  | declareList => rfl
  | declareVariable =>
    have hne : name ≠ other := fun heq => of_decide_eq_false h heq.symm
    rw [carryOut, Dictionary.get?_insert, if_neg hne]
  | deleteVariable =>
    have hne : name ≠ other := fun heq => of_decide_eq_false h heq.symm
    rw [carryOut, Dictionary.get?_erase, if_neg hne]
  | store value =>
    have hne : name ≠ other := fun heq => of_decide_eq_false h heq.symm
    rw [carryOut, Dictionary.get?_insert, if_neg hne]

/-- An effect that does not concern a name stores nothing under it. -/
lemma filter_stored?_of_not_concerns {name : String} {effect : Effect Json}
    (h : effect.concerns name = false) :
    effect.stored?.toList.filter (fun stored => stored.1 = name) = [] := by
  obtain ⟨other, change⟩ := effect
  cases change with
  | store value =>
    have hne : ¬other = name := of_decide_eq_false h
    simp [stored?, hne]
  | _ => rfl

/-- The last thing that happens to the variable of a name. -/
def lastChange? (name : String) (effects : List (Effect α)) : Option (Change α) :=
  (effects.filter (concerns name)).getLast?.map change

/-- An effect that concerns a name leaves there what comes of its change. -/
lemma get?_carryOut_of_concerns {name : String} {effect : Effect Json}
    (h : effect.concerns name = true) (environment : Environment) :
    (effect.carryOut environment).vars.get? name = effect.change.entry? := by
  obtain ⟨other, change⟩ := effect
  cases change with
  | declareList => cases h
  | declareVariable =>
    rw [carryOut, Dictionary.get?_insert, if_pos (of_decide_eq_true h).symm]
    rfl
  | deleteVariable =>
    rw [carryOut, Dictionary.get?_erase, if_pos (of_decide_eq_true h).symm]
    rfl
  | store value =>
    rw [carryOut, Dictionary.get?_insert, if_pos (of_decide_eq_true h).symm]
    rfl

/-- What there is under the name of a variable after some effects. -/
lemma get?_replay_eq (effects : List (Effect Json)) (name : String) (environment : Environment) :
    (replay effects environment).vars.get? name =
      ((lastChange? name effects).map Change.entry?).getD (environment.vars.get? name) := by
  -- from the right: the last effect is the one that counts, unless it is about another name
  induction effects using List.reverseRecOn with
  | nil => rfl
  | append_singleton effects effect ih =>
    rw [replay_append, lastChange?, List.filter_append]
    show (effect.carryOut (replay effects environment)).vars.get? name = _
    cases hconcerns : effect.concerns name with
    | true =>
      rw [get?_carryOut_of_concerns hconcerns, List.filter_cons_of_pos hconcerns, List.filter_nil,
        List.getLast?_concat]
      rfl
    | false =>
      rw [get?_carryOut_of_not_concerns hconcerns, ih,
        List.filter_cons_of_neg (by simp [hconcerns]), List.filter_nil, List.append_nil]
      rfl

/-- What there is under the name of a list after some effects. -/
lemma getList?_replay_eq (effects : List (Effect Json)) (name : String)
    (environment : Environment) :
    (replay effects environment).lists.get? name =
      if ⟨name, .declareList⟩ ∈ effects.map erase then some []
      else environment.lists.get? name := by
  induction effects using List.reverseRecOn with
  | nil => rfl
  | append_singleton effects effect ih =>
    rw [replay_append]
    show (effect.carryOut (replay effects environment)).lists.get? name = _
    obtain ⟨other, change⟩ := effect
    cases change with
    | declareList =>
      rw [carryOut, Dictionary.get?_insert, ih]
      by_cases h : name = other <;> simp [erase, h]
    | _ => simpa [carryOut, erase] using ih

/-- After several effects there is under a name what the last effect that concerns it has
stored. -/
lemma get?_replay {name : String} {effects : List (Effect Json)} {value : Json}
    (h : (effects.filter (concerns name)).getLast? = some ⟨name, .store value⟩)
    (environment : Environment) :
    (replay effects environment).vars.get? name = some value := by
  rw [get?_replay_eq, lastChange?, h]
  rfl

/-- What the last effect that concerns a name stores is stored last under the name. -/
lemma getLast?_stored {name : String} {effects : List (Effect Json)} {value : Json}
    (h : (effects.filter (concerns name)).getLast? = some ⟨name, .store value⟩) :
    ((effects.filterMap stored?).filter (fun stored => stored.1 = name)).getLast? =
      some (name, value) := by
  induction effects using List.reverseRecOn with
  | nil => cases h
  | append_singleton effects effect ih =>
    rw [List.filter_append] at h
    rw [List.filterMap_append, List.filter_append]
    cases hconcerns : effect.concerns name with
    | true =>
      rw [List.filter_cons_of_pos hconcerns, List.filter_nil, List.getLast?_concat] at h
      obtain rfl := Option.some.inj h
      simp [stored?]
    | false =>
      rw [List.filter_cons_of_neg (by simp [hconcerns]), List.filter_nil, List.append_nil] at h
      have hnil := filter_stored?_of_not_concerns hconcerns
      rw [List.filterMap_cons, List.filterMap_nil]
      cases hstored : effect.stored? with
      | none => simpa using ih h
      | some stored =>
        rw [hstored] at hnil
        rw [show [stored].filter (fun stored => stored.1 = name) = [] from hnil, List.append_nil,
          ih h]

/-- An effect that stores something is known as such without the value. -/
lemma exists_of_getLast?_erase {name : String} {effects : List (Effect α)}
    (h : ((effects.map erase).filter (concerns name)).getLast? = some ⟨name, .store ()⟩) :
    ∃ value, (effects.filter (concerns name)).getLast? = some ⟨name, .store value⟩ := by
  have hconcerns : concerns name ∘ erase = (concerns name : Effect α → Bool) :=
    funext (concerns_erase name)
  rw [List.filter_map, hconcerns, List.getLast?_map, Option.map_eq_some_iff] at h
  obtain ⟨⟨other, change⟩, hlast, heq⟩ := h
  cases change with
  | store value =>
    obtain rfl := congrArg Effect.name heq
    exact ⟨value, hlast⟩
  | _ =>
    have hchange := congrArg Effect.change heq
    cases hchange

end Effect

/-! ### The effects of a tree -/

namespace Grammar

/-- How the phrases begin that have an effect, with the position of the names and what happens to
them. -/
def effectPhrases : List (String × List String × Nat × Change Unit) :=
  [("CreateCommand", ["Make", "VARIABLE_LIST"], 1, .declareVariable),
    ("CreateCommand", ["Make", "List", "LIST_NAME"], 2, .declareList),
    ("DataCommand", ["Delete", "VARIABLE_NAME"], 1, .deleteVariable),
    ("DataCommand", ["Set", "VARIABLE_NAME"], 1, .store ()),
    ("DataCommand", ["Multiply", "VARIABLE_NAME"], 1, .store ()),
    ("DataCommand", ["Divide", "VARIABLE_NAME"], 1, .store ())]

/-- The effect of a rule, if it has one: the position of the names and what happens to them. -/
def effect? : RuleKey → Option (Nat × Change Unit) := lookupPhrase? effectPhrases

end Grammar

namespace Derivation

mutual

/-- The names of variables and lists in a tree, in lower case. -/
def names : Derivation → List String
  | .leaf category word _ =>
    if category = "VARIABLE_NAME" ∨ category = "LIST_NAME" then [Text.toLower word] else []
  | .node _ _ children _ => forestNames children

/-- The names of variables and lists in several trees. -/
def forestNames : List Derivation → List String
  | [] => []
  | tree :: rest => names tree ++ forestNames rest

end

/-- The effects of a node by itself. -/
def ownEffects (rule : RuleKey) (children : List Derivation) : List (Effect Unit) :=
  match Grammar.effect? rule with
  | some (position, change) => ((children[position]?).elim [] names).map (⟨·, change⟩)
  | none => []

mutual

/-- The effects of the nodes of a tree, from left to right. -/
def effects : Derivation → List (Effect Unit)
  | .leaf _ _ _ => []
  | .node lhs rhs children _ => forestEffects children ++ ownEffects ⟨lhs, rhs⟩ children

/-- The effects of several trees, from left to right. -/
def forestEffects : List Derivation → List (Effect Unit)
  | [] => []
  | tree :: rest => effects tree ++ forestEffects rest

end

end Derivation

/-! ### The assignments of a script -/

/-- A command and the commands in its bodies, in order. -/
def Block.traversal : Block → List Block :=
  fold fun block bodies => block :: bodies.flatten.flatten

lemma Block.traversal_eq (block : Block) :
    block.traversal = block :: block.bodies.flatten.flatMap traversal := by
  rw [traversal, fold_eq, ← List.map_flatten]
  rfl

/-- The variable that a command sets, with what it is set to. -/
def Block.assignment? : Block → Option (String × Meaning)
  | .mk opcode [.text name, value] =>
    if opcode = Opcode.setVariable then some (name, value) else none
  | _ => none

/-- The variables that commands set, those in their bodies included, with what they are set to. -/
def assignmentsIn (blocks : List Block) : List (String × Meaning) :=
  (blocks.flatMap Block.traversal).filterMap Block.assignment?

/-- The values of assignments as they are stored. -/
def storedValues (assignments : List (String × Meaning)) : List (String × Json) :=
  assignments.map fun assignment => (assignment.1, assignment.2.wire)

lemma assignmentsIn_append (blocks others : List Block) :
    assignmentsIn (blocks ++ others) = assignmentsIn blocks ++ assignmentsIn others := by
  rw [assignmentsIn, List.flatMap_append, List.filterMap_append]
  rfl

lemma assignmentsIn_singleton (block : Block) :
    assignmentsIn [block] = block.assignment?.toList ++ assignmentsIn block.bodies.flatten := by
  rw [assignmentsIn, List.flatMap_singleton, block.traversal_eq, List.filterMap_cons]
  cases block.assignment? <;> rfl

lemma Block.assignment?_eq_none {block : Block} (h : block.opcode ≠ Opcode.setVariable) :
    block.assignment? = none := by
  rw [assignment?.eq_def]
  split
  · exact if_neg h
  · rfl

/-! ### Traces -/

/-- Between two environments lie certain effects, and the values that they store are those of the
assignments of certain commands. -/
def Traces (expected : List (Effect Unit)) (blocks : List Block) (before after : Environment) :
    Prop :=
  ∃ effects : List (Effect Json), effects.map Effect.erase = expected ∧
    after = Effect.replay effects before ∧
      effects.filterMap Effect.stored? = storedValues (assignmentsIn blocks)

section Traces

variable {expected expected' : List (Effect Unit)} {blocks blocks' : List Block}
  {before between after : Environment}

lemma Traces.refl (environment : Environment) : Traces [] [] environment environment :=
  ⟨[], rfl, rfl, rfl⟩

lemma Traces.trans (h : Traces expected blocks before between)
    (h' : Traces expected' blocks' between after) :
    Traces (expected ++ expected') (blocks ++ blocks') before after := by
  obtain ⟨effects, rfl, rfl, hstored⟩ := h
  obtain ⟨effects', rfl, rfl, hstored'⟩ := h'
  refine ⟨effects ++ effects', List.map_append, (Effect.replay_append _ _ _).symm, ?_⟩
  rw [List.filterMap_append, hstored, hstored', assignmentsIn_append]
  exact List.map_append.symm

lemma Traces.congr (h : Traces expected blocks before after)
    (hblocks : assignmentsIn blocks' = assignmentsIn blocks) :
    Traces expected blocks' before after := by
  obtain ⟨effects, herase, hreplay, hstored⟩ := h
  exact ⟨effects, herase, hreplay, hblocks ▸ hstored⟩

end Traces

/-! ### The names of meanings -/

/-- The names that a meaning is about. -/
def Meaning.names : Meaning → List String
  | .variableName name => [name]
  | .listName name => [name]
  | .declaration declared => declared.names
  | _ => []

namespace Call

variable {call : Call} {position : Nat} {name : String}

lemma collect_names_of_part {meaning : Meaning} (h : call.part position = .ok meaning) :
    call.collect Meaning.names position = meaning.names := by
  rw [collect, part_eq_ok_iff.mp h]
  rfl

lemma names_of_variableName (h : call.variableName position = .ok name) :
    call.collect Meaning.names position = [name] := by
  obtain ⟨found, hfound, hname⟩ := bind_eq_ok_iff.mp h
  split at hname
  · rw [collect_names_of_part hfound, ← Except.ok.inj hname]
    rfl
  · cases hname

lemma names_of_listName (h : call.listName position = .ok name) :
    call.collect Meaning.names position = [name] := by
  obtain ⟨found, hfound, hname⟩ := bind_eq_ok_iff.mp h
  split at hname
  · rw [collect_names_of_part hfound, ← Except.ok.inj hname]
    rfl
  · cases hname

lemma names_of_declaration {declaration : Declaration}
    (h : call.declaration position = .ok declaration) :
    call.collect Meaning.names position = declaration.names := by
  obtain ⟨found, hfound, hdeclaration⟩ := bind_eq_ok_iff.mp h
  split at hdeclaration
  · rw [collect_names_of_part hfound, ← Except.ok.inj hdeclaration]
    rfl
  · cases hdeclaration

lemma names_of_variableDeclaration {names : List String}
    (h : call.variableDeclaration position = .ok names) :
    call.collect Meaning.names position = names := by
  obtain ⟨declaration, hdeclaration, hnames⟩ := bind_eq_ok_iff.mp h
  split at hnames
  · rw [names_of_declaration hdeclaration, ← Except.ok.inj hnames]
  · cases hnames

lemma names_of_declaredVariable {environment : Environment}
    (h : call.declaredVariable environment position = .ok name) :
    call.collect Meaning.names position = [name] := by
  obtain ⟨found, hfound, hrest⟩ := bind_eq_ok_iff.mp h
  obtain ⟨-, -, hname⟩ := bind_eq_ok_iff.mp hrest
  rw [names_of_variableName hfound, Except.ok.inj hname]

end Call

/-! ### What constructions do to the environment -/

namespace Construction

/-- The effect of a construction, if it has one: the position of the names and what happens to
them. -/
def effect? : Construction → Option (Nat × Change Unit)
  | .createVariables => some (1, .declareVariable)
  | .createList => some (2, .declareList)
  | .deleteVariable => some (1, .deleteVariable)
  | .setVariable | .scaleVariable _ _ => some (1, .store ())
  | _ => none

lemma effect?_eq_none {construction : Construction} (h : construction.changesSession = false) :
    construction.effect? = none := by
  cases construction <;> first | rfl | cases h

section

variable {construction : Construction} {call : Call} {before after : Session} {meaning : Meaning}

/-- A construction without an effect leaves the environment as it is. -/
theorem keeps_build (h : construction.effect? = none)
    (hbuild : Gives (construction.build call) before meaning after) :
    after.environment = before.environment := by
  cases does_of_gives hbuild <;> first | rfl | cases h

/-- A declaration of several variables is the replay of the declarations of each. -/
lemma foldl_declareVariable (names : List String) (environment : Environment) :
    names.foldl .declareVariable environment =
      Effect.replay (names.map (⟨·, .declareVariable⟩)) environment := by
  rw [Effect.replay, List.foldl_map]
  rfl

/-- The value that is stored is the one that the command sets. -/
lemma traces_store (name : String) {value : Meaning} (hvalue : value.isOperand = true) :
    Traces [⟨name, .store ()⟩] [.mk Opcode.setVariable [.text name, value]] before.environment
      (before.store name value.wire).environment := by
  refine ⟨[⟨name, .store value.wire⟩], rfl, rfl, ?_⟩
  have hbodies : (Block.mk Opcode.setVariable [.text name, value]).bodies = [] := by
    refine Block.bodies_of_isOperand ?_
    simp only [List.forall_mem_cons]
    exact ⟨rfl, hvalue, List.forall_mem_nil _⟩
  rw [assignmentsIn_singleton, hbodies]
  rfl

/-- A construction with an effect has it on the names that it finds, and stores what its command
sets. -/
theorem traces_build {position : Nat} {change : Change Unit}
    (heffect : construction.effect? = some (position, change))
    (h : Gives (construction.build call) before meaning after) :
    Traces ((call.collect Meaning.names position).map (⟨·, change⟩)) meaning.blocks
      before.environment after.environment := by
  cases does_of_gives h with
  | nothing hchanges =>
    rw [effect?_eq_none hchanges] at heffect
    cases heffect
  | recordSequence hactions => cases heffect
  | @createVariables _ names hnames =>
    cases heffect
    rw [Call.names_of_variableDeclaration hnames]
    refine ⟨names.map (⟨·, .declareVariable⟩), ?_, foldl_declareVariable names _, ?_⟩
    · rw [List.map_map]
      rfl
    · rw [List.filterMap_map]
      exact List.filterMap_eq_nil_iff.mpr fun _ _ => rfl
  | @createList _ name hname =>
    cases heffect
    rw [Call.names_of_listName hname]
    exact ⟨[⟨name, .declareList⟩], rfl, rfl, rfl⟩
  | @deleteVariable _ name hname =>
    cases heffect
    rw [Call.names_of_variableName hname]
    exact ⟨[⟨name, .deleteVariable⟩], rfl, rfl, rfl⟩
  | @setVariable _ name value hname hvalue =>
    cases heffect
    rw [Call.names_of_variableName hname]
    exact traces_store name (Call.isOperand_of_declaredOperand hvalue)
  | @scaleVariable _ _ _ name operand hname =>
    cases heffect
    rw [Call.names_of_declaredVariable hname]
    exact traces_store name rfl

end

end Construction

/-! ### Names in trees and in meanings -/

namespace Sense

/-- The senses whose meanings are about names. -/
def isName : Sense → Bool
  | .variableName | .listName | .declaration => true
  | _ => false

/-- The senses of phrases whose names are those of their meanings. -/
def tellsNames (sense : Sense) : Bool := sense.isName || sense = .nothing

lemma Covers.names_eq_nil {sense : Sense} {meaning : Meaning} (h : sense.Covers meaning)
    (hsense : sense.isName = false) : meaning.names = [] := by
  cases meaning <;> first
    | rfl
    | cases sense <;> first | exact h.elim | exact absurd hsense (by decide)

end Sense

/-- A tree and its meaning are about the same names, if the meaning is about names at all. -/
def Derivation.Named (tree : Derivation) (meaning : Meaning) : Prop :=
  (Sense.ofCategory tree.category).tellsNames = true → tree.names = meaning.names

namespace Construction

/-- The children from which a construction takes names. -/
def nameSources? : Construction → Option (List Nat)
  | .pass position => some [position]
  | .constant .null => some []
  | .declareOne => some [0]
  | .declareMore => some [0, 2]
  | _ => none

lemma names_build {construction : Construction} {positions : List Nat} {call : Call}
    {before after : Session} {meaning : Meaning}
    (hsources : construction.nameSources? = some positions)
    (h : Gives (construction.build call) before meaning after) :
    meaning.names = positions.flatMap (call.collect Meaning.names) := by
  rw [nameSources?.eq_def] at hsources
  split at hsources <;> simp only [Option.some.injEq, reduceCtorEq] at hsources
  all_goals subst hsources
  · obtain ⟨hpart, -⟩ := gives_lift.mp h
    rw [List.flatMap_singleton, Call.collect_names_of_part hpart]
  · obtain ⟨rfl, -⟩ := gives_pure.mp h
    rfl
  · simp only [build, gives_bind, gives_lift, gives_pure] at h
    obtain ⟨name, _, ⟨hname, rfl⟩, rfl, -⟩ := h
    rw [List.flatMap_singleton, Call.names_of_variableName hname]
    rfl
  · simp only [build, gives_bind, gives_lift, gives_pure] at h
    obtain ⟨name, _, ⟨hname, rfl⟩, rest, _, ⟨hrest, rfl⟩, rfl, -⟩ := h
    rw [List.flatMap_cons, List.flatMap_singleton, Call.names_of_variableName hname,
      Call.names_of_declaration hrest]
    rfl

end Construction

namespace Grammar

/-- A phrase that tells names is made of such phrases only, and leaves out none of the names. -/
def Rule.tellsNames (rule : Rule) : Bool :=
  if (Sense.ofCategory rule.1.lhs).tellsNames then
    rule.1.rhs.all (fun category => (Sense.ofCategory category).tellsNames) &&
      match rule.2.nameSources? with
      | some positions => Sense.selects Sense.isName rule.1.rhs positions
      | none => false
  else true

theorem standard_tellsNames {rule : Rule} (h : rule ∈ standard) :
    rule.tellsNames = true := by
  have hall : standard.all Rule.tellsNames = true := by decide
  exact List.all_eq_true.mp hall rule h

end Grammar

namespace Derivation

lemma named_of_means {category word : String} {span : Span} {meaning : Meaning}
    (h : Lexicon.Means category (Text.toLower word) meaning) :
    Named (.leaf category word span) meaning := by
  intro htells
  have hsense : (Sense.ofCategory category).tellsNames = true := htells
  have hnames (hcategory : ¬(category = "VARIABLE_NAME" ∨ category = "LIST_NAME")) :
      names (.leaf category word span) = [] := if_neg hcategory
  cases h with
  | keyword h =>
    refine hnames ?_
    rintro (rfl | rfl)
    · exact absurd (Lexicon.ofCategory_of_mem_keywords h) (by decide)
    · exact absurd (Lexicon.ofCategory_of_mem_keywords h) (by decide)
  | name h =>
    simp only [List.mem_cons, List.not_mem_nil, or_false] at h
    rcases h with rfl | rfl | rfl | rfl <;> exact absurd hsense (by decide)
  | variableName => rfl
  | listName => rfl
  | _ => exact absurd hsense (by decide)

lemma forestNames_eq {children : List Derivation} {parts : List Meaning}
    (h : List.Forall₂ Named children parts)
    (htells : ∀ child ∈ children, (Sense.ofCategory child.category).tellsNames = true) :
    forestNames children = parts.flatMap Meaning.names := by
  induction h with
  | nil => rfl
  | cons hpart _ ih =>
    rw [List.forall_mem_cons] at htells
    rw [forestNames, hpart htells.1, ih htells.2, List.flatMap_cons]

/-- The names of a node are those of its meaning when they are for its children. -/
lemma named_node {rule : Grammar.Rule} (hrule : rule ∈ Grammar.standard)
    {children : List Derivation} {span : Span} {parts : List Meaning} {numbers : NumberWords}
    {before after : Session} {meaning : Meaning}
    (hcategories : children.map category = rule.1.rhs)
    (hsenses : Sense.CoversAll rule.1.rhs parts)
    (hnamed : List.Forall₂ Named children parts)
    (hbuild : Gives (rule.2.build ⟨rule.1, parts, numbers⟩) before meaning after) :
    Named (.node rule.1.lhs rule.1.rhs children span) meaning := by
  intro htells
  have htold := Grammar.standard_tellsNames hrule
  rw [Grammar.Rule.tellsNames, if_pos (show (Sense.ofCategory rule.1.lhs).tellsNames = true from
    htells), Bool.and_eq_true, List.all_eq_true] at htold
  obtain ⟨hall, hsources⟩ := htold
  split at hsources
  · next positions hpositions =>
    have hcollect : positions.flatMap (Call.collect Meaning.names ⟨rule.1, parts, numbers⟩) =
        parts.flatMap Meaning.names :=
      Call.flatMap_collect (fun _ _ hsort hcovers => hcovers.names_eq_nil hsort) hsenses hsources
    rw [Construction.names_build hpositions hbuild, hcollect, names]
    refine forestNames_eq hnamed fun child hchild => hall _ ?_
    exact hcategories ▸ List.mem_map_of_mem hchild
  · cases hsources

end Derivation

/-! ### Effects and rules -/

namespace Grammar

/-- A rule has the effect that its words say.  What it has an effect on are names, and there are
no commands below it; a rule without an effect sets no variable. -/
def Rule.tellsEffects (rule : Rule) : Bool :=
  match effect? rule.1 with
  | some (position, change) => rule.2.effect? = some (position, change) &&
      Sense.selects Sense.acts rule.1.rhs [] &&
      (rule.1.rhs[position]?).any fun category => (Sense.ofCategory category).tellsNames
  | none => rule.2.effect? = none && opcode? rule.1 ≠ some Opcode.setVariable

theorem standard_tellsEffects {rule : Rule} (h : rule ∈ standard) :
    rule.tellsEffects = true := by
  have hall : standard.all Rule.tellsEffects = true := by decide
  exact List.all_eq_true.mp hall rule h

end Grammar

/-- A meaning that carries commands without setting a variable has their assignments. -/
lemma Call.Carries.assignmentsIn_eq {call : Call} {meaning : Meaning} (h : call.Carries meaning)
    (hopcode : Grammar.opcode? call.rule ≠ some Opcode.setVariable) :
    assignmentsIn meaning.blocks = assignmentsIn (call.parts.flatMap Meaning.blocks) := by
  have hne : call.opcode? ≠ some Opcode.setVariable := by
    intro heq
    rcases Call.opcode?_eq_some heq with hmem | hrule
    · exact absurd hmem (by decide)
    · exact hopcode hrule
  rw [Carries] at h
  split at h
  · next opcode heq =>
    obtain ⟨block, rfl, hblock, -, hbodies, -⟩ := h
    have hassignment : block.assignment? = none :=
      Block.assignment?_eq_none fun hset => hne (heq.trans (congrArg some (hblock ▸ hset)))
    rw [Meaning.blocks, assignmentsIn_singleton, hassignment, hbodies]
    rfl
  · rw [h]

namespace Derivation

/-- The effects of a node are those of its children and its own. -/
lemma traces_node {rule : Grammar.Rule} (hrule : rule ∈ Grammar.standard)
    {children : List Derivation} {span : Span} {parts : List Meaning} {numbers : NumberWords}
    {before between after : Session} {meaning : Meaning}
    (hcategories : children.map category = rule.1.rhs)
    (hsenses : Sense.CoversAll rule.1.rhs parts)
    (hmeaning : (Sense.ofCategory rule.1.lhs).Covers meaning)
    (hnamed : List.Forall₂ Named children parts)
    (htraces : Traces (forestEffects children) (parts.flatMap Meaning.blocks) before.environment
      between.environment)
    (hbuild : Gives (rule.2.build ⟨rule.1, parts, numbers⟩) between meaning after) :
    Traces (effects (.node rule.1.lhs rule.1.rhs children span)) meaning.blocks
      before.environment after.environment := by
  have htells := Grammar.standard_tellsEffects hrule
  rw [Grammar.Rule.tellsEffects] at htells
  split at htells
  · next position change heffect =>
    simp only [Bool.and_eq_true, decide_eq_true_eq, Option.any_eq_true] at htells
    obtain ⟨⟨hconstruction, hselects⟩, category, hcategory, hname⟩ := htells
    -- below a node with an effect there are no commands, so that it does not matter that the
    -- command of the node stands before them and its effect after theirs
    have hown := Construction.traces_build hconstruction hbuild
    have hnone : parts.flatMap Meaning.blocks = [] :=
      (Call.flatMap_blocksAt ⟨rule.1, parts, numbers⟩ hsenses hselects).symm
    -- the names in the tree are those that the call finds
    have hnames : (children[position]?).elim [] names =
        Call.collect Meaning.names ⟨rule.1, parts, numbers⟩ position := by
      rw [← hcategories, List.getElem?_map, Option.map_eq_some_iff] at hcategory
      obtain ⟨child, hchild, rfl⟩ := hcategory
      obtain ⟨part, hpart, hnamed⟩ := exists_getElem?_of_forall₂ hnamed hchild
      rw [Call.collect, hchild, hpart]
      exact hnamed hname
    have hownEffects : ownEffects rule.1 children =
        (Call.collect Meaning.names ⟨rule.1, parts, numbers⟩ position).map (⟨·, change⟩) := by
      rw [ownEffects, heffect, ← hnames]
    rw [hnone] at htraces
    rw [effects, hownEffects]
    exact htraces.trans hown
  · next heffect =>
    simp only [Bool.and_eq_true, decide_eq_true_eq] at htells
    obtain ⟨hconstruction, hopcode⟩ := htells
    have hcarries := Grammar.Rule.carries_build
      (Grammar.standard_tellsCommands hrule) hsenses hmeaning hbuild
    have hkeeps := Construction.keeps_build hconstruction hbuild
    rw [effects, ownEffects, heffect, List.append_nil, hkeeps]
    exact htraces.congr (hcarries.assignmentsIn_eq hopcode)

end Derivation

namespace Language

variable {sounds : List String} {numbers : NumberWords}

lemma traced_cases : EvaluationCases sounds numbers
    (fun tree before meaning after => tree.Named meaning ∧
      Traces tree.effects meaning.blocks before.environment after.environment)
    (fun trees before parts after => List.Forall₂ Derivation.Named trees parts ∧
      Traces (Derivation.forestEffects trees) (parts.flatMap Meaning.blocks) before.environment
        after.environment) where
  leaf h := by
    refine ⟨Derivation.named_of_means h, ?_⟩
    rw [h.blocks_eq_nil]
    exact .refl _
  node hrule hcategories hsenses hmeaning hchildren hbuild :=
    ⟨Derivation.named_node hrule hcategories hsenses hchildren.1 hbuild,
      Derivation.traces_node hrule hcategories hsenses hmeaning hchildren.1 hchildren.2 hbuild⟩
  nil := ⟨.nil, .refl _⟩
  cons htree hrest := ⟨.cons htree.1 hrest.1, htree.2.trans hrest.2⟩

/-- The environment after a sentence is the replay of the effects of its tree, in which every
value that is stored is that of the command which sets the variable.  Where the last effect on a
variable stores a value, this is the value of the last command of the script that sets it.  The
script shows the environment of the session. -/
theorem environment_of_translate_standard {tree : Derivation} {session : Session}
    {outcome : Outcome} (h : (standard sounds numbers).translate tree session = .ok outcome) :
    (∃ effects : List (Effect Json), effects.map Effect.erase = tree.effects ∧
      outcome.session.environment = Effect.replay effects session.environment ∧
      effects.filterMap Effect.stored? =
        storedValues (assignmentsIn outcome.script.commands)) ∧
    (∀ name, (tree.effects.filter (Effect.concerns name)).getLast? = some ⟨name, .store ()⟩ →
      ∃ value, ((assignmentsIn outcome.script.commands).filter (·.1 = name)).getLast? =
          some (name, value) ∧
        outcome.session.environment.vars.get? name = some value.wire) ∧
    outcome.script.environment = outcome.session.environment := by
  obtain ⟨meaning, hmeaning, hcommands, henvironment⟩ := translate_eq_ok_iff.mp h
  have htraces := (traced_cases.evaluate tree _ _ _ hmeaning).2
  rw [← Script.commandsOf_eq_ok hcommands] at htraces
  obtain ⟨effects, herase, hreplay, hstored⟩ := htraces
  -- the last effect on a name has a value only in `effects`, and this value is found twice: in
  -- the environment by `get?_replay`, among the assignments by `getLast?_stored`
  refine ⟨⟨effects, herase, hreplay, hstored⟩, fun name hlast => ?_, henvironment⟩
  obtain ⟨value, hvalue⟩ := Effect.exists_of_getLast?_erase (herase ▸ hlast)
  have hassigned := Effect.getLast?_stored hvalue
  rw [hstored, storedValues, List.filter_map, List.getLast?_map, Option.map_eq_some_iff]
    at hassigned
  obtain ⟨⟨other, assigned⟩, hassigned, heq⟩ := hassigned
  obtain ⟨rfl, rfl⟩ := Prod.mk.injEq _ _ _ _ ▸ heq
  exact ⟨assigned, hassigned, hreplay ▸ Effect.get?_replay hvalue _⟩

theorem environment_of_translate_countingSentence :
    ∃ outcome effects, (standard [] .numerals).translate countingSentence {} = .ok outcome ∧
      effects.map Effect.erase =
        [⟨"x", .declareVariable⟩, ⟨"x", .store ()⟩, ⟨"x", .store ()⟩] ∧
      outcome.script.environment = Effect.replay effects {} := by
  obtain ⟨outcome, h⟩ := exists_translate_countingSentence
  obtain ⟨⟨effects, herase, hreplay, -⟩, -, hscript⟩ := environment_of_translate_standard h
  have heffects : countingSentence.effects =
      [⟨"x", .declareVariable⟩, ⟨"x", .store ()⟩, ⟨"x", .store ()⟩] := by
    decide +kernel
  exact ⟨outcome, effects, h, herase.trans heffects, hscript.trans hreplay⟩

end Language

end PhraseScript
