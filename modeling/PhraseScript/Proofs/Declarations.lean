import Mathlib.Data.List.Forall2
import PhraseScript.Proofs.Effects
import PhraseScript.Proofs.Evaluations
import PhraseScript.Proofs.ListUses

/-!
# Names that data commands touch

A data command sets or changes a variable or an item of a list.  The rule that composes it looks
up the names in the environment of that moment, which the effects of everything to the left of it
in the tree have led to (`Language.compositions`).  The variable that the command sets, and all
variables that its operands read at any depth, have to be declared there.  From then on they stay
declared unless a later node deletes them.

Of this and of the lists that a script uses is the main statement, `Language.declared_of_translate`.
-/

namespace PhraseScript

/-! ### Declared variables after some effects -/

namespace Effect

/-- Whether a variable is declared after an effect. -/
def leavesDeclared (name : String) (declared : Bool) (effect : Effect Unit) : Bool :=
  if effect.concerns name then effect.change ≠ .deleteVariable else declared

lemma hasVariable_carryOut (name : String) (effect : Effect Json) (environment : Environment) :
    (effect.carryOut environment).hasVariable name =
      leavesDeclared name (environment.hasVariable name) effect.erase := by
  have hsome (environment : Environment) :
      environment.hasVariable name = (environment.vars.get? name).isSome := rfl
  rw [leavesDeclared, concerns_erase, hsome]
  split
  · next hconcerns =>
    rw [get?_carryOut_of_concerns hconcerns]
    obtain ⟨other, change⟩ := effect
    cases change with
    | declareList => cases hconcerns
    | _ => rfl
  · next hconcerns =>
    rw [get?_carryOut_of_not_concerns (Bool.eq_false_iff.mpr hconcerns), hsome]

/-- A declared variable stays declared unless it is deleted. -/
lemma leavesDeclared_or_delete (name : String) (effects : List (Effect Unit)) :
    effects.foldl (leavesDeclared name) true = true ∨ ⟨name, .deleteVariable⟩ ∈ effects := by
  -- from the right: the last effect declares or deletes, or it is about another name
  induction effects using List.reverseRecOn with
  | nil => exact .inl rfl
  | append_singleton effects effect ih =>
    rw [List.foldl_append, List.foldl_cons, List.foldl_nil, List.mem_append, List.mem_singleton,
      leavesDeclared]
    by_cases hconcerns : effect.concerns name = true
    · obtain ⟨other, change⟩ := effect
      cases change with
      | deleteVariable =>
        obtain rfl : other = name := of_decide_eq_true hconcerns
        exact .inr (.inr rfl)
      | _ => exact .inl (by simp [hconcerns])
    · rw [if_neg hconcerns]
      exact ih.imp_right .inl

/-- An environment is what certain effects lead to, whatever the values that they store. -/
def Leads (effects : List (Effect Unit)) (before after : Environment) : Prop :=
  ∃ replayed : List (Effect Json), replayed.map erase = effects ∧ after = replay replayed before

section Leads

variable {effects others : List (Effect Unit)} {before between after : Environment}

lemma Leads.refl (environment : Environment) : Leads [] environment environment :=
  ⟨[], rfl, rfl⟩

lemma Leads.trans (h : Leads effects before between) (h' : Leads others between after) :
    Leads (effects ++ others) before after := by
  obtain ⟨replayed, rfl, rfl⟩ := h
  obtain ⟨replayed', rfl, rfl⟩ := h'
  exact ⟨replayed ++ replayed', List.map_append, (replay_append _ _ _).symm⟩

/-- Whether a variable is declared does not depend on the values that are stored. -/
lemma Leads.hasVariable (h : Leads effects before after) (name : String) :
    after.hasVariable name = effects.foldl (leavesDeclared name) (before.hasVariable name) := by
  obtain ⟨replayed, rfl, rfl⟩ := h
  induction replayed generalizing before with
  | nil => rfl
  | cons effect rest ih =>
    rw [List.map_cons, List.foldl_cons, ← hasVariable_carryOut]
    exact ih

end Leads

end Effect

lemma Traces.leads {expected : List (Effect Unit)} {blocks : List Block}
    {before after : Environment} (h : Traces expected blocks before after) :
    Effect.Leads expected before after := by
  obtain ⟨effects, herase, hreplay, -⟩ := h
  exact ⟨effects, herase, hreplay⟩

/-! ### Data commands -/

/-- The opcodes of the commands that set or change a variable or an item of a list. -/
def Opcode.dataCommands : List String :=
  [setVariable, changeVariable, appendToList, deleteLine, setLine]

/-- The opcodes of the commands that set or change a variable. -/
def Opcode.assignments : List String := [setVariable, changeVariable]

/-- The data commands among some commands and those in their bodies, in order. -/
def dataCommandsIn (blocks : List Block) : List Block :=
  (blocks.flatMap Block.traversal).filter (·.opcode ∈ Opcode.dataCommands)

lemma dataCommandsIn_append (blocks others : List Block) :
    dataCommandsIn (blocks ++ others) = dataCommandsIn blocks ++ dataCommandsIn others := by
  rw [dataCommandsIn, List.flatMap_append, List.filter_append]
  rfl

lemma dataCommandsIn_of_mem {block : Block} (h : block.opcode ∈ Opcode.dataCommands) :
    dataCommandsIn [block] = block :: dataCommandsIn block.bodies.flatten := by
  rw [dataCommandsIn, List.flatMap_singleton, block.traversal_eq,
    List.filter_cons_of_pos (by simpa using h)]
  rfl

lemma dataCommandsIn_of_notMem {block : Block} (h : block.opcode ∉ Opcode.dataCommands) :
    dataCommandsIn [block] = dataCommandsIn block.bodies.flatten := by
  rw [dataCommandsIn, List.flatMap_singleton, block.traversal_eq,
    List.filter_cons_of_neg (by simpa using h)]
  rfl

namespace Block

/-- The variable that a command sets or changes. -/
def target? : Block → Option String
  | .mk opcode (.text name :: _) => if opcode ∈ Opcode.assignments then some name else none
  | _ => none

/-- The variables that a command touches: the one that it sets or changes, and all that are read
inside its operands. -/
def touches (block : Block) : List String := block.target?.toList ++ readsOf block.operands

/-- What a rule has made sure of when it makes a data command. -/
structure Checked (environment : Environment) (block : Block) : Prop where
  target : block.opcode ∈ Opcode.assignments →
    ∃ name, block.target? = some name ∧ environment.hasVariable name = true
  operands : ∀ operand ∈ block.operands, ∀ name ∈ operand.variableReads,
    environment.hasVariable name = true

lemma target?_eq_none {block : Block} (h : block.opcode ∉ Opcode.assignments) :
    block.target? = none := by
  rw [target?.eq_def]
  split
  · exact if_neg h
  · rfl

lemma checked_of_notMem {opcode : String} (h : opcode ∉ Opcode.assignments)
    {environment : Environment} {operands : List Meaning}
    (hoperands : ∀ operand ∈ operands, ∀ name ∈ operand.variableReads,
      environment.hasVariable name = true) : (Block.mk opcode operands).Checked environment :=
  ⟨fun hmem => absurd hmem h, hoperands⟩

lemma checked_of_name {opcode : String} (h : opcode ∈ Opcode.assignments)
    {environment : Environment} {name : String} (hname : environment.hasVariable name = true)
    {value : Meaning}
    (hvalue : ∀ read ∈ value.variableReads, environment.hasVariable read = true) :
    (Block.mk opcode [.text name, value]).Checked environment where
  target _ := ⟨name, if_pos h, hname⟩
  operands := by
    simp only [operands_mk, List.forall_mem_cons]
    exact ⟨List.forall_mem_nil _, hvalue, List.forall_mem_nil _⟩

end Block

/-- A well-formed data command that has been checked touches declared variables only. -/
lemma Block.Checked.touches {environment : Environment} {block : Block}
    (h : block.Checked environment) (hdata : block.opcode ∈ Opcode.dataCommands)
    {admissible : Double → Prop} (hblock : IsBlock admissible .command block) :
    ∀ name ∈ block.touches, environment.hasVariable name = true := by
  have hbodies : ∀ form ∈ BlockKind.command.forms, form.1 ∈ Opcode.dataCommands →
      Slot.body ∉ form.2 := by decide
  have hreads : readsOf block.operands ⊆ Meaning.operandReads block.operands := by
    cases hblock with
    | intro form fill => exact fill.reads_subset (hbodies _ form hdata)
  refine List.forall_mem_append.mpr ⟨fun name hname => ?_, fun name hname => ?_⟩
  · rw [Option.mem_toList] at hname
    by_cases hassignment : block.opcode ∈ Opcode.assignments
    · obtain ⟨target, htarget, hdeclared⟩ := h.target hassignment
      exact Option.some.inj (htarget.symm.trans hname) ▸ hdeclared
    · rw [target?_eq_none hassignment] at hname
      cases hname
  · have hmem := hreads hname
    rw [Meaning.operandReads_eq, List.mem_flatMap] at hmem
    obtain ⟨operand, hoperand, hread⟩ := hmem
    exact h.operands operand hoperand name hread

/-! ### What constructions check -/

namespace Call

variable {call : Call} {position : Nat} {environment : Environment} {meaning : Meaning}

lemma declared_of_declaredVariable {name : String}
    (h : call.declaredVariable environment position = .ok name) :
    environment.hasVariable name = true := by
  obtain ⟨found, -, hrest⟩ := bind_eq_ok_iff.mp h
  obtain ⟨⟨⟩, hdeclared, hname⟩ := bind_eq_ok_iff.mp hrest
  exact Except.ok.inj hname ▸ Environment.requireVariable_eq_ok_iff.mp hdeclared

lemma declared_of_declaredOperand (h : call.declaredOperand environment position = .ok meaning) :
    ∀ name ∈ meaning.variableReads, environment.hasVariable name = true := by
  obtain ⟨found, -, hrest⟩ := bind_eq_ok_iff.mp h
  obtain ⟨⟨⟩, hdeclared, hmeaning⟩ := bind_eq_ok_iff.mp hrest
  exact Except.ok.inj hmeaning ▸ Environment.requireVariables_eq_ok_iff.mp hdeclared

lemma declared_of_declaredList (h : call.declaredList environment position = .ok meaning) :
    ∀ name ∈ meaning.variableReads, environment.hasVariable name = true := by
  obtain ⟨found, -, hrest⟩ := bind_eq_ok_iff.mp h
  obtain ⟨-, -, hmeaning⟩ := bind_eq_ok_iff.mp hrest
  exact Except.ok.inj hmeaning ▸ List.forall_mem_nil _

lemma declared_of_index (h : call.index environment position = .ok meaning) :
    ∀ name ∈ meaning.variableReads, environment.hasVariable name = true := by
  obtain ⟨found, -, hmeaning⟩ := bind_eq_ok_iff.mp h
  split at hmeaning
  · split at hmeaning
    · exact Except.ok.inj hmeaning ▸ List.forall_mem_nil _
    · cases hmeaning
  · obtain ⟨⟨⟩, hdeclared, hmeaning⟩ := bind_eq_ok_iff.mp hmeaning
    exact Except.ok.inj hmeaning ▸ Environment.requireVariables_eq_ok_iff.mp hdeclared
  · cases hmeaning

lemma declared_of_amountOf {amount : Amount}
    (h : Construction.amountOf call environment amount = .ok meaning) :
    ∀ name ∈ meaning.variableReads, environment.hasVariable name = true := by
  cases amount with
  | operand position => exact declared_of_declaredOperand h
  | variableAt position =>
    obtain ⟨name, -, hrest⟩ := bind_eq_ok_iff.mp h
    obtain ⟨⟨⟩, hdeclared, hmeaning⟩ := bind_eq_ok_iff.mp hrest
    obtain rfl := Except.ok.inj hmeaning
    exact List.forall_mem_singleton.mpr (Environment.requireVariable_eq_ok_iff.mp hdeclared)

end Call

namespace Construction

/-- The constructions that make data commands. -/
def makesData : Construction → Bool
  | .setVariable | .changeVariable _ _ _ | .scaleVariable _ _ | .appendItem | .deleteLine _ _
  | .setLine _ _ _ => true
  | _ => false

/-- A block that does not read a variable by itself reads what its operands read. -/
lemma declared_of_operands {opcode : String} {environment : Environment} {operands : List Meaning}
    (hopcode : opcode ≠ Opcode.readVariable)
    (h : ∀ operand ∈ operands, ∀ name ∈ operand.variableReads,
      environment.hasVariable name = true) :
    ∀ name ∈ (Meaning.expression (.mk opcode operands)).variableReads,
      environment.hasVariable name = true := by
  rw [Meaning.variableReads, Meaning.blockReads_eq hopcode, Meaning.operandReads_eq]
  intro name hname
  obtain ⟨operand, hoperand, hread⟩ := List.mem_flatMap.mp hname
  exact h operand hoperand name hread

section

variable {call : Call} {before after : Session} {meaning : Meaning}

lemma checked_changeVariable {amount : Amount} {takenAway : Bool} {target : Nat}
    (h : Gives (build (.changeVariable amount takenAway target) call) before meaning after) :
    ∃ block, meaning = .command block ∧ block.Checked before.environment := by
  simp only [build, gives_bind, gives_lift, gives_environment, gives_pure] at h
  obtain ⟨_, _, ⟨rfl, rfl⟩, amount, _, ⟨hamount, rfl⟩, name, _, ⟨hname, rfl⟩, rfl, rfl⟩ := h
  have hreads := Call.declared_of_amountOf hamount
  refine ⟨_, rfl, Block.checked_of_name (by decide) (Call.declared_of_declaredVariable hname) ?_⟩
  split
  · refine declared_of_operands (by decide) ?_
    simp only [List.forall_mem_cons]
    exact ⟨hreads, List.forall_mem_nil _, List.forall_mem_nil _⟩
  · exact hreads

lemma checked_appendItem (h : Gives (build .appendItem call) before meaning after) :
    ∃ block, meaning = .command block ∧ block.Checked before.environment := by
  simp only [build, gives_bind, gives_lift, gives_environment, gives_pure] at h
  obtain ⟨_, _, ⟨rfl, rfl⟩, item, _, ⟨hitem, rfl⟩, list, _, ⟨hlist, rfl⟩, rfl, rfl⟩ := h
  refine ⟨_, rfl, Block.checked_of_notMem (by decide) ?_⟩
  simp only [List.forall_mem_cons]
  exact ⟨Call.declared_of_declaredOperand hitem, Call.declared_of_declaredList hlist,
    List.forall_mem_nil _⟩

lemma checked_deleteLine {index list : Nat}
    (h : Gives (build (.deleteLine index list) call) before meaning after) :
    ∃ block, meaning = .command block ∧ block.Checked before.environment := by
  simp only [build, gives_bind, gives_lift, gives_environment, gives_pure] at h
  obtain ⟨_, _, ⟨rfl, rfl⟩, index, _, ⟨hindex, rfl⟩, list, _, ⟨hlist, rfl⟩, rfl, rfl⟩ := h
  refine ⟨_, rfl, Block.checked_of_notMem (by decide) ?_⟩
  simp only [List.forall_mem_cons]
  exact ⟨Call.declared_of_index hindex, Call.declared_of_declaredList hlist,
    List.forall_mem_nil _⟩

lemma checked_setLine {index list item : Nat}
    (h : Gives (build (.setLine index list item) call) before meaning after) :
    ∃ block, meaning = .command block ∧ block.Checked before.environment := by
  simp only [build, gives_bind, gives_lift, gives_environment, gives_pure] at h
  obtain ⟨_, _, ⟨rfl, rfl⟩, index, _, ⟨hindex, rfl⟩, list, _, ⟨hlist, rfl⟩, item, _,
    ⟨hitem, rfl⟩, rfl, rfl⟩ := h
  refine ⟨_, rfl, Block.checked_of_notMem (by decide) ?_⟩
  simp only [List.forall_mem_cons]
  exact ⟨Call.declared_of_index hindex, Call.declared_of_declaredList hlist,
    Call.declared_of_declaredOperand hitem, List.forall_mem_nil _⟩

/-- A data command is checked in the environment in which it is made. -/
theorem checked_build {construction : Construction} (hmakes : construction.makesData = true)
    {signature : Signature} (hsignature : construction.signature? = some signature)
    (h : Gives (construction.build call) before meaning after) :
    ∃ block, meaning = .command block ∧ block.Checked before.environment := by
  cases construction <;> simp only [makesData, reduceCtorEq] at hmakes
  case setVariable =>
    cases does_of_gives h with
    | nothing hnot => cases hnot
    | setVariable _ hvalue hdeclared =>
      exact ⟨_, rfl, Block.checked_of_name (by decide) hdeclared
        (Call.declared_of_declaredOperand hvalue)⟩
  case scaleVariable =>
    cases does_of_gives h with
    | nothing hnot => cases hnot
    | scaleVariable _ hoperand hdeclared =>
      obtain ⟨form, -⟩ := Option.ite_none_right_eq_some.mp hsignature
      have hopcode : ∀ form ∈ BlockKind.reporter.forms, form.2 = [.value, .value] →
          form.1 ≠ Opcode.readVariable := by decide
      refine ⟨_, rfl, Block.checked_of_name (by decide) hdeclared
        (declared_of_operands (hopcode _ form rfl) ?_)⟩
      simp only [List.forall_mem_cons]
      exact ⟨List.forall_mem_singleton.mpr hdeclared, Call.declared_of_amountOf hoperand,
        List.forall_mem_nil _⟩
  case changeVariable => exact checked_changeVariable h
  case appendItem => exact checked_appendItem h
  case deleteLine => exact checked_deleteLine h
  case setLine => exact checked_setLine h

end

end Construction

/-! ### Compositions -/

namespace Grammar

/-- The opcode of the data command that a rule makes, if it makes one. -/
def dataOpcode? (rule : RuleKey) : Option String :=
  (opcode? rule).filter (· ∈ Opcode.dataCommands)

/-- A rule that makes a data command has a construction that does. -/
def Rule.tellsData (rule : Rule) : Bool :=
  (dataOpcode? rule.1).isNone ||
    rule.2.makesData && rule.2.signature?.isSome && repetitions.lookup rule.1 = none

theorem standard_tellsData {rule : Rule} (h : rule ∈ standard) : rule.tellsData = true := by
  have hall : standard.all Rule.tellsData = true := by decide +kernel
  exact List.all_eq_true.mp hall rule h

end Grammar

/-- A meaning that carries commands without making a data command has their data commands. -/
lemma Call.Carries.dataCommandsIn_eq {call : Call} {meaning : Meaning} (h : call.Carries meaning)
    (hnone : Grammar.dataOpcode? call.rule = none) :
    dataCommandsIn meaning.blocks = dataCommandsIn (call.parts.flatMap Meaning.blocks) := by
  rw [Carries] at h
  split at h
  · next opcode hopcode =>
    obtain ⟨block, rfl, rfl, -, hbodies, -⟩ := h
    have hrepetitions : ∀ opcode ∈ [Opcode.repeatTimes, Opcode.repeatForever],
        opcode ∉ Opcode.dataCommands := by decide
    have hnotMem : block.opcode ∉ Opcode.dataCommands := by
      rcases Call.opcode?_eq_some hopcode with hrepetition | hopcode
      · exact hrepetitions _ hrepetition
      · simpa using Option.filter_eq_none_iff.mp hnone _ hopcode
    rw [Meaning.blocks, dataCommandsIn_of_notMem hnotMem, hbodies]
  · rw [h]

/-- A node at which a data command is composed. -/
structure Composition where
  /-- The opcode of the command. -/
  opcode : String
  /-- The effects of all nodes to the left. -/
  left : List (Effect Unit)
  /-- The environment in which the command is composed. -/
  environment : Environment

namespace Language

mutual

/-- The nodes of a tree at which data commands are composed, when the tree is evaluated from a
session and stands to the right of some effects. -/
def compositions (language : Language) :
    Derivation → List (Effect Unit) → Session → List Composition
  | .leaf _ _ _, _, _ => []
  | .node lhs rhs children _, left, session =>
    let between := (ending (language.evaluateForest children) session).2
    (Grammar.dataOpcode? ⟨lhs, rhs⟩).toList.map
        (⟨·, left ++ Derivation.forestEffects children, between.environment⟩) ++
      forestCompositions language children left session

/-- The nodes of several trees at which data commands are composed. -/
def forestCompositions (language : Language) :
    List Derivation → List (Effect Unit) → Session → List Composition
  | [], _, _ => []
  | tree :: rest, left, session =>
    compositions language tree left session ++
      forestCompositions language rest (left ++ tree.effects)
        (ending (language.evaluate tree) session).2

end

section

variable (language : Language)

mutual

/-- What is to the left of a composition are effects of the tree, and the others come later. -/
theorem exists_later : (tree : Derivation) → ∀ left session,
    ∀ composition ∈ language.compositions tree left session,
      ∃ later, left ++ tree.effects = composition.left ++ later
  | .leaf _ _ _, _, _ => List.forall_mem_nil _
  | .node lhs rhs children span, left, session => by
    rw [compositions]
    refine List.forall_mem_append.mpr ⟨?_, fun composition hcomposition => ?_⟩
    · intro composition hown
      obtain ⟨opcode, -, rfl⟩ := List.mem_map.mp hown
      exact ⟨Derivation.ownEffects ⟨lhs, rhs⟩ children, (List.append_assoc _ _ _).symm⟩
    · obtain ⟨later, hlater⟩ := exists_laterForest children left session composition hcomposition
      exact ⟨later ++ Derivation.ownEffects ⟨lhs, rhs⟩ children, by
        rw [Derivation.effects, ← List.append_assoc, hlater, List.append_assoc]⟩

/-- What is to the left of a composition are effects of the trees, and the others come later. -/
theorem exists_laterForest : (trees : List Derivation) → ∀ left session,
    ∀ composition ∈ language.forestCompositions trees left session,
      ∃ later, left ++ Derivation.forestEffects trees = composition.left ++ later
  | [], _, _ => List.forall_mem_nil _
  | tree :: rest, left, session => by
    rw [forestCompositions, Derivation.forestEffects, ← List.append_assoc]
    refine List.forall_mem_append.mpr ⟨fun composition hcomposition => ?_, ?_⟩
    · obtain ⟨later, hlater⟩ := exists_later tree left session composition hcomposition
      exact ⟨later ++ Derivation.forestEffects rest, by rw [hlater, List.append_assoc]⟩
    · exact exists_laterForest rest _ _

end

end

end Language

/-- A command is composed at a node: its variables are declared in the environment there, which
is the one that the effects to the left have led to. -/
structure Composition.Makes (start : Environment) (composition : Composition) (block : Block) :
    Prop where
  opcode : block.opcode = composition.opcode
  leads : Effect.Leads composition.left start composition.environment
  target : block.opcode ∈ Opcode.assignments → block.target?.isSome = true
  declared : ∀ name ∈ block.touches, composition.environment.hasVariable name = true

namespace Language

variable {sounds : List String} {numbers : NumberWords}

/-- Data commands are composed one for one at the nodes of a tree. -/
def Composes (sounds : List String) (numbers : NumberWords) (tree : Derivation)
    (before : Session) (meaning : Meaning) (_ : Session) : Prop :=
  ∀ left start, Effect.Leads left start before.environment →
    List.Forall₂ (Composition.Makes start) ((standard sounds numbers).compositions tree left before)
      (dataCommandsIn meaning.blocks)

lemma leads_of_gives {tree : Derivation} {before after : Session} {meaning : Meaning}
    (h : Gives ((standard sounds numbers).evaluate tree) before meaning after) :
    Effect.Leads tree.effects before.environment after.environment :=
  (traced_cases.evaluate tree _ _ _ h).2.leads

lemma leads_of_givesForest {trees : List Derivation} {before after : Session}
    {parts : List Meaning}
    (h : Gives ((standard sounds numbers).evaluateForest trees) before parts after) :
    Effect.Leads (Derivation.forestEffects trees) before.environment after.environment :=
  (traced_cases.evaluateForest trees _ _ _ h).2.leads

lemma composes_forest {trees : List Derivation} {before after : Session} {parts : List Meaning}
    (h : Threads (fun tree before part after =>
      Gives ((standard sounds numbers).evaluate tree) before part after ∧
        Composes sounds numbers tree before part after) trees before parts after)
    {left : List (Effect Unit)} {start : Environment}
    (hleads : Effect.Leads left start before.environment) :
    List.Forall₂ (Composition.Makes start)
      ((standard sounds numbers).forestCompositions trees left before)
      (dataCommandsIn (parts.flatMap Meaning.blocks)) := by
  induction h generalizing left with
  | nil => exact .nil
  | cons h _ ih =>
    obtain ⟨hgives, hcomposes⟩ := h
    have hbetween : (ending ((standard sounds numbers).evaluate _) _).2 = _ :=
      congrArg Prod.snd hgives
    rw [forestCompositions, hbetween, List.flatMap_cons, dataCommandsIn_append]
    exact List.rel_append (hcomposes _ _ hleads) (ih (hleads.trans (leads_of_gives hgives)))

lemma isBlock_of_gives {tree : Derivation} {before after : Session} {block : Block}
    (h : Gives ((standard sounds numbers).evaluate tree) before (.command block) after) :
    IsBlock (fun _ => True) .command block := by
  have hadmits := (ensures_evaluate (fun _ _ _ => trivial) (fun _ _ => trivial) tree).result h
  exact allCommands_of_commandsOf hadmits rfl block (List.mem_singleton.mpr rfl)

/-- At a node that makes a data command this one is composed besides those of the children. -/
lemma composes_steps : EvaluationSteps sounds numbers (Composes sounds numbers) where
  leaf {category word span session meaning} h := by
    intro left start _
    have hmeans := (Lexicon.yields_lookup_standard sounds category word).result h
    rw [hmeans.blocks_eq_nil]
    exact .nil
  node {rule children span parts before between meaning after} hrule hcategories hsenses hmeaning
      hchildren hbuild := by
    intro left start hleads
    have hgives : Gives ((standard sounds numbers).evaluateForest children) before parts between :=
      gives_forest_iff.mpr (hchildren.imp fun _ _ _ _ _ h => h.1)
    have hbetween : (ending ((standard sounds numbers).evaluateForest children) before).2 =
        between := congrArg Prod.snd hgives
    have hforest := composes_forest hchildren hleads
    have hcarries := Grammar.Rule.carries_build
      (Grammar.standard_tellsCommands hrule) hsenses hmeaning hbuild
    have htells := Grammar.standard_tellsData hrule
    rw [compositions, hbetween]
    cases hdata : Grammar.dataOpcode? rule.1 with
    | none =>
      rw [hcarries.dataCommandsIn_eq hdata]
      exact hforest
    | some opcode =>
      simp only [Grammar.Rule.tellsData, hdata, Option.isNone_some, Bool.false_or,
        Bool.and_eq_true, decide_eq_true_eq] at htells
      obtain ⟨⟨hmakes, hsignature⟩, hrepetition⟩ := htells
      obtain ⟨signature, hsignature⟩ := Option.isSome_iff_exists.mp hsignature
      obtain ⟨hopcode, hmem⟩ := Option.filter_eq_some_iff.mp hdata
      obtain ⟨block, rfl, hchecked⟩ := Construction.checked_build hmakes hsignature hbuild
      simp only [Call.Carries, Call.opcode?, hrepetition, hopcode] at hcarries
      obtain ⟨_, hblock, rfl, -, hbodies, -⟩ := hcarries
      cases hblock
      have hdata := of_decide_eq_true hmem
      have hformed : IsBlock (fun _ => True) .command block :=
        isBlock_of_gives (gives_of_threads hrule hcategories span hchildren hbuild)
      rw [Meaning.blocks, dataCommandsIn_of_mem hdata, hbodies]
      refine .cons ⟨rfl, ?_, ?_, hchecked.touches hdata hformed⟩ hforest
      · exact hleads.trans (leads_of_givesForest hgives)
      · intro hassignment
        obtain ⟨name, htarget, -⟩ := hchecked.target hassignment
        rw [htarget]
        rfl

/-! ### Translated scripts -/

/-- A variable that is declared where a command is composed is declared at the end, or a later
node deletes it. -/
lemma declared_or_delete {tree : Derivation} {start after : Environment}
    (htree : Effect.Leads tree.effects start after) {composition : Composition}
    (hleads : Effect.Leads composition.left start composition.environment)
    {later : List (Effect Unit)} (hlater : tree.effects = composition.left ++ later)
    {name : String} (hname : composition.environment.hasVariable name = true) :
    after.hasVariable name = true ∨ ⟨name, .deleteVariable⟩ ∈ later := by
  rw [htree.hasVariable, hlater, List.foldl_append, ← hleads.hasVariable, hname]
  exact Effect.leavesDeclared_or_delete name later

/-- What a block of a script has at the position of a list is one that is declared. -/
lemma exists_list_of_gives {tree : Derivation} {before after : Session} {meaning : Meaning}
    (h : Gives ((standard sounds numbers).evaluate tree) before meaning after)
    {blocks : List Block} (hblocks : Script.commandsOf meaning = .ok blocks) :
    ∀ block ∈ blocks.flatMap Block.inner, ∀ {position},
      listPositions.lookup block.opcode = some position →
        ∃ name, block.operands[position]? = some (.listName name) ∧
          after.environment.hasList name = true := by
  intro block hblock position hposition
  have hadmits := (ensures_evaluate (fun _ _ _ => trivial) (fun _ _ => trivial) tree).result h
  have hbody := Fits.body (allCommands_of_commandsOf hadmits hblocks)
  rw [← Meaning.inner_commands] at hblock
  obtain ⟨kind, hformed⟩ := hbody.exists_isBlock block hblock
  obtain ⟨name, hname⟩ := hformed.exists_listName hposition
  rw [Meaning.inner_commands, ← Script.inner_of_commandsOf hblocks] at hblock
  exact ⟨name, hname, listsIn_of_gives h block hblock position name hposition hname⟩

/-- The variables that data commands touch are declared in the environment in which the command
is composed, which the effects to the left have led to.  So the script has them, unless a later
node deletes them.  The script also has all lists that its blocks use. -/
theorem declared_of_translate {tree : Derivation} {session : Session} {outcome : Outcome}
    (h : (standard sounds numbers).translate tree session = .ok outcome) :
    List.Forall₂
        (fun composition block => composition.Makes session.environment block ∧
          ∃ later, tree.effects = composition.left ++ later ∧
            ∀ name ∈ block.touches, outcome.script.vars.contains name = true ∨
              ⟨name, .deleteVariable⟩ ∈ later)
        ((standard sounds numbers).compositions tree [] session)
        (dataCommandsIn outcome.script.commands) ∧
      ∀ block ∈ outcome.script.commands.flatMap Block.inner, ∀ position,
        listPositions.lookup block.opcode = some position →
          ∃ name, block.operands[position]? = some (.listName name) ∧
            outcome.script.lists.contains name = true := by
  obtain ⟨meaning, hmeaning, hcommands, henvironment⟩ := translate_eq_ok_iff.mp h
  have hvars (name : String) : outcome.script.vars.contains name =
      outcome.session.environment.hasVariable name :=
    congrArg (Environment.hasVariable · name) henvironment
  have hlists (name : String) : outcome.script.lists.contains name =
      outcome.session.environment.hasList name :=
    congrArg (Environment.hasList · name) henvironment
  have hblocks := Script.commandsOf_eq_ok hcommands
  refine ⟨?_, fun block hblock position hposition => ?_⟩
  · have hmakes := composes_steps.evaluate tree _ _ _ hmeaning [] _ (.refl _)
    rw [← hblocks] at hmakes
    have hlater := (standard sounds numbers).exists_later tree [] session
    refine ((List.forall₂_and_left _ _).mpr ⟨hlater, hmakes⟩).imp ?_
    rintro composition block ⟨⟨later, hlater⟩, hmakes⟩
    refine ⟨hmakes, later, hlater, fun name hname => ?_⟩
    rw [hvars]
    exact declared_or_delete (leads_of_gives hmeaning) hmakes.leads hlater
      (hmakes.declared name hname)
  · obtain ⟨name, hname, hdeclared⟩ :=
      exists_list_of_gives hmeaning hcommands block hblock hposition
    exact ⟨name, hname, (hlists name).trans hdeclared⟩

/-- Both data commands of "Make a variable x and set x to 5 and repeat multiply x by 2 3 times"
touch the variable that is declared at the beginning. -/
theorem declared_of_translate_countingSentence :
    ∃ outcome, (standard [] .numerals).translate countingSentence {} = .ok outcome ∧
      (dataCommandsIn outcome.script.commands).length = 2 ∧
      ∀ block ∈ dataCommandsIn outcome.script.commands, ∀ name ∈ block.touches,
        outcome.script.vars.contains name = true := by
  obtain ⟨outcome, h⟩ := exists_translate_countingSentence
  obtain ⟨hmakes, -⟩ := declared_of_translate h
  have hlength : ((standard [] .numerals).compositions countingSentence [] {}).length = 2 := by
    decide +kernel
  have hkept : ∀ effect ∈ countingSentence.effects, effect.change ≠ .deleteVariable := by
    decide +kernel
  refine ⟨outcome, h, hmakes.length_eq ▸ hlength, fun block hblock name hname => ?_⟩
  obtain ⟨position, hposition⟩ := List.getElem?_of_mem hblock
  obtain ⟨composition, -, -, later, heffects, htouches⟩ :=
    exists_getElem?_of_forall₂ hmakes.flip hposition
  refine (htouches name hname).resolve_right fun hdeleted => ?_
  exact hkept _ (heffects ▸ List.mem_append_right _ hdeleted) rfl

end Language

end PhraseScript
