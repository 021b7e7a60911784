import PhraseScript.Proofs.Changes
import PhraseScript.Proofs.Safety

/-!
# Where commands come from

A meaning carries commands (`Meaning.blocks`), and a command carries others in its bodies
(`Block.bodies`).  A construction either passes on the commands of some of its children, one
child after another, or it makes one command, whose bodies are the commands of some of its
children (`Construction.emission?`).  The main statement is `Grammar.Rule.carries_build`: applied
to a rule of the standard grammar this loses nothing, because the children that are left out
carry no commands.
-/

namespace PhraseScript

/-! ### Commands of meanings -/

namespace Meaning

/-- The commands that a meaning adds to a script. -/
def blocks : Meaning → List Block
  | .command block => [block]
  | .commands blocks | .handler blocks => blocks
  | _ => []

/-- The bodies that an operand is: a sequence of commands is one, anything else is none. -/
def bodies : Meaning → List (List Block)
  | .commands blocks => [blocks]
  | _ => []

@[simp] lemma bodies_commands (blocks : List Block) : (commands blocks).bodies = [blocks] := rfl

@[simp] lemma bodies_number (value : Double) : (number value).bodies = [] := rfl

lemma bodies_of_isOperand {meaning : Meaning} (h : meaning.isOperand = true) :
    meaning.bodies = [] := by
  cases meaning <;> first | rfl | cases h

end Meaning

/-- The bodies of a block. -/
def Block.bodies (block : Block) : List (List Block) := block.operands.flatMap Meaning.bodies

mutual

/-- Folds a command up: what comes of it is made of the command and of what comes of the commands
in each of its bodies. -/
def Block.fold {α : Type} (combine : Block → List (List α) → α) : Block → α
  | .mk opcode operands => combine (.mk opcode operands) (foldOperands combine operands)

/-- What comes of the bodies among operands. -/
def foldOperands {α : Type} (combine : Block → List (List α) → α) :
    List Meaning → List (List α)
  | [] => []
  | operand :: rest => foldOperand combine operand ++ foldOperands combine rest

/-- What comes of the body that an operand is. -/
def foldOperand {α : Type} (combine : Block → List (List α) → α) : Meaning → List (List α)
  | .commands blocks => [foldBlocks combine blocks]
  | _ => []

/-- What comes of commands. -/
def foldBlocks {α : Type} (combine : Block → List (List α) → α) : List Block → List α
  | [] => []
  | block :: rest => block.fold combine :: foldBlocks combine rest

end

section Fold

variable {α : Type} (combine : Block → List (List α) → α)

lemma foldBlocks_eq (blocks : List Block) :
    foldBlocks combine blocks = blocks.map (Block.fold combine) := by
  induction blocks with
  | nil => rfl
  | cons block rest ih => rw [foldBlocks, ih, List.map_cons]

lemma foldOperand_eq (meaning : Meaning) :
    foldOperand combine meaning = meaning.bodies.map (List.map (Block.fold combine)) := by
  cases meaning with
  | commands blocks =>
    rw [foldOperand, foldBlocks_eq]
    rfl
  | _ => rfl

lemma foldOperands_eq (operands : List Meaning) :
    foldOperands combine operands =
      (operands.flatMap Meaning.bodies).map (List.map (Block.fold combine)) := by
  induction operands with
  | nil => rfl
  | cons operand rest ih =>
    rw [foldOperands, foldOperand_eq, ih, List.flatMap_cons, List.map_append]

theorem Block.fold_eq (block : Block) :
    block.fold combine = combine block (block.bodies.map (List.map (fold combine))) := by
  obtain ⟨opcode, operands⟩ := block
  rw [fold, foldOperands_eq]
  rfl

end Fold

lemma Block.bodies_of_isOperand {opcode : String} {operands : List Meaning}
    (h : ∀ operand ∈ operands, operand.isOperand = true) :
    (Block.mk opcode operands).bodies = [] :=
  List.flatMap_eq_nil_iff.mpr fun operand hoperand =>
    Meaning.bodies_of_isOperand (h operand hoperand)

lemma Script.commandsOf_eq_ok {meaning : Meaning} {blocks : List Block}
    (h : commandsOf meaning = .ok blocks) : blocks = meaning.blocks := by
  cases meaning <;> first | exact (Except.ok.inj h).symm | cases h

/-- The senses whose meanings can carry commands. -/
def Sense.acts : Sense → Bool
  | .sentence | .script | .action | .command | .statement | .handler => true
  | _ => false

lemma Sense.Covers.blocks_eq_nil {sense : Sense} {meaning : Meaning} (h : sense.Covers meaning)
    (hsense : sense.acts = false) : meaning.blocks = [] := by
  cases meaning <;> first
    | rfl
    | cases sense <;> first | exact h.elim | exact absurd hsense (by decide)

/-- A word carries no commands. -/
lemma Lexicon.Means.blocks_eq_nil {category lower : String} {meaning : Meaning}
    (h : Means category lower meaning) : meaning.blocks = [] := by
  cases h <;> rfl

/-! ### Operands and bodies that a call asks for -/

namespace Call

variable {call : Call} {position : Nat} {environment : Environment} {meaning : Meaning}
  {blocks : List Block}

/-- What the child at a position adds when something is collected from the children. -/
def collect {α : Type} (items : Meaning → List α) (call : Call) (position : Nat) : List α :=
  (call.parts[position]?).elim [] items

/-- The commands of the child at a position. -/
def blocksAt (call : Call) (position : Nat) : List Block := call.collect Meaning.blocks position

lemma part_eq_ok_iff : call.part position = .ok meaning ↔ call.parts[position]? = some meaning := by
  rw [part]
  split
  · next found hfound => rw [hfound, Except.ok.injEq, Option.some.injEq]
  · next hnone => simp [hnone]

lemma part_of_operand (h : call.operand position = .ok meaning) :
    call.part position = .ok meaning := by
  obtain ⟨found, hfound, hmeaning⟩ := bind_eq_ok_iff.mp h
  split at hmeaning
  · exact hfound.trans hmeaning
  · cases hmeaning

lemma part_of_index (h : call.index environment position = .ok meaning) :
    call.part position = .ok meaning := by
  obtain ⟨found, hfound, hmeaning⟩ := bind_eq_ok_iff.mp h
  split at hmeaning
  · split at hmeaning
    · exact hfound.trans hmeaning
    · cases hmeaning
  · obtain ⟨-, -, hmeaning⟩ := bind_eq_ok_iff.mp hmeaning
    exact hfound.trans hmeaning
  · cases hmeaning

lemma part_of_condition (h : call.condition position = .ok meaning) :
    call.part position = .ok meaning := by
  obtain ⟨found, hfound, hmeaning⟩ := bind_eq_ok_iff.mp h
  split at hmeaning <;> first | exact hfound.trans hmeaning | cases hmeaning

lemma part_of_variableName {name : String} (h : call.variableName position = .ok name) :
    call.part position = .ok (.variableName name) := by
  obtain ⟨found, hfound, hname⟩ := bind_eq_ok_iff.mp h
  split at hname
  · exact Except.ok.inj hname ▸ hfound
  · cases hname

lemma part_of_comparator {comparator : Comparator} (h : call.comparator position = .ok comparator) :
    call.part position = .ok (.comparator comparator) := by
  obtain ⟨found, hfound, hcomparator⟩ := bind_eq_ok_iff.mp h
  split at hcomparator
  · exact Except.ok.inj hcomparator ▸ hfound
  · cases hcomparator

lemma part_of_modifier {modifier : Modifier} (h : call.modifier position = .ok modifier) :
    call.part position = .ok (.modifier modifier) := by
  obtain ⟨found, hfound, hmodifier⟩ := bind_eq_ok_iff.mp h
  split at hmodifier
  · exact Except.ok.inj hmodifier ▸ hfound
  · cases hmodifier

lemma part_of_declaredList (h : call.declaredList environment position = .ok meaning) :
    call.part position = .ok meaning := by
  obtain ⟨name, hname, hrest⟩ := bind_eq_ok_iff.mp h
  obtain ⟨-, -, hmeaning⟩ := bind_eq_ok_iff.mp hrest
  obtain ⟨found, hfound, hlist⟩ := bind_eq_ok_iff.mp hname
  split at hlist
  · rw [Except.ok.inj hlist] at hfound
    exact hfound.trans hmeaning
  · cases hlist

lemma blocks_of_part (h : call.part position = .ok meaning) :
    meaning.blocks = call.blocksAt position := by
  rw [blocksAt, collect, part_eq_ok_iff.mp h]
  rfl

lemma blocks_of_flatten (h : call.flatten position meaning = .ok blocks) :
    blocks = meaning.blocks := by
  cases meaning <;> first | exact (Except.ok.inj h).symm | cases h

lemma blocks_of_actions (h : call.actions position = .ok blocks) :
    blocks = call.blocksAt position := by
  obtain ⟨found, hfound, hblocks⟩ := bind_eq_ok_iff.mp h
  rw [blocks_of_flatten hblocks, blocks_of_part hfound]

lemma blocks_of_scriptBody (h : call.scriptBody position = .ok meaning) :
    meaning.blocks = call.blocksAt position := by
  obtain ⟨found, hfound, hmeaning⟩ := bind_eq_ok_iff.mp h
  split at hmeaning
  · rw [← Except.ok.inj hmeaning, blocks_of_part hfound]
  · obtain ⟨blocks, hblocks, hcommands⟩ := bind_eq_ok_iff.mp hmeaning
    rw [← Except.ok.inj hcommands, ← blocks_of_part hfound, ← blocks_of_flatten hblocks]
    rfl

lemma blocks_of_trigger {block : Block} (h : call.trigger position = .ok block) :
    [block] = call.blocksAt position := by
  obtain ⟨found, hfound, hblock⟩ := bind_eq_ok_iff.mp h
  split at hblock
  · rw [← Except.ok.inj hblock, ← blocks_of_part hfound]
    rfl
  · cases hblock

lemma isOperand_of_operand (h : call.operand position = .ok meaning) :
    meaning.isOperand = true := by
  obtain ⟨found, -, hmeaning⟩ := bind_eq_ok_iff.mp h
  split at hmeaning
  · next hoperand => exact Except.ok.inj hmeaning ▸ hoperand
  · cases hmeaning

lemma isOperand_of_declaredOperand
    (h : call.declaredOperand environment position = .ok meaning) : meaning.isOperand = true := by
  obtain ⟨found, hfound, hrest⟩ := bind_eq_ok_iff.mp h
  obtain ⟨-, -, hmeaning⟩ := bind_eq_ok_iff.mp hrest
  exact Except.ok.inj hmeaning ▸ isOperand_of_operand hfound

lemma isOperand_of_declaredRead (h : call.declaredRead environment position = .ok meaning) :
    meaning.isOperand = true := by
  obtain ⟨name, -, hrest⟩ := bind_eq_ok_iff.mp h
  obtain ⟨-, -, hmeaning⟩ := bind_eq_ok_iff.mp hrest
  exact Except.ok.inj hmeaning ▸ rfl

lemma isOperand_of_declaredList (h : call.declaredList environment position = .ok meaning) :
    meaning.isOperand = true := by
  obtain ⟨name, -, hrest⟩ := bind_eq_ok_iff.mp h
  obtain ⟨-, -, hmeaning⟩ := bind_eq_ok_iff.mp hrest
  exact Except.ok.inj hmeaning ▸ rfl

lemma isOperand_of_condition (h : call.condition position = .ok meaning) :
    meaning.isOperand = true := by
  obtain ⟨found, -, hmeaning⟩ := bind_eq_ok_iff.mp h
  split at hmeaning <;> first | exact Except.ok.inj hmeaning ▸ rfl | cases hmeaning

lemma isOperand_of_index (h : call.index environment position = .ok meaning) :
    meaning.isOperand = true := by
  obtain ⟨found, -, hmeaning⟩ := bind_eq_ok_iff.mp h
  split at hmeaning
  · split at hmeaning <;> first | exact Except.ok.inj hmeaning ▸ rfl | cases hmeaning
  · obtain ⟨-, -, hmeaning⟩ := bind_eq_ok_iff.mp hmeaning
    exact Except.ok.inj hmeaning ▸ rfl
  · cases hmeaning

lemma isOperand_of_amountOf {amount : Amount}
    (h : Construction.amountOf call environment amount = .ok meaning) :
    meaning.isOperand = true := by
  cases amount with
  | operand position => exact isOperand_of_declaredOperand h
  | variableAt position => exact isOperand_of_declaredRead h

end Call

lemma Modifier.isOperand_around (modifier : Modifier) {meaning : Meaning}
    (h : meaning.isOperand = true) : (modifier.around meaning).isOperand = true := by
  rw [around]
  induction modifier.layers with
  | nil => exact h
  | cons polarity layers ih =>
    cases polarity with
    | affirm => exact ih
    | negate => rfl

lemma Comparator.isOperand_between (comparator : Comparator) (left right : Meaning) :
    (comparator.between left right).isOperand = true := by
  have hrelation : (comparator.relation.between left right).isOperand = true := by
    cases comparator.relation <;> rfl
  rw [between]
  split
  · next modifier _ => exact modifier.isOperand_around hrelation
  · exact hrelation

/-! ### What constructions emit -/

/-- Where the commands that a construction gives come from. -/
inductive Emission where
  /-- From some children, one after another. -/
  | spliced (positions : List Nat)
  /-- One command is made.  Each of its bodies has the commands of a child. -/
  | command (opcode : String) (bodies : List Nat)
  /-- One command is made, which repeats those of a child.  The opcode depends on a duration. -/
  | repetition (body duration : Nat)

/-- What repeats commands for a duration: a number of times, or for ever. -/
def Call.repetitionOpcode (call : Call) (duration : Nat) : String :=
  match call.parts[duration]? with
  | some (.number _) => Opcode.repeatTimes
  | _ => Opcode.repeatForever

/-- A meaning has the commands that an emission says. -/
def Emission.Describes (call : Call) (meaning : Meaning) : Emission → Prop
  | .spliced positions => meaning.blocks = positions.flatMap call.blocksAt
  | .command opcode bodies =>
    ∃ block, meaning = .command block ∧ block.opcode = opcode ∧
      block.bodies = bodies.map call.blocksAt
  | .repetition body duration =>
    ∃ block, meaning = .command block ∧ block.opcode = call.repetitionOpcode duration ∧
      block.bodies = [call.blocksAt body]

namespace Construction

/-- The commands that a construction gives, if it is about commands. -/
def emission? : Construction → Option Emission
  | .pass position => some (.spliced [position])
  | .constant (.command block) =>
    if block.bodies.isEmpty then some (.command block.opcode []) else none
  | .singleAction => some (.spliced [0])
  | .concatenate first second => some (.spliced [first, second])
  | .recordSequence => some (.spliced [1])
  | .withNumber opcode _ | .withName opcode _ => some (.command opcode [])
  | .createVariables | .createList | .deleteVariable => some (.spliced [])
  | .setVariable | .scaleVariable _ _ => some (.command Opcode.setVariable [])
  | .changeVariable _ _ _ => some (.command Opcode.changeVariable [])
  | .appendItem => some (.command Opcode.appendToList [])
  | .deleteLine _ _ => some (.command Opcode.deleteLine [])
  | .setLine _ _ _ => some (.command Opcode.setLine [])
  | .doIf => some (.command Opcode.doIf [3])
  | .doIfElse => some (.command Opcode.doIfElse [3, 7])
  | .waitUntil | .whenTimer => some (.command Opcode.waitUntil [])
  | .repeatUntil => some (.command Opcode.repeatUntil [1])
  | .repeatForever => some (.command Opcode.repeatForever [1])
  | .repeatTimes => some (.command Opcode.repeatTimes [1])
  | .repeatFor body duration => some (.repetition body duration)
  | .handler => some (.spliced [0, 1])
  | _ => none

section

open Emission Call

variable {call : Call} {before after : Session} {meaning : Meaning}

lemma describes_pass {position : Nat}
    (h : Gives (build (.pass position) call) before meaning after) :
    (spliced [position]).Describes call meaning := by
  obtain ⟨hpart, -⟩ := gives_lift.mp h
  simp [Describes, blocks_of_part hpart]

lemma describes_constant {emission : Emission}
    (h : (constant meaning).emission? = some emission) : emission.Describes call meaning := by
  cases meaning with
  | command block =>
    obtain ⟨hbodies, hemission⟩ := Option.ite_none_right_eq_some.mp h
    obtain rfl := Option.some.inj hemission
    exact ⟨block, rfl, rfl, List.isEmpty_iff.mp hbodies⟩
  | _ => cases h

lemma describes_singleAction (h : Gives (build .singleAction call) before meaning after) :
    (spliced [0]).Describes call meaning := by
  obtain ⟨hbody, -⟩ := gives_lift.mp h
  simp [Describes, blocks_of_scriptBody hbody]

lemma describes_concatenate {first second : Nat}
    (h : Gives (build (.concatenate first second) call) before meaning after) :
    (spliced [first, second]).Describes call meaning := by
  simp only [build, gives_bind, gives_lift, gives_pure] at h
  obtain ⟨blocks, -, ⟨hblocks, rfl⟩, others, -, ⟨hothers, rfl⟩, rfl, rfl⟩ := h
  simp [Describes, Meaning.blocks, blocks_of_actions hblocks, blocks_of_actions hothers]

lemma describes_handler (h : Gives (build .handler call) before meaning after) :
    (spliced [0, 1]).Describes call meaning := by
  simp only [build, gives_bind, gives_lift, gives_pure] at h
  obtain ⟨trigger, -, ⟨htrigger, rfl⟩, body, -, ⟨hbody, rfl⟩, rfl, rfl⟩ := h
  simp [Describes, Meaning.blocks, ← blocks_of_trigger htrigger, ← blocks_of_actions hbody]

/-- A command of operands only has no bodies. -/
lemma describes_of_isOperand {opcode : String} {operands : List Meaning}
    (h : ∀ operand ∈ operands, operand.isOperand = true) :
    (command opcode []).Describes call (.command (.mk opcode operands)) :=
  ⟨_, rfl, rfl, Block.bodies_of_isOperand h⟩

lemma describes_withNumber {opcode : String} {position : Nat}
    (h : Gives (build (.withNumber opcode position) call) before meaning after) :
    (command opcode []).Describes call meaning := by
  simp only [build, gives_bind, gives_lift, gives_pure] at h
  obtain ⟨value, -, -, rfl, rfl⟩ := h
  exact describes_of_isOperand (List.forall_mem_singleton.mpr rfl)

lemma describes_withName {opcode : String} {position : Nat}
    (h : Gives (build (.withName opcode position) call) before meaning after) :
    (command opcode []).Describes call meaning := by
  simp only [build, gives_bind, gives_lift, gives_pure] at h
  obtain ⟨name, -, -, rfl, rfl⟩ := h
  exact describes_of_isOperand (List.forall_mem_singleton.mpr rfl)

lemma describes_of_does {construction : Construction} {emission : Emission}
    (hemission : construction.emission? = some emission)
    (hchanges : construction.changesSession = true)
    (h : Does call construction before meaning after) : emission.Describes call meaning := by
  cases h with
  | nothing hnot =>
    rw [hnot] at hchanges
    cases hchanges
  | recordSequence hactions =>
    cases hemission
    simp [Describes, blocks_of_scriptBody hactions]
  | createVariables | createList | deleteVariable =>
    cases hemission
    rfl
  | setVariable _ hvalue =>
    cases hemission
    refine describes_of_isOperand ?_
    simp only [List.forall_mem_cons]
    exact ⟨rfl, isOperand_of_declaredOperand hvalue, List.forall_mem_nil _⟩
  | scaleVariable =>
    cases hemission
    refine describes_of_isOperand ?_
    simp only [List.forall_mem_cons]
    exact ⟨rfl, rfl, List.forall_mem_nil _⟩

lemma describes_changeVariable {amount : Amount} {takenAway : Bool} {target : Nat}
    (h : Gives (build (.changeVariable amount takenAway target) call) before meaning after) :
    (command Opcode.changeVariable []).Describes call meaning := by
  simp only [build, gives_bind, gives_lift, gives_pure] at h
  obtain ⟨environment, -, -, amount, -, ⟨hamount, -⟩, name, -, -, rfl, -⟩ := h
  refine describes_of_isOperand ?_
  simp only [List.forall_mem_cons]
  refine ⟨rfl, ?_, List.forall_mem_nil _⟩
  split
  · rfl
  · exact isOperand_of_amountOf hamount

lemma describes_appendItem (h : Gives (build .appendItem call) before meaning after) :
    (command Opcode.appendToList []).Describes call meaning := by
  simp only [build, gives_bind, gives_lift, gives_pure] at h
  obtain ⟨environment, -, -, item, -, ⟨hitem, -⟩, list, -, ⟨hlist, -⟩, rfl, -⟩ := h
  refine describes_of_isOperand ?_
  simp only [List.forall_mem_cons]
  exact ⟨isOperand_of_declaredOperand hitem, isOperand_of_declaredList hlist, List.forall_mem_nil _⟩

lemma describes_deleteLine {index list : Nat}
    (h : Gives (build (.deleteLine index list) call) before meaning after) :
    (command Opcode.deleteLine []).Describes call meaning := by
  simp only [build, gives_bind, gives_lift, gives_pure] at h
  obtain ⟨environment, -, -, index, -, ⟨hindex, -⟩, list, -, ⟨hlist, -⟩, rfl, -⟩ := h
  refine describes_of_isOperand ?_
  simp only [List.forall_mem_cons]
  exact ⟨isOperand_of_index hindex, isOperand_of_declaredList hlist, List.forall_mem_nil _⟩

lemma describes_setLine {index list item : Nat}
    (h : Gives (build (.setLine index list item) call) before meaning after) :
    (command Opcode.setLine []).Describes call meaning := by
  simp only [build, gives_bind, gives_lift, gives_pure] at h
  obtain ⟨environment, -, -, index, -, ⟨hindex, -⟩, list, -, ⟨hlist, -⟩, item, -, ⟨hitem, -⟩,
    rfl, -⟩ := h
  refine describes_of_isOperand ?_
  simp only [List.forall_mem_cons]
  exact ⟨isOperand_of_index hindex, isOperand_of_declaredList hlist,
    isOperand_of_declaredOperand hitem, List.forall_mem_nil _⟩

lemma describes_waitUntil (h : Gives (build .waitUntil call) before meaning after) :
    (command Opcode.waitUntil []).Describes call meaning := by
  simp only [build, gives_bind, gives_lift, gives_pure] at h
  obtain ⟨condition, -, ⟨hcondition, -⟩, rfl, -⟩ := h
  exact describes_of_isOperand (List.forall_mem_singleton.mpr (isOperand_of_condition hcondition))

lemma describes_whenTimer (h : Gives (build .whenTimer call) before meaning after) :
    (command Opcode.waitUntil []).Describes call meaning := by
  simp only [build, gives_bind, gives_pure] at h
  obtain ⟨timer, -, -, comparator, -, -, threshold, -, -, rfl, -⟩ := h
  exact describes_of_isOperand
    (List.forall_mem_singleton.mpr (comparator.isOperand_between timer threshold))

lemma describes_doIf (h : Gives (build .doIf call) before meaning after) :
    (command Opcode.doIf [3]).Describes call meaning := by
  simp only [build, gives_bind, gives_lift, gives_pure] at h
  obtain ⟨condition, -, ⟨hcondition, -⟩, body, -, ⟨hbody, -⟩, rfl, -⟩ := h
  refine ⟨_, rfl, rfl, ?_⟩
  simp [Block.bodies, Meaning.bodies_of_isOperand (isOperand_of_condition hcondition),
    blocks_of_actions hbody]

lemma describes_doIfElse (h : Gives (build .doIfElse call) before meaning after) :
    (command Opcode.doIfElse [3, 7]).Describes call meaning := by
  simp only [build, gives_bind, gives_lift, gives_pure] at h
  obtain ⟨condition, -, ⟨hcondition, -⟩, body, -, ⟨hbody, -⟩, otherwise, -, ⟨hotherwise, -⟩,
    rfl, -⟩ := h
  refine ⟨_, rfl, rfl, ?_⟩
  simp [Block.bodies, Meaning.bodies_of_isOperand (isOperand_of_condition hcondition),
    blocks_of_actions hbody, blocks_of_actions hotherwise]

lemma describes_repeatUntil (h : Gives (build .repeatUntil call) before meaning after) :
    (command Opcode.repeatUntil [1]).Describes call meaning := by
  simp only [build, gives_bind, gives_lift, gives_pure] at h
  obtain ⟨body, -, ⟨hbody, -⟩, condition, -, ⟨hcondition, -⟩, rfl, -⟩ := h
  refine ⟨_, rfl, rfl, ?_⟩
  simp [Block.bodies, Meaning.bodies_of_isOperand (isOperand_of_condition hcondition),
    blocks_of_actions hbody]

lemma describes_repeatForever (h : Gives (build .repeatForever call) before meaning after) :
    (command Opcode.repeatForever [1]).Describes call meaning := by
  simp only [build, gives_bind, gives_lift, gives_pure] at h
  obtain ⟨body, -, ⟨hbody, -⟩, rfl, -⟩ := h
  refine ⟨_, rfl, rfl, ?_⟩
  simp [Block.bodies, blocks_of_actions hbody]

lemma describes_repeatTimes (h : Gives (build .repeatTimes call) before meaning after) :
    (command Opcode.repeatTimes [1]).Describes call meaning := by
  simp only [build, gives_bind, gives_lift, gives_pure] at h
  obtain ⟨body, -, ⟨hbody, -⟩, count, -, -, rfl, -⟩ := h
  refine ⟨_, rfl, rfl, ?_⟩
  simp [Block.bodies, blocks_of_actions hbody]

lemma describes_repeatFor {body duration : Nat}
    (h : Gives (build (.repeatFor body duration) call) before meaning after) :
    (repetition body duration).Describes call meaning := by
  simp only [build, gives_bind, gives_lift] at h
  obtain ⟨blocks, -, ⟨hblocks, -⟩, part, -, ⟨hpart, -⟩, hrepeated, -⟩ := h
  rw [part_eq_ok_iff] at hpart
  simp only [Describes, repetitionOpcode, hpart, ← blocks_of_actions hblocks]
  cases part with
  | number count =>
    obtain rfl := Except.ok.inj hrepeated
    exact ⟨_, rfl, rfl, by simp [Block.bodies]⟩
  | text word =>
    rw [repeated] at hrepeated
    split at hrepeated
    · obtain rfl := Except.ok.inj hrepeated
      exact ⟨_, rfl, rfl, by simp [Block.bodies]⟩
    · cases hrepeated
  | _ => cases hrepeated

/-- A construction gives the commands that its emission says. -/
theorem describes_build {construction : Construction} {emission : Emission}
    (hemission : construction.emission? = some emission)
    (h : Gives (construction.build call) before meaning after) :
    emission.Describes call meaning := by
  cases construction <;> simp only [emission?, Option.some.injEq, reduceCtorEq] at hemission
  case constant fixed =>
    obtain ⟨rfl, -⟩ := gives_pure.mp h
    exact describes_constant hemission
  all_goals subst hemission
  case pass => exact describes_pass h
  case singleAction => exact describes_singleAction h
  case concatenate => exact describes_concatenate h
  case recordSequence | createVariables | createList | deleteVariable | setVariable
      | scaleVariable =>
    exact describes_of_does rfl rfl (does_of_gives h)
  case withNumber => exact describes_withNumber h
  case withName => exact describes_withName h
  case changeVariable => exact describes_changeVariable h
  case appendItem => exact describes_appendItem h
  case deleteLine => exact describes_deleteLine h
  case setLine => exact describes_setLine h
  case doIf => exact describes_doIf h
  case doIfElse => exact describes_doIfElse h
  case waitUntil => exact describes_waitUntil h
  case whenTimer => exact describes_whenTimer h
  case repeatUntil => exact describes_repeatUntil h
  case repeatForever => exact describes_repeatForever h
  case repeatTimes => exact describes_repeatTimes h
  case repeatFor => exact describes_repeatFor h
  case handler => exact describes_handler h

end

end Construction

/-! ### Collecting from all children -/

lemma flatMap_filter_of_nil {α β : Type} {l : List α} {p : α → Bool} {f : α → List β}
    (h : ∀ a, p a = false → f a = []) : (l.filter p).flatMap f = l.flatMap f := by
  induction l with
  | nil => rfl
  | cons a l ih =>
    cases ha : p a with
    | true => rw [List.filter_cons_of_pos ha, List.flatMap_cons, List.flatMap_cons, ih]
    | false =>
      rw [List.filter_cons_of_neg (by simp [ha]), List.flatMap_cons, h a ha, List.nil_append, ih]

lemma flatMap_range_getElem? {α β : Type} (l : List α) (f : α → List β) :
    (List.range l.length).flatMap (fun i => (l[i]?).elim [] f) = l.flatMap f := by
  induction l with
  | nil => rfl
  | cons a l ih =>
    rw [List.length_cons, List.range_succ_eq_map, List.flatMap_cons, List.flatMap_map,
      List.flatMap_cons, ← ih]
    rfl

/-- The category at a position has a sense of some sort. -/
def Sense.isAt (sort : Sense → Bool) (categories : List String) (position : Nat) : Bool :=
  (categories[position]?).elim false fun category => sort (ofCategory category)

/-- Positions that leave out only what is not of a sort. -/
def Sense.selects (sort : Sense → Bool) (categories : List String) (positions : List Nat) : Bool :=
  positions.filter (isAt sort categories) =
    (List.range categories.length).filter (isAt sort categories)

/-- Nothing is lost when something is collected from some positions only, if meanings of the
senses that are left out have nothing of it. -/
lemma Call.flatMap_collect {α : Type} {items : Meaning → List α} {sort : Sense → Bool}
    (hitems : ∀ sense meaning, sort sense = false → sense.Covers meaning → items meaning = [])
    {call : Call} {categories : List String} {positions : List Nat}
    (hsenses : Sense.CoversAll categories call.parts)
    (hpositions : Sense.selects sort categories positions = true) :
    positions.flatMap (call.collect items) = call.parts.flatMap items := by
  -- at a position of another sort there is nothing to collect
  have hnil : ∀ position, Sense.isAt sort categories position = false →
      call.collect items position = [] := by
    intro position hposition
    rw [collect]
    cases hpart : call.parts[position]? with
    | none => rfl
    | some part =>
      obtain ⟨hlt, rfl⟩ := List.getElem?_eq_some_iff.mp hpart
      have hcategory : position < categories.length := hsenses.length_eq ▸ hlt
      rw [Sense.isAt, List.getElem?_eq_getElem hcategory] at hposition
      exact hitems _ _ hposition (hsenses.get hcategory hlt)
  calc positions.flatMap (call.collect items)
      = (positions.filter (Sense.isAt sort categories)).flatMap (call.collect items) :=
        (flatMap_filter_of_nil hnil).symm
    _ = ((List.range categories.length).filter (Sense.isAt sort categories)).flatMap
          (call.collect items) := by rw [of_decide_eq_true hpositions]
    _ = (List.range categories.length).flatMap (call.collect items) := flatMap_filter_of_nil hnil
    _ = call.parts.flatMap items := by
        rw [hsenses.length_eq]
        exact flatMap_range_getElem? call.parts items

lemma Call.flatMap_blocksAt (call : Call) {categories : List String} {positions : List Nat}
    (hsenses : Sense.CoversAll categories call.parts)
    (hpositions : Sense.selects Sense.acts categories positions = true) :
    positions.flatMap call.blocksAt = call.parts.flatMap Meaning.blocks :=
  flatMap_collect (fun _ _ hsort hcovers => hcovers.blocks_eq_nil hsort) hsenses hpositions

/-! ### Rules that make commands -/

namespace Grammar

open Opcode in
/-- How the phrases begin that make a command, with the opcode of the command.  A longer
beginning stands before a shorter one. -/
def commandPhrases : List (String × List String × String) :=
  [("SoundCommand", ["Play"], playSoundAndWait), ("SoundCommand", ["Set"], setVolume),
    ("SoundCommand", ["Change", "Volume"], changeVolume),
    ("SoundCommand", ["Change", "Pitch"], changeTempo), ("SoundCommand", ["Stop"], stopAllSounds),
    ("SoundCommand", ["Softer"], changeVolume), ("SoundCommand", ["Louder"], changeVolume),
    ("SoundCommand", ["Slower"], changeTempo), ("SoundCommand", ["Faster"], changeTempo),
    ("CreateCommand", ["Make", "Det", "Clone"], createClone),
    ("DataCommand", ["Set", "VARIABLE_NAME"], setVariable),
    ("DataCommand", ["Multiply"], setVariable), ("DataCommand", ["Divide"], setVariable),
    ("DataCommand", ["Add", "ITEM"], appendToList), ("DataCommand", ["Add"], changeVariable),
    ("DataCommand", ["Increment"], changeVariable), ("DataCommand", ["Subtract"], changeVariable),
    ("DataCommand", ["Decrement"], changeVariable),
    ("DataCommand", ["Delete", "Ele"], deleteLine), ("DataCommand", ["Delete", "Det"], deleteLine),
    ("DataCommand", ["Replace"], setLine), ("DataCommand", ["Set"], setLine),
    ("ConditionalCommand", ["If", "BP", "Then", "AL", "Thats", "It", "Else"], doIfElse),
    ("ConditionalCommand", ["If"], doIf), ("ControlCommand", ["Wait", "Until"], waitUntil),
    ("ControlCommand", ["Wait"], wait), ("ControlCommand", ["Repeat", "AL", "Until"], repeatUntil),
    ("ControlCommand", ["Repeat", "AL", "Forever"], repeatForever),
    ("ControlCommand", ["Repeat"], repeatTimes), ("ControlCommand", ["Delete"], deleteClone),
    ("TimerCommand", ["Reset"], resetTimer),
    ("BroadcastCommand", ["Broadcast", "MESSAGE_NAME", "And"], broadcastAndWait),
    ("BroadcastCommand", ["Broadcast"], broadcast), ("EVENT", ["When", "KEY_NAME"], whenKeyPressed),
    ("EVENT", ["When", "Det", "Sprite"], whenClicked),
    ("EVENT", ["When", "Backdrop"], whenSceneStarts), ("EVENT", ["When", "I"], whenIReceive),
    ("EVENT", ["When", "Timer"], waitUntil), ("EVENT", ["When"], whenGreenFlag)]

/-- What a table of phrases has on the first phrase with which a rule begins. -/
def lookupPhrase? {α : Type} (phrases : List (String × List String × α)) (rule : RuleKey) :
    Option α :=
  (phrases.find? fun (lhs, phrase, _) => rule.lhs = lhs ∧ phrase.isPrefixOf rule.rhs).map (·.2.2)

/-- The opcode of the command that a rule makes, if it makes one that its words determine. -/
def opcode? : RuleKey → Option String := lookupPhrase? commandPhrases

/-- The rules that repeat commands for a duration, with the position of the duration. -/
def repetitions : List (RuleKey × Nat) :=
  [(⟨"LoopCommand", ["AL", "Should", "Be", "Repeated", "Duration"]⟩, 4),
    (⟨"LoopCommand", ["AL", "That", "Should", "Be", "Repeated", "Duration"]⟩, 5),
    (⟨"LoopCommandP", ["AP", "Duration"]⟩, 1),
    (⟨"LoopCommandP", ["The", "Following", "Duration", "AL", "Thats", "It"]⟩, 2),
    (⟨"LoopCommandP", ["The", "Following", "Steps", "Duration", "AL", "Thats", "It"]⟩, 3)]

/-- The phrases that can be the body of a command. -/
def bodyPhrases : List String := ["AL", "AP"]

/-- The positions of bodies. -/
def bodyPositions (categories : List String) : List Nat :=
  (List.range categories.length).filter fun position =>
    (categories[position]?).any (· ∈ bodyPhrases)

/-- All commands below a phrase with those bodies are in the bodies. -/
def hasBodies (categories : List String) (bodies : List Nat) : Bool :=
  bodies = bodyPositions categories && Sense.selects Sense.acts categories bodies &&
    categories.all fun category =>
      category ∈ bodyPhrases || (Sense.ofCategory category).acts = false

/-- The commands of a rule come from where its words say. -/
def Rule.tellsCommands (rule : Rule) : Bool :=
  if (Sense.ofCategory rule.1.lhs).acts then
    match rule.2.emission? with
    | some (.spliced positions) => Sense.selects Sense.acts rule.1.rhs positions &&
        repetitions.lookup rule.1 = none && opcode? rule.1 = none
    | some (.command opcode bodies) => hasBodies rule.1.rhs bodies &&
        repetitions.lookup rule.1 = none && opcode? rule.1 = some opcode
    | some (.repetition body duration) => hasBodies rule.1.rhs [body] &&
        repetitions.lookup rule.1 = some duration
    | none => false
  else Sense.selects Sense.acts rule.1.rhs [] && repetitions.lookup rule.1 = none &&
    opcode? rule.1 = none

theorem standard_tellsCommands {rule : Rule} (h : rule ∈ standard) :
    rule.tellsCommands = true := by
  have hall : standard.all Rule.tellsCommands = true := by decide +kernel
  exact List.all_eq_true.mp hall rule h

end Grammar

/-- The opcode of the command that the rule of a call makes, if it makes one. -/
def Call.opcode? (call : Call) : Option String :=
  match Grammar.repetitions.lookup call.rule with
  | some duration => some (call.repetitionOpcode duration)
  | none => Grammar.opcode? call.rule

lemma Call.opcode?_eq_some {call : Call} {opcode : String} (h : call.opcode? = some opcode) :
    opcode ∈ [Opcode.repeatTimes, Opcode.repeatForever] ∨
      Grammar.opcode? call.rule = some opcode := by
  rw [opcode?] at h
  split at h
  · next duration _ =>
    rw [← Option.some.inj h, repetitionOpcode]
    split <;> simp
  · exact .inr h

/-- The commands of the children of a call that can be bodies, child by child. -/
def Call.bodies (call : Call) : List (List Block) :=
  ((call.rule.rhs.zip call.parts).filter (·.1 ∈ Grammar.bodyPhrases)).map (·.2.blocks)

/-- A meaning carries the commands of the children of a call, one child after another: in the
bodies of a command, when the rule makes one, and otherwise by itself.  Apart from the bodies of
a command no child has commands. -/
def Call.Carries (call : Call) (meaning : Meaning) : Prop :=
  match call.opcode? with
  | some opcode => ∃ block, meaning = .command block ∧ block.opcode = opcode ∧
      block.bodies = call.bodies ∧ block.bodies.flatten = call.parts.flatMap Meaning.blocks ∧
      ∀ category ∈ call.rule.rhs, category ∉ Grammar.bodyPhrases →
        (Sense.ofCategory category).acts = false
  | none => meaning.blocks = call.parts.flatMap Meaning.blocks

lemma map_filter_range {α β : Type} (p : String → Bool) (f : α → List β)
    {categories : List String} {l : List α} (h : categories.length = l.length) :
    ((List.range categories.length).filter fun i => (categories[i]?).any p).map
        (fun i => (l[i]?).elim [] f) =
      ((categories.zip l).filter (p ·.1)).map (f ·.2) := by
  induction categories generalizing l with
  | nil => rfl
  | cons category categories ih =>
    cases l with
    | nil => cases h
    | cons a l =>
      have hrest := ih (Nat.succ.inj h)
      rw [List.length_cons, List.range_succ_eq_map, List.zip_cons_cons, List.filter_cons,
        List.filter_cons, List.filter_map]
      have htail : (((List.range categories.length).filter
          ((fun i => ((category :: categories)[i]?).any p) ∘ Nat.succ)).map Nat.succ).map
          (fun i => ((a :: l)[i]?).elim [] f) =
            ((categories.zip l).filter (p ·.1)).map (f ·.2) := by
        rw [← hrest, List.map_map]
        rfl
      cases hp : p category with
      | true =>
        rw [if_pos (by simp [hp]), if_pos rfl, List.map_cons, List.map_cons, htail]
        rfl
      | false => rw [if_neg (by simp [hp]), if_neg (by simp), htail]

/-- What a rule of the standard grammar gives carries the commands of all children. -/
theorem Grammar.Rule.carries_build {rule : Grammar.Rule} (hrule : rule.tellsCommands = true)
    {parts : List Meaning} {numbers : NumberWords} {before after : Session} {meaning : Meaning}
    (hsenses : Sense.CoversAll rule.1.rhs parts)
    (hmeaning : (Sense.ofCategory rule.1.lhs).Covers meaning)
    (hbuild : Gives (rule.2.build ⟨rule.1, parts, numbers⟩) before meaning after) :
    Call.Carries ⟨rule.1, parts, numbers⟩ meaning := by
  let call : Call := ⟨rule.1, parts, numbers⟩
  -- what a rule passes on, and what is in the bodies of its command, are the commands of all
  -- children
  have hcollect {positions : List Nat}
      (hpositions : Sense.selects Sense.acts rule.1.rhs positions = true) :
      positions.flatMap call.blocksAt = parts.flatMap Meaning.blocks :=
    call.flatMap_blocksAt hsenses hpositions
  have hbodies {bodies : List Nat} (h : hasBodies rule.1.rhs bodies = true) {block : Block}
      (hblock : block.bodies = bodies.map call.blocksAt) :
      block.bodies = call.bodies ∧ block.bodies.flatten = parts.flatMap Meaning.blocks ∧
        ∀ category ∈ rule.1.rhs, category ∉ Grammar.bodyPhrases →
          (Sense.ofCategory category).acts = false := by
    simp only [hasBodies, Bool.and_eq_true, decide_eq_true_eq] at h
    obtain ⟨⟨rfl, hselects⟩, hall⟩ := h
    refine ⟨?_, ?_, ?_⟩
    · rw [hblock]
      exact map_filter_range _ _ hsenses.length_eq
    · rw [hblock, ← hcollect hselects]
      rfl
    · intro category hcategory hnot
      have := List.all_eq_true.mp hall category hcategory
      simpa [hnot] using this
  rw [Call.Carries, Call.opcode?]
  rw [tellsCommands] at hrule
  split at hrule
  -- a phrase that acts emits something, and the check says what and under which opcode
  · split at hrule
    · next positions hemission =>
      simp only [Bool.and_eq_true, decide_eq_true_eq] at hrule
      obtain ⟨⟨hpositions, hrepetition⟩, hopcode⟩ := hrule
      simp only [hrepetition, hopcode]
      exact (Construction.describes_build hemission hbuild).trans (hcollect hpositions)
    · next opcode positions hemission =>
      simp only [Bool.and_eq_true, decide_eq_true_eq] at hrule
      obtain ⟨⟨hpositions, hrepetition⟩, hopcode⟩ := hrule
      obtain ⟨block, hblock, heq, hinner⟩ := Construction.describes_build hemission hbuild
      simp only [hrepetition, hopcode]
      exact ⟨block, hblock, heq, hbodies hpositions hinner⟩
    · next body duration hemission =>
      simp only [Bool.and_eq_true, decide_eq_true_eq] at hrule
      obtain ⟨hbody, hrepetition⟩ := hrule
      obtain ⟨block, hblock, heq, hinner⟩ := Construction.describes_build hemission hbuild
      simp only [hrepetition]
      exact ⟨block, hblock, heq, hbodies hbody hinner⟩
    · cases hrule
  -- a phrase that does not act has no commands, and neither has anything below it
  · next hacts =>
    simp only [Bool.and_eq_true, decide_eq_true_eq] at hrule
    obtain ⟨⟨hnone, hrepetition⟩, hopcode⟩ := hrule
    simp only [hrepetition, hopcode]
    rw [hmeaning.blocks_eq_nil (Bool.eq_false_iff.mpr hacts), ← hcollect hnone, List.flatMap_nil]

end PhraseScript
