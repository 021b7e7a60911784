import PhraseScript.Proofs.BlockForm

/-!
# Blocks inside meanings

Blocks contain others, as operands and in bodies, at any depth (`Meaning.inner`).  Inside what is
well-formed all blocks are well-formed (`IsBlock.exists_isBlock`), and all variables that blocks
inside an expression read are among those that `Meaning.variableReads` finds
(`Fits.reads_subset`).
-/

namespace PhraseScript

mutual

/-- The blocks inside a meaning, at any depth. -/
def Meaning.inner : Meaning → List Block
  | .expression block | .command block => block.inner
  | .commands blocks | .handler blocks => innerOfBlocks blocks
  | _ => []

/-- A block and the blocks inside it, at any depth. -/
def Block.inner : Block → List Block
  | .mk opcode operands => .mk opcode operands :: innerOfOperands operands

/-- The blocks inside some operands. -/
def innerOfOperands : List Meaning → List Block
  | [] => []
  | operand :: rest => operand.inner ++ innerOfOperands rest

/-- Some blocks and the blocks inside them. -/
def innerOfBlocks : List Block → List Block
  | [] => []
  | block :: rest => block.inner ++ innerOfBlocks rest

end

lemma innerOfOperands_eq (operands : List Meaning) :
    innerOfOperands operands = operands.flatMap Meaning.inner := by
  induction operands with
  | nil => rfl
  | cons operand rest ih => rw [innerOfOperands, ih, List.flatMap_cons]

lemma innerOfBlocks_eq (blocks : List Block) :
    innerOfBlocks blocks = blocks.flatMap Block.inner := by
  induction blocks with
  | nil => rfl
  | cons block rest ih => rw [innerOfBlocks, ih, List.flatMap_cons]

lemma Block.inner_mk (opcode : String) (operands : List Meaning) :
    (Block.mk opcode operands).inner =
      .mk opcode operands :: operands.flatMap Meaning.inner := by
  rw [inner, innerOfOperands_eq]

/-- The commands of a meaning are where its blocks are. -/
lemma Meaning.inner_commands (blocks : List Block) :
    (commands blocks).inner = blocks.flatMap Block.inner := by
  rw [inner, innerOfBlocks_eq]

/-- The commands of a script are where the blocks of its meaning are. -/
lemma Script.inner_of_commandsOf {meaning : Meaning} {blocks : List Block}
    (h : commandsOf meaning = .ok blocks) : meaning.inner = blocks.flatMap Block.inner := by
  cases meaning with
  | null =>
    obtain rfl := Except.ok.inj h
    rfl
  | command block =>
    obtain rfl := Except.ok.inj h
    rw [Meaning.inner, List.flatMap_singleton]
  | commands blocks =>
    obtain rfl := Except.ok.inj h
    exact Meaning.inner_commands blocks
  | handler blocks =>
    obtain rfl := Except.ok.inj h
    exact Meaning.inner_commands blocks
  | _ => cases h

/-! ### Well-formed blocks -/

section

variable {admissible : Double → Prop}

mutual

/-- All blocks inside an operand are well-formed. -/
theorem Fits.exists_isBlock {slot : Slot} {meaning : Meaning} :
    Fits admissible slot meaning → ∀ block ∈ meaning.inner, ∃ kind, IsBlock admissible kind block
  | .number _ | .count _ _ | .text _ | .myself | .list _ | .place _ _ | .constant _
  | .textOperand _ | .truth _ _ => List.forall_mem_nil _
  | .reportedPlace h | .reporter h | .predicate h => h.exists_isBlock
  | .valueOperand h | .operandContent h | .conditionContent h => h.exists_isBlock
  | .body h => by
    rw [Meaning.inner_commands]
    intro block hblock
    obtain ⟨outer, houter, hinner⟩ := List.mem_flatMap.mp hblock
    exact (h outer houter).exists_isBlock block hinner

/-- All blocks inside a well-formed block are well-formed. -/
theorem IsBlock.exists_isBlock {kind : BlockKind} {block : Block} :
    IsBlock admissible kind block → ∀ inner ∈ block.inner, ∃ kind, IsBlock admissible kind inner
  | .intro form fill => by
    rw [Block.inner_mk]
    exact List.forall_mem_cons.mpr ⟨⟨_, .intro form fill⟩, fill.exists_isBlock⟩

/-- All blocks inside operands that fill slots are well-formed. -/
theorem Fill.exists_isBlock {slots : List Slot} {operands : List Meaning} :
    Fill admissible slots operands →
      ∀ block ∈ operands.flatMap Meaning.inner, ∃ kind, IsBlock admissible kind block
  | .nil => List.forall_mem_nil _
  | .cons head tail => by
    rw [List.flatMap_cons]
    exact List.forall_mem_append.mpr ⟨head.exists_isBlock, tail.exists_isBlock⟩

end

/-- What fills a slot fits it. -/
lemma Fill.exists_fits {slots : List Slot} {operands : List Meaning}
    (h : Fill admissible slots operands) {position : Nat} {slot : Slot}
    (hslot : slots[position]? = some slot) :
    ∃ operand, operands[position]? = some operand ∧ Fits admissible slot operand := by
  induction position generalizing slots operands with
  | zero =>
    cases h with
    | nil => cases hslot
    | cons head tail => exact ⟨_, rfl, Option.some.inj hslot ▸ head⟩
  | succ position ih =>
    cases h with
    | nil => cases hslot
    | cons head tail => exact ih tail hslot

end

/-! ### Variables that are read -/

/-- The variable that a block reads by itself. -/
def Block.read? : Block → Option String
  | .mk opcode (.text name :: _) => if opcode = Opcode.readVariable then some name else none
  | _ => none

/-- The variables that are read inside a meaning, at any depth. -/
def Meaning.reads (meaning : Meaning) : List String := meaning.inner.filterMap Block.read?

/-- The variables that are read inside some operands. -/
def readsOf (operands : List Meaning) : List String := operands.flatMap Meaning.reads

lemma Block.read?_eq_none {opcode : String} (h : opcode ≠ Opcode.readVariable)
    (operands : List Meaning) : (Block.mk opcode operands).read? = none := by
  rw [read?.eq_def]
  split
  · next heq =>
    cases heq
    exact if_neg h
  · rfl

lemma Meaning.reads_expression (opcode : String) (operands : List Meaning) :
    (expression (.mk opcode operands)).reads =
      (Block.mk opcode operands).read?.toList ++ readsOf operands := by
  rw [reads, inner, Block.inner_mk, List.filterMap_cons, readsOf]
  have hrest : (operands.flatMap inner).filterMap Block.read? = operands.flatMap reads := by
    rw [List.filterMap_flatMap]
    rfl
  cases (Block.mk opcode operands).read? with
  | none => exact hrest
  | some name => exact congrArg (name :: ·) hrest

/-- A block that does not read a variable by itself reads what its operands read. -/
lemma Meaning.blockReads_eq {opcode : String} (h : opcode ≠ Opcode.readVariable)
    (operands : List Meaning) : blockReads (.mk opcode operands) = operandReads operands := by
  simp [blockReads, h]

lemma Meaning.operandReads_eq (operands : List Meaning) :
    operandReads operands = operands.flatMap variableReads := by
  induction operands with
  | nil => rfl
  | cons operand rest ih => rw [operandReads, ih, List.flatMap_cons]

section

variable {admissible : Double → Prop}

/-- There are no bodies in what has a value. -/
lemma BlockKind.not_body_mem {kind : BlockKind} (hkind : kind ≠ .command) :
    ∀ form ∈ kind.forms, .body ∉ form.2 := by
  cases kind with
  | command => exact absurd rfl hkind
  | reporter => decide
  | predicate => decide

lemma BlockKind.slots_of_readVariable (kind : BlockKind) :
    ∀ form ∈ kind.forms, form.1 = Opcode.readVariable → form.2 = [.text] := by
  cases kind <;> decide

mutual

/-- What is read inside an operand that is no body is found as a read of it. -/
theorem Fits.reads_subset {slot : Slot} {meaning : Meaning} :
    Fits admissible slot meaning → slot ≠ .body → meaning.reads ⊆ meaning.variableReads
  | .number _, _ | .count _ _, _ | .text _, _ | .myself, _ | .list _, _ | .place _ _, _
  | .constant _, _ | .textOperand _, _ | .truth _ _, _ => List.nil_subset _
  | .reportedPlace h, _ | .reporter h, _ => h.reads_subset (by decide)
  | .predicate h, _ => h.reads_subset (by decide)
  | .valueOperand h, _ | .operandContent h, _ | .conditionContent h, _ =>
    h.reads_subset (by decide)
  | .body _, hbody => absurd rfl hbody

/-- What is read inside a block that has a value is found as a read of it. -/
theorem IsBlock.reads_subset {kind : BlockKind} {block : Block} :
    IsBlock admissible kind block → kind ≠ .command →
      (Meaning.expression block).reads ⊆ Meaning.blockReads block
  | @IsBlock.intro _ _ opcode slots operands form fill, hkind => by
    rw [Meaning.reads_expression]
    by_cases hread : opcode = Opcode.readVariable
    · obtain rfl : slots = [.text] := BlockKind.slots_of_readVariable _ _ form hread
      cases fill with
      | cons head tail =>
        cases head
        cases tail
        simp [Meaning.blockReads, Block.read?, hread, readsOf, Meaning.reads, Meaning.inner]
    · rw [Meaning.blockReads_eq hread, Block.read?_eq_none hread]
      exact fill.reads_subset (BlockKind.not_body_mem hkind _ form)

/-- What is read inside operands that fill slots is found as a read of them. -/
theorem Fill.reads_subset {slots : List Slot} {operands : List Meaning} :
    Fill admissible slots operands → .body ∉ slots →
      readsOf operands ⊆ Meaning.operandReads operands
  | .nil, _ => List.nil_subset _
  | .cons head tail, hbody => by
    rw [List.mem_cons, not_or] at hbody
    rw [readsOf, List.flatMap_cons, Meaning.operandReads]
    exact List.append_subset.mpr
      ⟨List.subset_append_of_subset_left _ (head.reads_subset (Ne.symm hbody.1)),
        List.subset_append_of_subset_right _ (tail.reads_subset hbody.2)⟩

end

end

end PhraseScript
