import PhraseScript.Proofs.Commands
import PhraseScript.Proofs.InnerBlocks

/-!
# Where blocks come from

What a construction gives consists of blocks inside the meanings of its children and of a few
blocks of its own.  Most of these have nothing but names, operands and bodies in them.  The others
are *particular*: they have a list, a place in one or a number of times among their operands, for
which the construction has asked its children (`Construction.Makes`).

So, if a property is one of all blocks that are not particular, and of all blocks inside the
children, the particular blocks alone have to be looked at (`Construction.inside_build`).
-/

namespace PhraseScript

/-- The opcodes of the blocks with a list, a place in one or a number of times. -/
def Opcode.particular : List String :=
  [appendToList, deleteLine, setLine, getLine, listContains, repeatTimes]

/-- A form without a list and without a number of times is not that of a particular block. -/
lemma BlockKind.not_mem_particular {kind : BlockKind} {opcode : String} {slots : List Slot}
    (form : (opcode, slots) ∈ kind.forms) (hlist : .list ∉ slots) (hcount : .count ∉ slots) :
    opcode ∉ Opcode.particular := by
  have hforms : ∀ form ∈ kind.forms,
      .list ∉ form.2 → .count ∉ form.2 → form.1 ∉ Opcode.particular := by
    cases kind <;> decide
  exact hforms _ form hlist hcount

/-! ### Properties of all blocks inside -/

/-- All blocks inside a meaning have a property. -/
def Meaning.Inside (P : Block → Prop) (meaning : Meaning) : Prop := ∀ block ∈ meaning.inner, P block

section

variable {P : Block → Prop} {opcode : String} {operands : List Meaning} {meaning : Meaning}

namespace Meaning

lemma Inside.imp {Q : Block → Prop} (h : meaning.Inside P) (himp : ∀ block, P block → Q block) :
    meaning.Inside Q :=
  fun block hblock => himp block (h block hblock)

lemma inside_of_inner_eq_nil (h : meaning.inner = []) : meaning.Inside P := by
  rw [Inside, h]
  exact List.forall_mem_nil _

@[simp] lemma inside_number (value : Double) : (number value).Inside P :=
  inside_of_inner_eq_nil rfl

@[simp] lemma inside_minusOne : Construction.minusOne.Inside P :=
  inside_of_inner_eq_nil rfl

@[simp] lemma inside_text (text : String) : (Meaning.text text).Inside P :=
  inside_of_inner_eq_nil rfl

@[simp] lemma inside_listName (name : String) : (listName name).Inside P :=
  inside_of_inner_eq_nil rfl

lemma inside_command_iff : (command (.mk opcode operands)).Inside P ↔
    P (.mk opcode operands) ∧ ∀ operand ∈ operands, operand.Inside P := by
  simp only [Inside, inner, Block.inner_mk, List.forall_mem_cons, List.mem_flatMap,
    forall_exists_index, and_imp]
  exact and_congr_right fun _ =>
    ⟨fun h operand hoperand block hblock => h _ operand hoperand hblock,
      fun h block operand hoperand hblock => h operand hoperand block hblock⟩

lemma inside_expression_iff : (expression (.mk opcode operands)).Inside P ↔
    P (.mk opcode operands) ∧ ∀ operand ∈ operands, operand.Inside P :=
  inside_command_iff

lemma inside_commands_iff {blocks : List Block} :
    (commands blocks).Inside P ↔ ∀ block ∈ blocks, (command block).Inside P := by
  simp only [Inside, inner, innerOfBlocks_eq, List.mem_flatMap, forall_exists_index, and_imp]
  exact ⟨fun h block hblock other hother => h other block hblock hother,
    fun h other block hblock hother => h block hblock other hother⟩

lemma inside_handler_iff {blocks : List Block} :
    (handler blocks).Inside P ↔ ∀ block ∈ blocks, (command block).Inside P :=
  inside_commands_iff

lemma inside_append {blocks others : List Block} (h : (commands blocks).Inside P)
    (hothers : (commands others).Inside P) : (commands (blocks ++ others)).Inside P :=
  inside_commands_iff.mpr (List.forall_mem_append.mpr
    ⟨inside_commands_iff.mp h, inside_commands_iff.mp hothers⟩)

lemma inside_cons {block : Block} {blocks : List Block} (h : (command block).Inside P)
    (hblocks : (commands blocks).Inside P) : (handler (block :: blocks)).Inside P :=
  inside_handler_iff.mpr (List.forall_mem_cons.mpr ⟨h, inside_commands_iff.mp hblocks⟩)

end Meaning

/-- A word has no particular blocks inside. -/
lemma Lexicon.Means.inside {category lower : String} (h : Means category lower meaning)
    (hplain : ∀ opcode operands, opcode ∉ Opcode.particular → P (.mk opcode operands)) :
    meaning.Inside P := by
  cases h with
  | timer =>
    exact Meaning.inside_expression_iff.mpr ⟨hplain _ _ (by decide), List.forall_mem_nil _⟩
  | _ => exact Meaning.inside_of_inner_eq_nil rfl

/-! ### Blocks that are not particular -/

variable (hplain : ∀ opcode operands, opcode ∉ Opcode.particular → P (.mk opcode operands))

include hplain

namespace Meaning

lemma inside_expression (h : opcode ∉ Opcode.particular)
    (hoperands : ∀ operand ∈ operands, operand.Inside P) :
    (expression (.mk opcode operands)).Inside P :=
  inside_expression_iff.mpr ⟨hplain opcode operands h, hoperands⟩

lemma inside_command (h : opcode ∉ Opcode.particular)
    (hoperands : ∀ operand ∈ operands, operand.Inside P) :
    (command (.mk opcode operands)).Inside P :=
  inside_expression hplain h hoperands

lemma inside_readVariable (name : String) : (readVariable name).Inside P :=
  inside_expression hplain (by decide) (by simp)

end Meaning

lemma Modifier.inside_around (modifier : Modifier) (h : meaning.Inside P) :
    (modifier.around meaning).Inside P := by
  rw [around]
  induction modifier.layers with
  | nil => exact h
  | cons polarity layers ih =>
    cases polarity with
    | affirm => exact ih
    | negate =>
      exact Meaning.inside_expression hplain (by decide) (List.forall_mem_singleton.mpr ih)

lemma Comparator.inside_between (comparator : Comparator) {left right : Meaning}
    (hleft : left.Inside P) (hright : right.Inside P) :
    (comparator.between left right).Inside P := by
  have hcompare {opcode : String} (h : opcode ∉ Opcode.particular) :
      (Meaning.expression (.mk opcode [left, right])).Inside P :=
    Meaning.inside_expression hplain h (by simp [hleft, hright])
  have hrelation : (comparator.relation.between left right).Inside P := by
    cases comparator.relation with
    | less | greater | equal => exact hcompare (by decide)
    | greaterOrEqual | lessOrEqual =>
      refine Meaning.inside_expression hplain (by decide) ?_
      simp only [List.forall_mem_cons]
      exact ⟨hcompare (by decide), hcompare (by decide), List.forall_mem_nil _⟩
  rw [between]
  split
  · next modifier _ => exact modifier.inside_around hplain hrelation
  · exact hrelation

end

/-! ### Questions -/

namespace Call

variable {P : Block → Prop} {call : Call} {position : Nat} {environment : Environment}
  {meaning : Meaning}

/-- A list has only its name inside. -/
lemma inside_declaredList (h : call.declaredList environment position = .ok meaning) :
    meaning.Inside P := by
  obtain ⟨name, -, hrest⟩ := bind_eq_ok_iff.mp h
  obtain ⟨-, -, hmeaning⟩ := bind_eq_ok_iff.mp hrest
  exact Except.ok.inj hmeaning ▸ Meaning.inside_listName name

variable (hparts : ∀ part ∈ call.parts, part.Inside P)

include hparts

lemma inside_part (h : call.part position = .ok meaning) : meaning.Inside P :=
  hparts meaning (List.mem_of_getElem? (part_eq_ok_iff.mp h))

lemma inside_operand (h : call.operand position = .ok meaning) : meaning.Inside P :=
  inside_part hparts (part_of_operand h)

lemma inside_looseOperand (h : call.looseOperand position = .ok meaning) : meaning.Inside P := by
  obtain ⟨part, hpart, hmeaning⟩ := bind_eq_ok_iff.mp h
  split at hmeaning
  · split at hmeaning
    · exact Except.ok.inj hmeaning ▸ Meaning.inside_number _
    · exact Except.ok.inj hmeaning ▸ Meaning.inside_text _
  · split at hmeaning
    · exact Except.ok.inj hmeaning ▸ inside_part hparts hpart
    · cases hmeaning

lemma inside_condition (h : call.condition position = .ok meaning) : meaning.Inside P :=
  inside_part hparts (part_of_condition h)

lemma inside_declaredOperand (h : call.declaredOperand environment position = .ok meaning) :
    meaning.Inside P := by
  obtain ⟨operand, hoperand, hrest⟩ := bind_eq_ok_iff.mp h
  obtain ⟨-, -, hmeaning⟩ := bind_eq_ok_iff.mp hrest
  exact Except.ok.inj hmeaning ▸ inside_operand hparts hoperand

lemma inside_index (h : call.index environment position = .ok meaning) : meaning.Inside P :=
  inside_part hparts (part_of_index h)

lemma inside_actions {blocks : List Block} (h : call.actions position = .ok blocks) :
    (Meaning.commands blocks).Inside P := by
  obtain ⟨part, hpart, hblocks⟩ := bind_eq_ok_iff.mp h
  have hinside := inside_part hparts hpart
  cases part with
  | null => exact Except.ok.inj hblocks ▸ Meaning.inside_of_inner_eq_nil rfl
  | command block =>
    exact Except.ok.inj hblocks ▸
      Meaning.inside_commands_iff.mpr (List.forall_mem_singleton.mpr hinside)
  | commands blocks => exact Except.ok.inj hblocks ▸ hinside
  | _ => cases hblocks

lemma inside_scriptBody (h : call.scriptBody position = .ok meaning) : meaning.Inside P := by
  have hactions {blocks : List Block} (h : call.actions position = .ok blocks) :=
    inside_actions hparts h
  obtain ⟨part, hpart, hmeaning⟩ := bind_eq_ok_iff.mp h
  split at hmeaning
  · exact Except.ok.inj hmeaning ▸ inside_part hparts hpart
  · obtain ⟨blocks, hblocks, hcommands⟩ := bind_eq_ok_iff.mp hmeaning
    exact Except.ok.inj hcommands ▸ hactions (bind_eq_ok_iff.mpr ⟨part, hpart, hblocks⟩)

lemma inside_trigger {block : Block} (h : call.trigger position = .ok block) :
    (Meaning.command block).Inside P := by
  obtain ⟨part, hpart, hblock⟩ := bind_eq_ok_iff.mp h
  have hinside := inside_part hparts hpart
  split at hblock
  · exact Except.ok.inj hblock ▸ hinside
  · cases hblock

variable (hplain : ∀ opcode operands, opcode ∉ Opcode.particular → P (.mk opcode operands))

include hplain

lemma inside_amountOf {amount : Amount}
    (h : Construction.amountOf call environment amount = .ok meaning) : meaning.Inside P := by
  cases amount with
  | operand position => exact inside_declaredOperand hparts h
  | variableAt position =>
    obtain ⟨name, -, hrest⟩ := bind_eq_ok_iff.mp h
    obtain ⟨-, -, hmeaning⟩ := bind_eq_ok_iff.mp hrest
    exact Except.ok.inj hmeaning ▸ Meaning.inside_readVariable hplain name

lemma inside_leftSide {left : LeftSide} (h : Construction.leftSide call left = .ok meaning) :
    meaning.Inside P := by
  cases left with
  | variableName =>
    obtain ⟨name, -, hmeaning⟩ := bind_eq_ok_iff.mp h
    exact Except.ok.inj hmeaning ▸ Meaning.inside_readVariable hplain name
  | looseOperand => exact inside_looseOperand hparts h
  | operand => exact inside_operand hparts h

end Call

/-! ### Constructions -/

/-- Whatever a computation gives in a session is good. -/
def Promises {α : Type} (session : Session) (run : Attempt α) (good : α → Prop) : Prop :=
  ∀ result after, Gives run session result after → good result

section Promises

variable {session : Session} {α β : Type} {good : α → Prop} {good' : β → Prop}

lemma promises_pure {value : α} (h : good value) : Promises session (pure value) good := by
  intro result after hgives
  obtain ⟨rfl, -⟩ := gives_pure.mp hgives
  exact h

lemma promises_lift {value : Except Fault α} (h : ∀ {result}, value = .ok result → good result) :
    Promises session (liftM value) good :=
  fun _ _ hgives => h (gives_lift.mp hgives).1

/-- A question whose answer is good, and what is made of the answer. -/
lemma promises_ask {value : Except Fault α} {next : α → Attempt β}
    (h : ∀ {result}, value = .ok result → good result)
    (hnext : ∀ result, value = .ok result → good result → Promises session (next result) good') :
    Promises session (liftM value >>= next) good' := by
  intro result after hgives
  obtain ⟨answer, _, hanswer, hresult⟩ := gives_bind.mp hgives
  obtain ⟨hvalue, rfl⟩ := gives_lift.mp hanswer
  exact hnext answer hvalue (h hvalue) _ _ hresult

lemma promises_environment {next : Environment → Attempt β}
    (hnext : Promises session (next session.environment) good') :
    Promises session (Construction.environment >>= next) good' := by
  intro result after hgives
  obtain ⟨_, _, henvironment, hresult⟩ := gives_bind.mp hgives
  obtain ⟨rfl, rfl⟩ := gives_environment.mp henvironment
  exact hnext _ _ hresult

end Promises

namespace Construction

open Meaning

/-- The particular blocks that a construction makes of what it has asked its children for. -/
inductive Makes (call : Call) (environment : Environment) : Construction → Block → Prop where
  | appendItem {item list : Meaning} (hitem : call.declaredOperand environment 1 = .ok item)
      (hlist : call.declaredList environment 3 = .ok list) :
      Makes call environment .appendItem (.mk Opcode.appendToList [item, list])
  | deleteLine {index list : Nat} {place name : Meaning}
      (hplace : call.index environment index = .ok place)
      (hlist : call.declaredList environment list = .ok name) :
      Makes call environment (.deleteLine index list) (.mk Opcode.deleteLine [place, name])
  | setLine {index list item : Nat} {place name value : Meaning}
      (hplace : call.index environment index = .ok place)
      (hlist : call.declaredList environment list = .ok name)
      (hitem : call.declaredOperand environment item = .ok value) :
      Makes call environment (.setLine index list item) (.mk Opcode.setLine [place, name, value])
  | getLine {index list : Nat} {place name : Meaning}
      (hplace : call.index environment index = .ok place)
      (hlist : call.declaredList environment list = .ok name) :
      Makes call environment (.getLine index list) (.mk Opcode.getLine [place, name])
  | wordInList {item list : Meaning} (hitem : call.looseOperand 1 = .ok item)
      (hlist : call.declaredList environment 3 = .ok list) :
      Makes call environment .wordInList (.mk Opcode.listContains [list, item])
  | wordInListModified {item list : Meaning} (hitem : call.looseOperand 1 = .ok item)
      (hlist : call.declaredList environment 4 = .ok list) :
      Makes call environment .wordInListModified (.mk Opcode.listContains [list, item])
  | listContains {item list : Meaning} (hitem : call.operand 2 = .ok item)
      (hlist : call.declaredList environment 0 = .ok list) :
      Makes call environment .listContains (.mk Opcode.listContains [list, item])
  | repeatTimes {count : Double} {body : List Block} (hbody : call.actions 1 = .ok body)
      (hcount : call.count 2 = .ok count) :
      Makes call environment .repeatTimes
        (.mk Opcode.repeatTimes [.number count, .commands body])
  | repeatFor {body duration : Nat} {count : Double} {blocks : List Block}
      (hbody : call.actions body = .ok blocks)
      (hcount : call.part duration = .ok (.number count)) :
      Makes call environment (.repeatFor body duration)
        (.mk Opcode.repeatTimes [.number count, .commands blocks])

variable {P : Block → Prop} {call : Call} {construction : Construction}
  {before after : Session} {meaning : Meaning}

section

variable (hplain : ∀ opcode operands, opcode ∉ Opcode.particular → P (.mk opcode operands))

include hplain

/-- Meanings that are always the same have no particular blocks inside. -/
lemma inside_constant {signature : Signature}
    (h : constantSignature? meaning = some signature) : meaning.Inside P := by
  rw [constantSignature?.eq_def] at h
  split at h <;> simp only [Option.some.injEq, Option.bind_eq_some_iff,
    Option.ite_none_right_eq_some, reduceCtorEq] at h
  · exact inside_of_inner_eq_nil rfl
  · exact inside_of_inner_eq_nil rfl
  · obtain ⟨slots, hslots, form, -⟩ := h
    rw [constantSlots?.eq_def] at hslots
    split at hslots <;> simp only [Option.some.injEq, Option.ite_none_right_eq_some,
      reduceCtorEq] at hslots
    · subst hslots
      have hopcode := BlockKind.not_mem_particular form (by decide) (by decide)
      exact inside_command hplain hopcode (by simp)
    · obtain ⟨-, rfl⟩ := hslots
      have hopcode := BlockKind.not_mem_particular form (by decide) (by decide)
      exact inside_command hplain hopcode (by simp)
    · obtain ⟨-, rfl⟩ := hslots
      have hopcode := BlockKind.not_mem_particular form (by decide) (by decide)
      exact inside_command hplain hopcode (by simp)

lemma inside_repeated {body duration : Nat} {blocks : List Block} {length : Meaning}
    {environment : Environment}
    (hmakes : ∀ block, Makes call environment (.repeatFor body duration) block → P block)
    (hbody : call.actions body = .ok blocks) (hblocks : (commands blocks).Inside P)
    (hlength : call.part duration = .ok length)
    (h : repeated call duration blocks length = .ok meaning) : meaning.Inside P := by
  cases length with
  | number count =>
    obtain rfl := Except.ok.inj h
    exact inside_command_iff.mpr ⟨hmakes _ (.repeatFor hbody hlength), by simp [hblocks]⟩
  | text word =>
    rw [repeated] at h
    split at h
    · obtain rfl := Except.ok.inj h
      exact inside_command hplain (by decide) (by simp [hblocks])
    · cases h
  | _ => cases h

variable (hparts : ∀ part ∈ call.parts, part.Inside P)

include hparts

/-- What a construction gives that leaves the session alone. -/
lemma promises_build {signature : Signature} (h : construction.signature? = some signature)
    (hchanges : construction.changesSession = false)
    (hmakes : ∀ block, construction.Makes call before.environment block → P block) :
    Promises before (construction.build call) (Meaning.Inside P) := by
  cases construction <;>
    simp only [signature?, reduceCtorEq, Option.some.injEq, Option.ite_none_right_eq_some] at h
  case constant meaning => exact promises_pure (inside_constant hplain h)
  all_goals try cases hchanges
  all_goals
    rw [build]
    repeat' with_reducible first
      | refine promises_environment ?_
      | refine promises_ask (Call.inside_operand hparts) fun _ _ _ => ?_
      | refine promises_ask (Call.inside_looseOperand hparts) fun _ _ _ => ?_
      | refine promises_ask (Call.inside_condition hparts) fun _ _ _ => ?_
      | refine promises_ask (Call.inside_declaredOperand hparts) fun _ _ _ => ?_
      | refine promises_ask (Call.inside_amountOf hparts hplain) fun _ _ _ => ?_
      | refine promises_ask (Call.inside_index hparts) fun _ _ _ => ?_
      | refine promises_ask (Call.inside_leftSide hparts hplain) fun _ _ _ => ?_
      | refine promises_ask (Call.inside_actions hparts) fun _ _ _ => ?_
      | refine promises_ask (Call.inside_trigger hparts) fun _ _ _ => ?_
      | refine promises_ask (Call.inside_declaredList (P := P)) fun _ _ _ => ?_
      | refine promises_ask (fun _ => trivial) fun _ _ _ => ?_
      | refine promises_pure ?_
      | exact promises_lift (Call.inside_scriptBody hparts)
      | exact promises_lift (inside_repeated hplain hmakes ‹_› ‹_› ‹_›)
  case withNumber | withName =>
    exact inside_command hplain (BlockKind.not_mem_particular h.1 (by decide) (by decide))
      (by simp)
  case binary | junction =>
    exact inside_expression hplain (BlockKind.not_mem_particular h.1 (by decide) (by decide))
      (by simp [*])
  case appendItem => exact inside_command_iff.mpr ⟨hmakes _ (.appendItem ‹_› ‹_›), by simp [*]⟩
  case deleteLine => exact inside_command_iff.mpr ⟨hmakes _ (.deleteLine ‹_› ‹_›), by simp [*]⟩
  case setLine => exact inside_command_iff.mpr ⟨hmakes _ (.setLine ‹_› ‹_› ‹_›), by simp [*]⟩
  case getLine => exact inside_expression_iff.mpr ⟨hmakes _ (.getLine ‹_› ‹_›), by simp [*]⟩
  case wordInList => exact inside_expression_iff.mpr ⟨hmakes _ (.wordInList ‹_› ‹_›), by simp [*]⟩
  case wordInListModified =>
    exact Modifier.inside_around hplain _
      (inside_expression_iff.mpr ⟨hmakes _ (.wordInListModified ‹_› ‹_›), by simp [*]⟩)
  case listContains =>
    exact inside_expression_iff.mpr ⟨hmakes _ (.listContains ‹_› ‹_›), by simp [*]⟩
  case repeatTimes => exact inside_command_iff.mpr ⟨hmakes _ (.repeatTimes ‹_› ‹_›), by simp [*]⟩
  case compare | compareVariables =>
    exact Comparator.inside_between hplain _
      (by first | assumption | exact inside_readVariable hplain _)
      (by first | assumption | exact inside_readVariable hplain _)
  case modifyLiteral => exact Modifier.inside_around hplain _ ‹_›
  case whenTimer =>
    refine inside_command hplain (by decide) (List.forall_mem_singleton.mpr ?_)
    exact Comparator.inside_between hplain _ ‹_› ‹_›
  case concatenate => exact inside_append ‹_› ‹_›
  case handler => exact inside_cons ‹_› ‹_›
  case changeVariable =>
    refine inside_command hplain (by decide) ?_
    simp only [List.forall_mem_cons]
    refine ⟨inside_text _, ?_, List.forall_mem_nil _⟩
    split
    · exact inside_expression hplain (by decide) (by simp [*])
    · assumption
  all_goals first
    | exact inside_of_inner_eq_nil rfl
    | exact inside_readVariable hplain _
    | exact inside_expression hplain (by decide) (by simp [*])

/-- The blocks inside what a construction gives have a property that all blocks inside the
children have, all blocks that are not particular, and the particular blocks that the construction
makes. -/
theorem inside_build {signature : Signature} (hsignature : construction.signature? = some signature)
    (hmakes : ∀ block, construction.Makes call before.environment block → P block)
    (h : Gives (construction.build call) before meaning after) : meaning.Inside P := by
  cases hchanges : construction.changesSession with
  | false => exact promises_build hplain hparts hsignature hchanges hmakes _ _ h
  | true =>
    cases does_of_gives h with
    | nothing hnot =>
      rw [hnot] at hchanges
      cases hchanges
    | recordSequence hactions => exact Call.inside_scriptBody hparts hactions
    | createVariables | createList | deleteVariable => exact inside_of_inner_eq_nil rfl
    | setVariable _ hvalue =>
      have hinside := Call.inside_declaredOperand hparts hvalue
      exact inside_command hplain (by decide) (by simp [hinside])
    | scaleVariable _ hoperand =>
      obtain ⟨form, -⟩ := Option.ite_none_right_eq_some.mp hsignature
      have hinside := Call.inside_amountOf hparts hplain hoperand
      have hread := inside_readVariable hplain
      refine inside_command hplain (by decide) ?_
      simp only [List.forall_mem_cons]
      refine ⟨inside_text _, ?_, List.forall_mem_nil _⟩
      exact inside_expression hplain
        (BlockKind.not_mem_particular form (by decide) (by decide)) (by simp [hinside, hread])

/-- The same of a rule, which may also just pass a child on. -/
theorem inside_rule {rule : Grammar.Rule} (hrule : rule ∈ Grammar.standard)
    (hmakes : ∀ block, rule.2.Makes call before.environment block → P block)
    (h : Gives (rule.2.build call) before meaning after) : meaning.Inside P := by
  have hfits := Grammar.standard_fitsSenses hrule
  rw [Grammar.Rule.fitsSenses] at hfits
  split at hfits
  · next signature hsignature => exact inside_build hplain hparts hsignature hmakes h
  · split at hfits
    · next position hpass =>
      rw [hpass] at h
      exact Call.inside_part hparts (gives_lift.mp h).1
    · cases hfits

end

end Construction

end PhraseScript
