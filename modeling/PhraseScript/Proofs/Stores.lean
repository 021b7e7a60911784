import Mathlib.Logic.Function.Basic
import PhraseScript.Proofs.DeepSessions
import PhraseScript.Proofs.Phrases

/-!
# What commands do to variables

When a script runs, its variables stand for rational numbers, and two commands change them: one
assigns a value, the other adds one (`Block.execute`).  The phrases for changes of variables are
made into these two, which takes some rewriting: what is taken away is added with the opposite
sign, and a product or quotient is assigned in terms of the variable itself.

The table `Grammar.variableCommands` lists for each of these phrases what it says: which child
names the variable, which one the operand is, and what becomes of the value.  The main statement is
`Language.execute_of_interpret`: the command does to every store what the phrase says.
-/

namespace PhraseScript

/-! ### Running a command -/

instance : Inhabited Reporters :=
  ⟨{ ofVariable := fun _ => 0, ofTimer := 0, ofWord := fun _ => 0, ofLine := fun _ _ => 0,
     ofRandom := fun _ _ => 0, contains := fun _ _ => false, overZero := 0 }⟩

/-- The reporters, with the values of variables taken from a store. -/
def Reporters.inStore (R : Reporters) (store : String → ℚ) : Reporters :=
  { R with ofVariable := store }

/-- The store after a command.  Operands are evaluated in the store before it. -/
def Block.execute (R : Reporters) : Block → (String → ℚ) → String → ℚ
  | .mk opcode [.text name, operand], store =>
    let amount := operand.value (R.inStore store)
    if opcode = Opcode.setVariable then Function.update store name amount
    else if opcode = Opcode.changeVariable then
      Function.update store name (store name + amount)
    else store
  | _, store => store

section

variable {R : Reporters} {store : String → ℚ} {operand : Meaning} {amount : ℚ} {name : String}

lemma execute_setVariable (h : operand.argument (R.inStore store) = .amount amount) :
    (Block.mk Opcode.setVariable [.text name, operand]).execute R store =
      Function.update store name amount := by
  rw [Block.execute, if_pos rfl, Meaning.value, h]
  rfl

lemma execute_changeVariable (h : operand.argument (R.inStore store) = .amount amount) :
    (Block.mk Opcode.changeVariable [.text name, operand]).execute R store =
      Function.update store name (store name + amount) := by
  rw [Block.execute, if_neg (by decide), if_pos rfl, Meaning.value, h]
  rfl

/-- An operation on a variable and an operand, both in the store. -/
lemma argument_scaled (operation : Arithmetic)
    (h : operand.argument (R.inStore store) = .amount amount) :
    (Meaning.expression (.mk operation.opcode [.readVariable name, operand])).argument
        (R.inStore store) =
      .amount (operation.result (R.inStore store) (store name) amount) := by
  have hread : (Meaning.readVariable name).argument (R.inStore store) = .amount (store name) :=
    argument_readVariable
  cases operation <;> exact argument_binary _ rfl (by decide) hread h

end

/-! ### What phrases say about variables -/

/-- What becomes of the value of a variable. -/
inductive Alteration where
  /-- It becomes the operand. -/
  | set
  | increase
  | decrease
  | multiply
  | divide
deriving DecidableEq

/-- The value that a variable has in the end, by the value that it has had and the operand. -/
def Alteration.result (R : Reporters) : Alteration → ℚ → ℚ → ℚ
  | .set, _, amount => amount
  | .increase, old, amount => old + amount
  | .decrease, old, amount => old - amount
  | .multiply, old, amount => old * amount
  | .divide, old, amount => R.quotient old amount

/-- The operand of a change, by the position of the child that it is. -/
inductive Operand where
  | amount (child : Nat)
  /-- A condition, which counts as one or zero. -/
  | truth (child : Nat)
  /-- The value of a variable. -/
  | variableName (child : Nat)
deriving DecidableEq

namespace Operand

/-- The child that an operand is. -/
def child : Operand → Nat
  | .amount child | .truth child | .variableName child => child

/-- How the child is read. -/
def reading : Operand → Reading
  | .amount _ => .amount
  | .truth _ => .truth
  | .variableName _ => .variableName

/-- The number that an operand is, by what the child says. -/
def said (R : Reporters) (saying : Saying) : Operand → ℚ
  | .amount _ => saying.amount
  | .truth _ => truthValue saying.truth
  | .variableName _ => R.ofVariable saying.word

/-- A construction finds the operand where it is. -/
def isFoundBy : Operand → Amount → Bool
  | .amount child, .operand position | .truth child, .operand position
  | .variableName child, .variableAt position => child = position
  | _, _ => false

end Operand

/-- How a phrase for a change of a variable is read. -/
structure VariableCommand where
  alteration : Alteration
  /-- The child that names the variable. -/
  target : Nat
  operand : Operand

/-- A construction makes the command that a phrase says. -/
def VariableCommand.isMadeBy (command : VariableCommand) : Construction → Bool
  | .setVariable =>
    command.alteration = .set && command.target = 1 && command.operand.isFoundBy (.operand 3)
  | .changeVariable amount takenAway target =>
    command.alteration = (if takenAway then .decrease else .increase) && command.target = target &&
      command.operand.isFoundBy amount
  | .scaleVariable opcode amount =>
    (command.alteration = .multiply && opcode = Opcode.multiply ||
      command.alteration = .divide && opcode = Opcode.divide) &&
      command.target = 1 && command.operand.isFoundBy amount
  | _ => false

namespace Grammar

/-- The phrases for changes of variables. -/
def variableCommands : List (RuleKey × VariableCommand) :=
  [(⟨"DataCommand", ["Set", "VARIABLE_NAME", "To", "NP"]⟩, ⟨.set, 1, .amount 3⟩),
    (⟨"DataCommand", ["Set", "VARIABLE_NAME", "To", "BP"]⟩, ⟨.set, 1, .truth 3⟩),
    (⟨"DataCommand", ["Set", "VARIABLE_NAME", "To", "ITEM"]⟩, ⟨.set, 1, .amount 3⟩),
    (⟨"DataCommand", ["Add", "NP", "To", "VARIABLE_NAME"]⟩, ⟨.increase, 3, .amount 1⟩),
    (⟨"DataCommand", ["Add", "VARIABLE_NAME", "To", "VARIABLE_NAME"]⟩,
      ⟨.increase, 3, .variableName 1⟩),
    (⟨"DataCommand", ["Increment", "VARIABLE_NAME", "By", "NP"]⟩, ⟨.increase, 1, .amount 3⟩),
    (⟨"DataCommand", ["Subtract", "NP", "From", "VARIABLE_NAME"]⟩, ⟨.decrease, 3, .amount 1⟩),
    (⟨"DataCommand", ["Subtract", "VARIABLE_NAME", "From", "VARIABLE_NAME"]⟩,
      ⟨.decrease, 3, .variableName 1⟩),
    (⟨"DataCommand", ["Decrement", "VARIABLE_NAME", "By", "NP"]⟩, ⟨.decrease, 1, .amount 3⟩),
    (⟨"DataCommand", ["Multiply", "VARIABLE_NAME", "By", "NP"]⟩, ⟨.multiply, 1, .amount 3⟩),
    (⟨"DataCommand", ["Multiply", "VARIABLE_NAME", "By", "VARIABLE_NAME"]⟩,
      ⟨.multiply, 1, .variableName 3⟩),
    (⟨"DataCommand", ["Divide", "VARIABLE_NAME", "By", "NP"]⟩, ⟨.divide, 1, .amount 3⟩),
    (⟨"DataCommand", ["Divide", "VARIABLE_NAME", "By", "VARIABLE_NAME"]⟩,
      ⟨.divide, 1, .variableName 3⟩)]

/-- A rule is made for the phrase, and the children that the phrase is made of can be read. -/
def Rule.isVariableCommand (rule : Rule) (command : VariableCommand) : Bool :=
  command.isMadeBy rule.2 &&
    (rule.1.rhs[command.target]?).bind Reading.ofCategory? = some .variableName &&
    (rule.1.rhs[command.operand.child]?).bind Reading.ofCategory? = some command.operand.reading

/-- The phrases of the table are rules of the grammar, which are made for them. -/
lemma exists_isVariableCommand {key : RuleKey} {command : VariableCommand}
    (h : (key, command) ∈ variableCommands) :
    ∃ construction, (key, construction) ∈ standard ∧
      Rule.isVariableCommand (key, construction) command = true := by
  have hall : variableCommands.all (fun entry => standard.any fun rule =>
      decide (rule.1 = entry.1) && rule.isVariableCommand entry.2) = true := by
    decide +kernel
  obtain ⟨⟨other, construction⟩, hrule, hmade⟩ := List.any_eq_true.mp (List.all_eq_true.mp hall _ h)
  obtain ⟨hkey, hmade⟩ := Bool.and_eq_true_iff.mp hmade
  obtain rfl : other = key := of_decide_eq_true hkey
  exact ⟨construction, hrule, hmade⟩

end Grammar

/-! ### Constructions -/

namespace Construction

variable {call : Call} {before after : Session} {meaning part value : Meaning} {name other : String}
  {environment : Environment} {position : Nat}

lemma eq_of_part_variableName (hpart : call.part position = .ok (.variableName name))
    (h : call.variableName position = .ok other) : other = name :=
  (Meaning.variableName.inj (Except.ok.inj (hpart.symm.trans (Call.part_of_variableName h)))).symm

lemma eq_of_declaredVariable (hpart : call.part position = .ok (.variableName name))
    (h : call.declaredVariable environment position = .ok other) : other = name := by
  obtain ⟨found, hfound, hrest⟩ := bind_eq_ok_iff.mp h
  obtain ⟨-, -, hother⟩ := bind_eq_ok_iff.mp hrest
  exact Except.ok.inj hother ▸ eq_of_part_variableName hpart hfound

/-- The operand of a command has the value that the phrase says. -/
lemma argument_amountOf {operand : Operand} {amount : Amount}
    (hfound : operand.isFoundBy amount = true) (hpart : call.part operand.child = .ok part)
    (h : amountOf call environment amount = .ok value) {R : Reporters} {saying : Saying}
    (hagrees : operand.reading.Agrees R saying part) :
    value.argument R = .amount (operand.said R saying) := by
  have hoperand {position : Nat} (hchild : operand.child = position)
      (h : call.declaredOperand environment position = .ok value) : value = part := by
    obtain ⟨found, hfound, hrest⟩ := bind_eq_ok_iff.mp h
    obtain ⟨-, -, hvalue⟩ := bind_eq_ok_iff.mp hrest
    have hother := Call.part_of_operand hfound
    rw [← hchild, hpart] at hother
    exact (Except.ok.inj hvalue).symm.trans (Except.ok.inj hother).symm
  rw [Operand.isFoundBy.eq_def] at hfound
  split at hfound
  · obtain rfl := hoperand (of_decide_eq_true hfound) h
    exact hagrees
  · obtain rfl := hoperand (of_decide_eq_true hfound) h
    exact hagrees
  · next child position =>
    obtain rfl : child = position := of_decide_eq_true hfound
    obtain ⟨name, hname, hrest⟩ := bind_eq_ok_iff.mp h
    obtain ⟨-, -, hvalue⟩ := bind_eq_ok_iff.mp hrest
    obtain rfl : part = .variableName saying.word := hagrees
    rw [← Except.ok.inj hvalue, argument_readVariable, eq_of_part_variableName hpart hname]
    rfl
  · cases hfound

/-- What is taken away is added with the opposite sign. -/
lemma argument_takenAway {R : Reporters} {amount : ℚ} (h : value.argument R = .amount amount) :
    (Meaning.expression (.mk Opcode.multiply [value, minusOne])).argument R =
      .amount (-amount) := by
  rw [argument_binary Opcode.multiply rfl (by decide) h argument_minusOne, mul_neg_one]

/-- The command that a construction makes does what the phrase says, in every store in which the
child for the operand means what it says. -/
theorem execute_build {construction : Construction} {command : VariableCommand}
    (hmade : command.isMadeBy construction = true)
    (htarget : call.part command.target = .ok (.variableName name))
    (hpart : call.part command.operand.child = .ok part)
    (hbuild : Gives (construction.build call) before meaning after) :
    ∃ block, meaning = .command block ∧ ∀ R store saying,
      command.operand.reading.Agrees (R.inStore store) saying part →
        block.execute R store = Function.update store name
          (command.alteration.result R (store name)
            (command.operand.said (R.inStore store) saying)) := by
  obtain ⟨alteration, target, operand⟩ := command
  rw [VariableCommand.isMadeBy.eq_def] at hmade
  split at hmade
  · simp only [Bool.and_eq_true, decide_eq_true_eq] at hmade
    obtain ⟨⟨rfl, rfl⟩, hfound⟩ := hmade
    simp only [build, gives_bind, gives_lift, gives_environment] at hbuild
    obtain ⟨found, _, ⟨hname, rfl⟩, _, _, ⟨rfl, rfl⟩, value, _, ⟨hvalue, rfl⟩, hassign⟩ := hbuild
    obtain rfl := eq_of_part_variableName htarget hname
    obtain ⟨rfl, -⟩ := gives_assign hassign
    have hamount : amountOf _ _ (.operand 3) = .ok value := hvalue
    exact ⟨_, rfl, fun R store saying hagrees =>
      execute_setVariable (argument_amountOf hfound hpart hamount hagrees)⟩
  · next amount takenAway position =>
    simp only [Bool.and_eq_true, decide_eq_true_eq] at hmade
    obtain ⟨⟨rfl, rfl⟩, hfound⟩ := hmade
    simp only [build, gives_bind, gives_lift, gives_environment, gives_pure] at hbuild
    obtain ⟨_, _, ⟨rfl, rfl⟩, value, _, ⟨hvalue, rfl⟩, found, _, ⟨hname, rfl⟩, rfl, rfl⟩ := hbuild
    obtain rfl := eq_of_declaredVariable htarget hname
    refine ⟨_, rfl, fun R store saying hagrees => ?_⟩
    have hamount := argument_amountOf hfound hpart hvalue hagrees
    cases takenAway with
    | false => exact execute_changeVariable hamount
    | true =>
      refine (execute_changeVariable (argument_takenAway hamount)).trans ?_
      rw [← sub_eq_add_neg]
      rfl
  · next opcode amount =>
    simp only [Bool.and_eq_true, Bool.or_eq_true, decide_eq_true_eq] at hmade
    obtain ⟨⟨hscale, rfl⟩, hfound⟩ := hmade
    simp only [build, gives_bind, gives_lift, gives_environment] at hbuild
    obtain ⟨_, _, ⟨rfl, rfl⟩, value, _, ⟨hvalue, rfl⟩, found, _, ⟨hname, rfl⟩, hassign⟩ := hbuild
    obtain rfl := eq_of_declaredVariable htarget hname
    obtain ⟨rfl, -⟩ := gives_assign hassign
    refine ⟨_, rfl, fun R store saying hagrees => ?_⟩
    have hamount := argument_amountOf hfound hpart hvalue hagrees
    rcases hscale with ⟨rfl, rfl⟩ | ⟨rfl, rfl⟩
    · exact execute_setVariable (argument_scaled .product hamount)
    · exact execute_setVariable (argument_scaled .quotient hamount)
  · cases hmade

end Construction

namespace Language

variable {sounds : List String} {numbers : NumberWords}

/-- A child that can be read means what it says, whatever the reporters report. -/
lemma exists_agrees_of_threads {children : List Derivation} {before after : Session}
    {parts : List Meaning}
    (h : Threads (fun tree => Gives ((standard sounds numbers).evaluate tree)) children before
      parts after)
    {position : Nat} {reading : Reading}
    (hreading : ((children.map Derivation.category)[position]?).bind Reading.ofCategory? =
      some reading) :
    ∃ child part, children[position]? = some child ∧ parts[position]? = some part ∧
      ∀ R, reading.Agrees R (child.saying R numbers) part := by
  obtain ⟨category, hcategory, hreading⟩ := Option.bind_eq_some_iff.mp hreading
  rw [List.getElem?_map, Option.map_eq_some_iff] at hcategory
  obtain ⟨child, hchild, rfl⟩ := hcategory
  obtain ⟨start, part, stop, hpart, hgives, -⟩ := h.exists_of_getElem? hchild
  exact ⟨child, part, hchild, hpart,
    fun R => (agrees_steps R).evaluate child start part stop hgives reading hreading⟩

/-- The commands for changes of variables do what the phrases say.  In every store, and whatever
the other reporters report, the command gives the variable that the phrase names the value that
the phrase says, and leaves the others.  The phrase may be about the variable itself: all its parts
are taken in the store before the command. -/
theorem execute_of_interpret {key : RuleKey} {command : VariableCommand}
    (hcommand : (key, command) ∈ Grammar.variableCommands) {children : List Derivation}
    {span : Span} {session after : Session} {meaning : Meaning}
    (h : (standard sounds numbers).interpret (.node key.lhs key.rhs children span) session =
      .ok (meaning, after)) :
    ∃ target operand name block,
      children[command.target]? = some target ∧ children[command.operand.child]? = some operand ∧
      (∀ R, (target.saying R numbers).word = name) ∧ meaning = .command block ∧
      ∀ (R : Reporters) (store : String → ℚ),
        block.execute R store = Function.update store name
          (command.alteration.result R (store name)
            (command.operand.said (R.inStore store)
              (operand.saying (R.inStore store) numbers))) := by
  obtain ⟨construction, hrule, hfits⟩ := Grammar.exists_isVariableCommand hcommand
  simp only [Grammar.Rule.isVariableCommand, Bool.and_eq_true, decide_eq_true_eq] at hfits
  obtain ⟨⟨hmade, htarget⟩, hoperand⟩ := hfits
  obtain ⟨other, parts, between, hother, hcategories, hparts, hbuild⟩ :=
    gives_node_iff.mp (interpret_eq_ok_iff.mp h)
  obtain rfl := Grammar.construction_unique hrule hother
  rw [← hcategories] at htarget hoperand
  obtain ⟨target, named, htarget, hnamed, hname⟩ := exists_agrees_of_threads hparts htarget
  obtain ⟨operand, part, hoperand, hpart, hsaid⟩ := exists_agrees_of_threads hparts hoperand
  -- what is said of a variable is its name, in every store the same
  obtain ⟨name, rfl⟩ : ∃ name, named = .variableName name := ⟨_, hname default⟩
  obtain ⟨block, rfl, hexecute⟩ := Construction.execute_build hmade
    (Call.part_eq_ok_iff.mpr hnamed) (Call.part_eq_ok_iff.mpr hpart) hbuild
  exact ⟨target, operand, name, block, htarget, hoperand,
    fun R => (Meaning.variableName.inj (hname R)).symm, rfl,
    fun R store => hexecute R store _ (hsaid (R.inStore store))⟩

open PhraseScript.Derivation in
/-- "Multiply x by x" makes its square of x. -/
theorem execute_of_interpret_squaring :
    let squaring := apply "DataCommand" [word "Multiply" "multiply", word "VARIABLE_NAME" "x",
      word "By" "by", word "VARIABLE_NAME" "x"]
    ∃ block after, (standard [] .numerals).interpret squaring Session.withX =
        .ok (.command block, after) ∧
      ∀ R store, block.execute R store = Function.update store "x" (store "x" * store "x") := by
  intro squaring
  have hdone : ((standard [] .numerals).interpret squaring Session.withX).toBool = true := by
    rw [interpret, evaluate_standard]
    decide +kernel
  cases hmeaning : (standard [] .numerals).interpret squaring Session.withX with
  | error failure =>
    rw [hmeaning] at hdone
    cases hdone
  | ok result =>
    obtain ⟨meaning, after⟩ := result
    have hcommand : (⟨"DataCommand", ["Multiply", "VARIABLE_NAME", "By", "VARIABLE_NAME"]⟩,
        ⟨.multiply, 1, .variableName 3⟩) ∈ Grammar.variableCommands := by
      simp [Grammar.variableCommands]
    obtain ⟨target, operand, name, block, htarget, hoperand, hname, rfl, hexecute⟩ :=
      execute_of_interpret hcommand hmeaning
    obtain rfl := Option.some.inj htarget
    obtain rfl := Option.some.inj hoperand
    have hx : (Text.toLower "x") = "x" := by decide +kernel
    obtain rfl : "x" = name := hx.symm.trans (hname default)
    refine ⟨block, after, rfl, fun R store => (hexecute R store).trans ?_⟩
    simp [Alteration.result, Operand.said, Reporters.inStore, saying, word,
      Reporters.sayingOfWord, hx]

end Language

end PhraseScript
