import PhraseScript.Grammar.Standard
import PhraseScript.Proofs.Children
import PhraseScript.Proofs.Integers

/-!
# What constructions ask for and what they give

A construction asks for some of its children, each with a sense, and then gives a meaning of a
certain sense (`Construction.signature?`).  The main statement is `Construction.ensures_build`:
if the children are as the signature asks, the construction gives a meaning of its sense, or has
a fault that `Call.Tolerates`.

The proof has one lemma for each construction (`ensures_doIf` and so on), which follows the
questions that the construction asks.
-/

namespace PhraseScript

/-! ### Conditions -/

section Conditions

variable {admissible : Double → Prop} {left right meaning : Meaning}

lemma Polarity.fits_around (polarity : Polarity) (h : Fits admissible .condition meaning) :
    Fits admissible .condition (polarity.around meaning) := by
  cases polarity with
  | affirm => exact h
  | negate => exact .predicate (.unary (by decide) h)

lemma Modifier.fits_around (modifier : Modifier) (h : Fits admissible .condition meaning) :
    Fits admissible .condition (modifier.around meaning) := by
  rw [around]
  -- the layers are put around one by one, the last one first
  induction modifier.layers with
  | nil => exact h
  | cons polarity layers ih => exact polarity.fits_around ih

lemma Relation.fits_between (relation : Relation) (hleft : Fits admissible .operand left)
    (hright : Fits admissible .operand right) :
    Fits admissible .condition (relation.between left right) := by
  have compare {opcode : String}
      (form : (opcode, [.operand, .operand]) ∈ BlockKind.predicate.forms) :
      Fits admissible .condition (.expression (.mk opcode [left, right])) :=
    .predicate (.binary form hleft hright)
  cases relation with
  | less => exact compare (by decide)
  | greater => exact compare (by decide)
  | equal => exact compare (by decide)
  | greaterOrEqual =>
    exact .predicate (.binary (by decide) (compare (by decide)) (compare (by decide)))
  | lessOrEqual =>
    exact .predicate (.binary (by decide) (compare (by decide)) (compare (by decide)))

lemma Comparator.fits_between (comparator : Comparator) (hleft : Fits admissible .operand left)
    (hright : Fits admissible .operand right) :
    Fits admissible .condition (comparator.between left right) := by
  rw [between]
  split
  · next modifier _ => exact modifier.fits_around (comparator.relation.fits_between hleft hright)
  · exact comparator.relation.fits_between hleft hright

end Conditions

/-! ### Signatures -/

/-- A child that a construction asks for: its position, and the sense that it has to have. -/
abbrev Demand := Nat × Sense

/-- The child that an amount is taken from. -/
def Amount.demand : Amount → Demand
  | .operand position => (position, .value)
  | .variableAt position => (position, .variableName)

/-- The child that the left side of a comparison is taken from. -/
def LeftSide.demand : LeftSide → Demand
  | .variableName => (0, .variableName)
  | .looseOperand => (0, .word)
  | .operand => (0, .operand)

/-- What a construction asks of its children, and the sense of what it gives. -/
structure Signature where
  demands : List Demand
  sense : Sense

namespace Construction

/-- The slots that the operands of a command fill which is always the same. -/
def constantSlots? : List Meaning → Option (List Slot)
  | [] => some []
  | [.number x] => if x.IsFinite then some [.number] else none
  | [.text text] => if text = "myself" then some [.myself] else none
  | _ => none

/-- The signature of a construction that gives the same meaning always. -/
def constantSignature? : Meaning → Option Signature
  | .null => some ⟨[], .nothing⟩
  | .comparator _ => some ⟨[], .comparator⟩
  | .command (.mk opcode operands) =>
    (constantSlots? operands).bind fun slots =>
      if (opcode, slots) ∈ BlockKind.command.forms then some ⟨[], .command⟩ else none
  | _ => none

/-- What a construction asks of its children, and the sense of what it gives.  A construction
that passes a child on has no signature of its own, and one with a wrong opcode has none. -/
def signature? : Construction → Option Signature
  | .pass _ => none
  | .constant meaning => constantSignature? meaning
  | .singleAction => some ⟨[(0, .action)], .script⟩
  | .concatenate first second => some ⟨[(first, .action), (second, .action)], .script⟩
  | .recordSequence => some ⟨[(1, .action)], .script⟩
  | .withNumber opcode position =>
    if (opcode, [.number]) ∈ BlockKind.command.forms then some ⟨[(position, .word)], .command⟩
    else none
  | .withName opcode position =>
    if (opcode, [.text]) ∈ BlockKind.command.forms then some ⟨[(position, .name)], .command⟩
    else none
  | .declareOne => some ⟨[(0, .variableName)], .declaration⟩
  | .declareMore => some ⟨[(0, .variableName), (2, .declaration)], .declaration⟩
  | .createVariables => some ⟨[(1, .declaration)], .statement⟩
  | .createList => some ⟨[(2, .listName)], .statement⟩
  | .deleteVariable => some ⟨[(1, .variableName)], .statement⟩
  | .setVariable => some ⟨[(1, .variableName), (3, .content)], .command⟩
  | .changeVariable amount _ target =>
    some ⟨[amount.demand, (target, .variableName)], .command⟩
  | .scaleVariable opcode amount =>
    if (opcode, [.value, .value]) ∈ BlockKind.reporter.forms then
      some ⟨[amount.demand, (1, .variableName)], .command⟩
    else none
  | .readVariable => some ⟨[(0, .variableName)], .value⟩
  | .appendItem => some ⟨[(1, .operand), (3, .listName)], .command⟩
  | .deleteLine index list => some ⟨[(index, .value), (list, .listName)], .command⟩
  | .setLine index list item =>
    some ⟨[(index, .value), (list, .listName), (item, .operand)], .command⟩
  | .getLine index list => some ⟨[(index, .value), (list, .listName)], .reporter⟩
  | .wordInList => some ⟨[(1, .word), (3, .listName)], .condition⟩
  | .wordInListModified => some ⟨[(1, .word), (2, .modifier), (4, .listName)], .condition⟩
  | .listContains => some ⟨[(0, .listName), (2, .operand)], .condition⟩
  | .numeral => some ⟨[(0, .word)], .value⟩
  | .binary opcode left right =>
    if (opcode, [.value, .value]) ∈ BlockKind.reporter.forms then
      some ⟨[(left, .value), (right, .value)], .reporter⟩
    else none
  | .negative => some ⟨[(1, .value)], .reporter⟩
  | .modifyComparator => some ⟨[(0, .modifier), (1, .comparator)], .comparator⟩
  | .compare left => some ⟨[left.demand, (1, .comparator), (2, .word)], .condition⟩
  | .compareVariables =>
    some ⟨[(0, .variableName), (1, .comparator), (2, .variableName)], .condition⟩
  | .modifyLiteral => some ⟨[(0, .modifier), (1, .condition)], .condition⟩
  | .junction opcode =>
    if (opcode, [.condition, .condition]) ∈ BlockKind.predicate.forms then
      some ⟨[(0, .condition), (2, .condition)], .condition⟩
    else none
  | .doIf => some ⟨[(1, .condition), (3, .action)], .command⟩
  | .doIfElse => some ⟨[(1, .condition), (3, .action), (7, .action)], .command⟩
  | .waitUntil => some ⟨[(2, .condition)], .command⟩
  | .repeatUntil => some ⟨[(1, .action), (3, .condition)], .command⟩
  | .repeatForever => some ⟨[(1, .action)], .command⟩
  | .repeatTimes => some ⟨[(1, .action), (2, .word)], .command⟩
  | .countTimes => some ⟨[(0, .word)], .duration⟩
  | .repeatFor body duration => some ⟨[(body, .action), (duration, .duration)], .command⟩
  | .whenTimer => some ⟨[(1, .operand), (2, .comparator), (3, .operand)], .command⟩
  | .handler => some ⟨[(0, .command), (1, .action)], .handler⟩

end Construction

/-! ### Each construction gives what its signature says -/

namespace Construction

open Call Sense

variable {admissible : Double → Prop} {call : Call}

section Structure

lemma ensures_singleAction (h : call.Has admissible 0 .action) :
    Ensures (build .singleAction call) (Admits admissible .script) call.Tolerates := by
  -- this also makes the equations of `build`, for all later proofs that rewrite with them
  rw [build]
  exact .lift (yields_scriptBody h)

lemma ensures_concatenate {first second : Nat} (hfirst : call.Has admissible first .action)
    (hsecond : call.Has admissible second .action) :
    Ensures (build (.concatenate first second) call) (Admits admissible .script)
      call.Tolerates := by
  refine .bind (.lift (yields_actions hfirst)) fun before hbefore => ?_
  refine .bind (.lift (yields_actions hsecond)) fun after hafter => .pure ?_
  exact List.forall_mem_append.mpr ⟨hbefore, hafter⟩

lemma firstDeferred?_eq_none_of_script {meaning : Meaning}
    (h : Admits admissible .script meaning) : meaning.firstDeferred? = none := by
  cases meaning with
  | commands blocks | handler blocks => exact (Fits.body h).firstDeferred?_eq_none
  | _ => exact h.elim

/-- A sequence has a form in scripts, so that it can always be recorded. -/
lemma ensures_recordSequence (h : call.Has admissible 1 .action) :
    Ensures (build .recordSequence call) (Admits admissible .script) call.Tolerates := by
  refine .bind (.lift (yields_scriptBody h)) fun actions hactions => ?_
  refine .bind .get fun session _ => ?_
  dsimp only
  split
  · have hwire : Yields actions.toWire (fun _ => True) call.Tolerates := by
      rw [Meaning.toWire_eq_ok (firstDeferred?_eq_none_of_script hactions)]
      exact .ok trivial
    refine .bind (.lift hwire) fun wire _ => ?_
    exact .bind .modify fun _ _ => .pure hactions
  · exact .pure hactions

lemma ensures_handler (htrigger : call.Has admissible 0 .command)
    (hbody : call.Has admissible 1 .action) :
    Ensures (build .handler call) (Admits admissible .handler) call.Tolerates := by
  refine .bind (.lift (yields_trigger htrigger)) fun trigger htrigger => ?_
  refine .bind (.lift (yields_actions hbody)) fun body hbody => .pure ?_
  exact List.forall_mem_cons.mpr ⟨htrigger, hbody⟩

end Structure

section Commands

lemma ensures_withNumber (hnumbers : call.numbers.Only admissible) {opcode : String}
    {position : Nat} (form : (opcode, [.number]) ∈ BlockKind.command.forms)
    (h : call.Has admissible position .word) :
    Ensures (build (.withNumber opcode position) call) (Admits admissible .command)
      call.Tolerates :=
  .bind (.lift (yields_number hnumbers h)) fun _ hx => .pure (.unary form (.number hx))

lemma ensures_withName {opcode : String} {position : Nat}
    (form : (opcode, [.text]) ∈ BlockKind.command.forms)
    (h : call.Has admissible position .name) :
    Ensures (build (.withName opcode position) call) (Admits admissible .command)
      call.Tolerates :=
  .bind (.lift (yields_name h)) fun name _ => .pure (.unary form (.text name))

lemma ensures_doIf (hcondition : call.Has admissible 1 .condition)
    (hbody : call.Has admissible 3 .action) :
    Ensures (build .doIf call) (Admits admissible .command) call.Tolerates := by
  refine .bind (.lift (yields_condition hcondition)) fun condition hcondition => ?_
  refine .bind (.lift (yields_actions hbody)) fun body hbody => .pure ?_
  exact .binary (by decide) hcondition (.body hbody)

lemma ensures_doIfElse (hcondition : call.Has admissible 1 .condition)
    (hbody : call.Has admissible 3 .action) (hotherwise : call.Has admissible 7 .action) :
    Ensures (build .doIfElse call) (Admits admissible .command) call.Tolerates := by
  refine .bind (.lift (yields_condition hcondition)) fun condition hcondition => ?_
  refine .bind (.lift (yields_actions hbody)) fun body hbody => ?_
  refine .bind (.lift (yields_actions hotherwise)) fun otherwise hotherwise => .pure ?_
  exact .ternary (by decide) hcondition (.body hbody) (.body hotherwise)

lemma ensures_waitUntil (h : call.Has admissible 2 .condition) :
    Ensures (build .waitUntil call) (Admits admissible .command) call.Tolerates :=
  .bind (.lift (yields_condition h)) fun _ hcondition => .pure (.unary (by decide) hcondition)

lemma ensures_repeatUntil (hbody : call.Has admissible 1 .action)
    (hcondition : call.Has admissible 3 .condition) :
    Ensures (build .repeatUntil call) (Admits admissible .command) call.Tolerates := by
  refine .bind (.lift (yields_actions hbody)) fun body hbody => ?_
  refine .bind (.lift (yields_condition hcondition)) fun condition hcondition => .pure ?_
  exact .binary (by decide) hcondition (.body hbody)

lemma ensures_repeatForever (h : call.Has admissible 1 .action) :
    Ensures (build .repeatForever call) (Admits admissible .command) call.Tolerates :=
  .bind (.lift (yields_actions h)) fun _ hbody => .pure (.unary (by decide) (.body hbody))

lemma ensures_repeatTimes (hnumbers : call.numbers.Only admissible)
    (hbody : call.Has admissible 1 .action) (hcount : call.Has admissible 2 .word) :
    Ensures (build .repeatTimes call) (Admits admissible .command) call.Tolerates := by
  refine .bind (.lift (yields_actions hbody)) fun body hbody => ?_
  refine .bind (.lift (yields_count hnumbers hcount)) fun count hcount => .pure ?_
  exact .binary (by decide) (.count hcount.1 hcount.2) (.body hbody)

lemma ensures_countTimes (hnumbers : call.numbers.Only admissible)
    (h : call.Has admissible 0 .word) :
    Ensures (build .countTimes call) (Admits admissible .duration) call.Tolerates :=
  .bind (.lift (yields_count hnumbers h)) fun _ hcount => .pure hcount

/-- A duration is a number of times or the word for an endless one, so that every duration can
be repeated for. -/
lemma yields_repeated {position : Nat} {body : List Block} {duration : Meaning}
    (hbody : AllCommands admissible body) (hduration : Admits admissible .duration duration) :
    Yields (repeated call position body duration) (Admits admissible .command)
      call.Tolerates := by
  cases duration with
  | number count => exact .ok (.binary (by decide) (.count hduration.1 hduration.2) (.body hbody))
  | text word =>
    rw [repeated, if_pos (show word = Lexicon.forever from hduration)]
    exact .ok (.unary (by decide) (.body hbody))
  | _ => exact hduration.elim

lemma ensures_repeatFor {body duration : Nat} (hbody : call.Has admissible body .action)
    (hduration : call.Has admissible duration .duration) :
    Ensures (build (.repeatFor body duration) call) (Admits admissible .command)
      call.Tolerates := by
  refine .bind (.lift (yields_actions hbody)) fun blocks hblocks => ?_
  refine .bind (.lift (yields_part hduration)) fun meaning hmeaning => ?_
  exact .lift (yields_repeated hblocks hmeaning)

lemma ensures_whenTimer (htimer : call.Has admissible 1 .operand)
    (hcomparator : call.Has admissible 2 .comparator)
    (hthreshold : call.Has admissible 3 .operand) :
    Ensures (build .whenTimer call) (Admits admissible .command) call.Tolerates := by
  refine .bind (.lift (yields_operand htimer (by decide))) fun timer htimer => ?_
  refine .bind (.lift (yields_comparator hcomparator)) fun comparator _ => ?_
  refine .bind (.lift (yields_operand hthreshold (by decide))) fun threshold hthreshold => .pure ?_
  exact .unary (by decide) (comparator.fits_between htimer hthreshold)

end Commands

section Data

lemma ensures_declareOne (h : call.Has admissible 0 .variableName) :
    Ensures (build .declareOne call) (Admits admissible .declaration) call.Tolerates :=
  .bind (.lift (yields_variableName h)) fun _ _ => .pure rfl

lemma ensures_declareMore (hname : call.Has admissible 0 .variableName)
    (hrest : call.Has admissible 2 .declaration) :
    Ensures (build .declareMore call) (Admits admissible .declaration) call.Tolerates := by
  refine .bind (.lift (yields_variableName hname)) fun name _ => ?_
  exact .bind (.lift (yields_declaration hrest)) fun rest hkind => .pure hkind

lemma ensures_createVariables (h : call.Has admissible 1 .declaration) :
    Ensures (build .createVariables call) (Admits admissible .statement) call.Tolerates := by
  refine .bind (.lift (yields_variableDeclaration h)) fun names _ => ?_
  refine .bind .environment fun environment _ => ?_
  exact .bind .setEnvironment fun _ _ => .pure trivial

lemma ensures_createList (h : call.Has admissible 2 .listName) :
    Ensures (build .createList call) (Admits admissible .statement) call.Tolerates := by
  refine .bind (.lift (yields_listName h)) fun name _ => ?_
  refine .bind .environment fun environment _ => ?_
  exact .bind .setEnvironment fun _ _ => .pure trivial

lemma yields_deleteVariable {environment : Environment} {name : String} :
    Yields (environment.deleteVariable name) (fun _ => True) call.Tolerates :=
  yields_requireVariable.bind fun _ _ => .ok trivial

lemma ensures_deleteVariable (h : call.Has admissible 1 .variableName) :
    Ensures (build .deleteVariable call) (Admits admissible .statement) call.Tolerates := by
  refine .bind (.lift (yields_variableName h)) fun name _ => ?_
  refine .bind .environment fun environment _ => ?_
  refine .bind (.lift yields_deleteVariable) fun after _ => ?_
  exact .bind .setEnvironment fun _ _ => .pure trivial

/-- What a variable can hold has a form in scripts, so that it can always be stored. -/
lemma ensures_assign {name : String} {value : Meaning} (h : Fits admissible .content value) :
    Ensures (assign name value) (Admits admissible .command) call.Tolerates := by
  have hwire : Yields value.toWire (fun _ => True) call.Tolerates := by
    rw [Meaning.toWire_eq_ok h.firstDeferred?_eq_none]
    exact .ok trivial
  refine .bind (.lift hwire) fun wire _ => ?_
  refine .bind .environment fun environment _ => ?_
  have hassign : Yields (environment.assign name wire) (fun _ => True) call.Tolerates :=
    yields_requireVariable.bind fun _ _ => .ok trivial
  refine .bind (.lift hassign) fun after _ => ?_
  exact .bind .setEnvironment fun _ _ => .pure (.binary (by decide) (.text name) h)

lemma ensures_setVariable (hname : call.Has admissible 1 .variableName)
    (hvalue : call.Has admissible 3 .content) :
    Ensures (build .setVariable call) (Admits admissible .command) call.Tolerates := by
  refine .bind (.lift (yields_variableName hname)) fun name _ => ?_
  refine .bind .environment fun environment _ => ?_
  refine .bind (.lift (yields_declaredOperand hvalue (by decide))) fun value hvalue => ?_
  exact ensures_assign hvalue

lemma yields_amountOf {environment : Environment} {amount : Amount}
    (h : call.Has admissible amount.demand.1 amount.demand.2) :
    Yields (amountOf call environment amount) (Fits admissible .value) call.Tolerates := by
  cases amount with
  | operand position =>
    have hvalue : call.Has admissible position .value := h
    exact yields_declaredOperand hvalue (by decide)
  | variableAt position => exact yields_declaredRead h

lemma fits_minusOne (hfinite : ∀ x : Double, x.IsFinite → admissible x) :
    Fits admissible .value minusOne :=
  .constant (Double.ofInt_of_isFinite hfinite (by decide))

lemma ensures_changeVariable {amount : Amount} {takenAway : Bool} {target : Nat}
    (hamount : call.Has admissible amount.demand.1 amount.demand.2)
    (htarget : call.Has admissible target .variableName)
    (hfinite : ∀ x : Double, x.IsFinite → admissible x) :
    Ensures (build (.changeVariable amount takenAway target) call) (Admits admissible .command)
      call.Tolerates := by
  refine .bind .environment fun environment _ => ?_
  refine .bind (.lift (yields_amountOf hamount)) fun amount hamount => ?_
  refine .bind (.lift (yields_declaredVariable htarget)) fun name _ => .pure ?_
  have hchange : Fits admissible .value (if takenAway then
      .expression (.mk Opcode.multiply [amount, minusOne]) else amount) := by
    split
    · exact .reporter (.binary (by decide) hamount (fits_minusOne hfinite))
    · exact hamount
  exact .binary (by decide) (.text name) hchange

lemma ensures_scaleVariable {opcode : String} {amount : Amount}
    (form : (opcode, [.value, .value]) ∈ BlockKind.reporter.forms)
    (hamount : call.Has admissible amount.demand.1 amount.demand.2)
    (htarget : call.Has admissible 1 .variableName) :
    Ensures (build (.scaleVariable opcode amount) call) (Admits admissible .command)
      call.Tolerates := by
  refine .bind .environment fun environment _ => ?_
  refine .bind (.lift (yields_amountOf hamount)) fun amount hamount => ?_
  refine .bind (.lift (yields_declaredVariable htarget)) fun name _ => ?_
  refine ensures_assign (.operandContent (.valueOperand (.reporter ?_)))
  exact .binary form (fits_readVariable name) hamount

end Data

section Lists

lemma ensures_appendItem (hitem : call.Has admissible 1 .operand)
    (hlist : call.Has admissible 3 .listName) :
    Ensures (build .appendItem call) (Admits admissible .command) call.Tolerates := by
  refine .bind .environment fun environment _ => ?_
  refine .bind (.lift (yields_declaredOperand hitem (by decide))) fun item hitem => ?_
  refine .bind (.lift (yields_declaredList hlist)) fun list hlist => .pure ?_
  exact .binary (by decide) hitem hlist

lemma ensures_deleteLine {index list : Nat} (hindex : call.Has admissible index .value)
    (hlist : call.Has admissible list .listName) :
    Ensures (build (.deleteLine index list) call) (Admits admissible .command)
      call.Tolerates := by
  refine .bind .environment fun environment _ => ?_
  refine .bind (.lift (yields_index hindex)) fun index hindex => ?_
  refine .bind (.lift (yields_declaredList hlist)) fun list hlist => .pure ?_
  exact .binary (by decide) hindex hlist

lemma ensures_setLine {index list item : Nat} (hindex : call.Has admissible index .value)
    (hlist : call.Has admissible list .listName) (hitem : call.Has admissible item .operand) :
    Ensures (build (.setLine index list item) call) (Admits admissible .command)
      call.Tolerates := by
  refine .bind .environment fun environment _ => ?_
  refine .bind (.lift (yields_index hindex)) fun index hindex => ?_
  refine .bind (.lift (yields_declaredList hlist)) fun list hlist => ?_
  refine .bind (.lift (yields_declaredOperand hitem (by decide))) fun item hitem => .pure ?_
  exact .ternary (by decide) hindex hlist hitem

lemma ensures_getLine {index list : Nat} (hindex : call.Has admissible index .value)
    (hlist : call.Has admissible list .listName) :
    Ensures (build (.getLine index list) call) (Admits admissible .reporter)
      call.Tolerates := by
  refine .bind .environment fun environment _ => ?_
  refine .bind (.lift (yields_index hindex)) fun index hindex => ?_
  refine .bind (.lift (yields_declaredList hlist)) fun list hlist => .pure ?_
  exact .binary (by decide) hindex hlist

lemma fits_containsItem {list item : Meaning} (hlist : Fits admissible .list list)
    (hitem : Fits admissible .operand item) :
    Fits admissible .condition (containsItem list item) :=
  .predicate (.binary (by decide) hlist hitem)

lemma ensures_wordInList (hnumbers : call.numbers.Only admissible)
    (hitem : call.Has admissible 1 .word) (hlist : call.Has admissible 3 .listName) :
    Ensures (build .wordInList call) (Admits admissible .condition) call.Tolerates := by
  refine .bind (.lift (yields_looseOperand hnumbers hitem)) fun item hitem => ?_
  refine .bind .environment fun environment _ => ?_
  refine .bind (.lift (yields_declaredList hlist)) fun list hlist => .pure ?_
  exact fits_containsItem hlist hitem

lemma ensures_wordInListModified (hnumbers : call.numbers.Only admissible)
    (hitem : call.Has admissible 1 .word) (hmodifier : call.Has admissible 2 .modifier)
    (hlist : call.Has admissible 4 .listName) :
    Ensures (build .wordInListModified call) (Admits admissible .condition) call.Tolerates := by
  refine .bind (.lift (yields_looseOperand hnumbers hitem)) fun item hitem => ?_
  refine .bind (.lift (yields_modifier hmodifier)) fun modifier _ => ?_
  refine .bind .environment fun environment _ => ?_
  refine .bind (.lift (yields_declaredList hlist)) fun list hlist => .pure ?_
  exact modifier.fits_around (fits_containsItem hlist hitem)

lemma ensures_listContains (hlist : call.Has admissible 0 .listName)
    (hitem : call.Has admissible 2 .operand) :
    Ensures (build .listContains call) (Admits admissible .condition) call.Tolerates := by
  refine .bind .environment fun environment _ => ?_
  refine .bind (.lift (yields_declaredList hlist)) fun list hlist => ?_
  refine .bind (.lift (yields_operand hitem (by decide))) fun item hitem => .pure ?_
  exact fits_containsItem hlist hitem

end Lists

section Expressions

lemma ensures_readVariable (h : call.Has admissible 0 .variableName) :
    Ensures (build .readVariable call) (Admits admissible .value) call.Tolerates :=
  .bind (.lift (yields_variableName h)) fun name _ => .pure (fits_readVariable name)

lemma ensures_numeral (hnumbers : call.numbers.Only admissible)
    (h : call.Has admissible 0 .word) :
    Ensures (build .numeral call) (Admits admissible .value) call.Tolerates :=
  .bind (.lift (yields_number hnumbers h)) fun _ hx => .pure (.constant hx)

lemma ensures_binary {opcode : String} {left right : Nat}
    (form : (opcode, [.value, .value]) ∈ BlockKind.reporter.forms)
    (hleft : call.Has admissible left .value) (hright : call.Has admissible right .value) :
    Ensures (build (.binary opcode left right) call) (Admits admissible .reporter)
      call.Tolerates := by
  refine .bind (.lift (yields_operand hleft (by decide))) fun left hleft => ?_
  refine .bind (.lift (yields_operand hright (by decide))) fun right hright => .pure ?_
  exact .binary form hleft hright

lemma ensures_negative (h : call.Has admissible 1 .value)
    (hfinite : ∀ x : Double, x.IsFinite → admissible x) :
    Ensures (build .negative call) (Admits admissible .reporter) call.Tolerates := by
  refine .bind (.lift (yields_operand h (by decide))) fun operand hoperand => .pure ?_
  exact .binary (by decide) (fits_minusOne hfinite) hoperand

lemma ensures_modifyComparator (hmodifier : call.Has admissible 0 .modifier)
    (hcomparator : call.Has admissible 1 .comparator) :
    Ensures (build .modifyComparator call) (Admits admissible .comparator) call.Tolerates := by
  refine .bind (.lift (yields_modifier hmodifier)) fun modifier _ => ?_
  exact .bind (.lift (yields_comparator hcomparator)) fun comparator _ => .pure trivial

lemma yields_leftSide (hnumbers : call.numbers.Only admissible) {left : LeftSide}
    (h : call.Has admissible left.demand.1 left.demand.2) :
    Yields (leftSide call left) (Fits admissible .operand) call.Tolerates := by
  cases left with
  | variableName =>
    exact (yields_variableName h).bind fun name _ => .ok (.valueOperand (fits_readVariable name))
  | looseOperand => exact yields_looseOperand hnumbers h
  | operand =>
    have hoperand : call.Has admissible 0 .operand := h
    exact yields_operand hoperand (by decide)

lemma ensures_compare (hnumbers : call.numbers.Only admissible) {left : LeftSide}
    (hleft : call.Has admissible left.demand.1 left.demand.2)
    (hcomparator : call.Has admissible 1 .comparator) (hright : call.Has admissible 2 .word) :
    Ensures (build (.compare left) call) (Admits admissible .condition) call.Tolerates := by
  refine .bind (.lift (yields_leftSide hnumbers hleft)) fun left hleft => ?_
  refine .bind (.lift (yields_comparator hcomparator)) fun comparator _ => ?_
  refine .bind (.lift (yields_looseOperand hnumbers hright)) fun right hright => .pure ?_
  exact comparator.fits_between hleft hright

lemma ensures_compareVariables (hleft : call.Has admissible 0 .variableName)
    (hcomparator : call.Has admissible 1 .comparator)
    (hright : call.Has admissible 2 .variableName) :
    Ensures (build .compareVariables call) (Admits admissible .condition) call.Tolerates := by
  refine .bind (.lift (yields_variableName hleft)) fun left _ => ?_
  refine .bind (.lift (yields_comparator hcomparator)) fun comparator _ => ?_
  refine .bind (.lift (yields_variableName hright)) fun right _ => .pure ?_
  exact comparator.fits_between (.valueOperand (fits_readVariable left))
    (.valueOperand (fits_readVariable right))

lemma ensures_modifyLiteral (hmodifier : call.Has admissible 0 .modifier)
    (hliteral : call.Has admissible 1 .condition) :
    Ensures (build .modifyLiteral call) (Admits admissible .condition) call.Tolerates := by
  refine .bind (.lift (yields_modifier hmodifier)) fun modifier _ => ?_
  refine .bind (.lift (yields_condition hliteral)) fun literal hliteral => .pure ?_
  exact modifier.fits_around hliteral

lemma ensures_junction {opcode : String}
    (form : (opcode, [.condition, .condition]) ∈ BlockKind.predicate.forms)
    (hleft : call.Has admissible 0 .condition) (hright : call.Has admissible 2 .condition) :
    Ensures (build (.junction opcode) call) (Admits admissible .condition) call.Tolerates := by
  refine .bind (.lift (yields_condition hleft)) fun left hleft => ?_
  refine .bind (.lift (yields_condition hright)) fun right hright => .pure ?_
  exact .predicate (.binary form hleft hright)

end Expressions

lemma fill_constantSlots (hfinite : ∀ x : Double, x.IsFinite → admissible x)
    {operands : List Meaning} {slots : List Slot} (h : constantSlots? operands = some slots) :
    Fill admissible slots operands := by
  rw [constantSlots?.eq_def] at h
  split at h <;> simp only [Option.some.injEq, Option.ite_none_right_eq_some, reduceCtorEq] at h
  · subst h
    exact .nil
  · obtain ⟨hx, rfl⟩ := h
    exact .cons (.number (hfinite _ hx)) .nil
  · obtain ⟨rfl, rfl⟩ := h
    exact .cons .myself .nil

/-- A construction that always gives the same meaning gives one of its sense. -/
lemma admits_constant (hfinite : ∀ x : Double, x.IsFinite → admissible x) {meaning : Meaning}
    {signature : Signature} (h : constantSignature? meaning = some signature) :
    Admits admissible signature.sense meaning := by
  rw [constantSignature?.eq_def] at h
  split at h <;> simp only [Option.some.injEq, Option.bind_eq_some_iff,
    Option.ite_none_right_eq_some, reduceCtorEq] at h
  · subst h
    exact trivial
  · subst h
    exact trivial
  · obtain ⟨slots, hslots, form, rfl⟩ := h
    exact IsBlock.intro form (fill_constantSlots hfinite hslots)

/-- A construction whose children are as its signature asks gives a meaning of its sense, or has
a fault that is tolerated. -/
theorem ensures_build (hnumbers : call.numbers.Only admissible)
    (hfinite : ∀ x : Double, x.IsFinite → admissible x) {construction : Construction}
    {signature : Signature} (h : construction.signature? = some signature)
    (hdemands : ∀ demand ∈ signature.demands, call.Has admissible demand.1 demand.2) :
    Ensures (construction.build call) (signature.sense.Admits admissible) call.Tolerates := by
  cases construction <;>
    simp only [signature?, reduceCtorEq, Option.some.injEq, Option.ite_none_right_eq_some] at h
  case constant => exact .pure (admits_constant hfinite h)
  case withNumber =>
    obtain ⟨form, rfl⟩ := h
    exact ensures_withNumber hnumbers form (hdemands _ (.head _))
  case withName =>
    obtain ⟨form, rfl⟩ := h
    exact ensures_withName form (hdemands _ (.head _))
  case scaleVariable =>
    obtain ⟨form, rfl⟩ := h
    exact ensures_scaleVariable form (hdemands _ (.head _)) (hdemands _ (.tail _ (.head _)))
  case binary =>
    obtain ⟨form, rfl⟩ := h
    exact ensures_binary form (hdemands _ (.head _)) (hdemands _ (.tail _ (.head _)))
  case junction =>
    obtain ⟨form, rfl⟩ := h
    exact ensures_junction form (hdemands _ (.head _)) (hdemands _ (.tail _ (.head _)))
  -- the opcodes of all other constructions are fixed
  all_goals
    subst h
    simp only [List.forall_mem_cons] at hdemands
  case singleAction => exact ensures_singleAction hdemands.1
  case concatenate => exact ensures_concatenate hdemands.1 hdemands.2.1
  case recordSequence => exact ensures_recordSequence hdemands.1
  case declareOne => exact ensures_declareOne hdemands.1
  case declareMore => exact ensures_declareMore hdemands.1 hdemands.2.1
  case createVariables => exact ensures_createVariables hdemands.1
  case createList => exact ensures_createList hdemands.1
  case deleteVariable => exact ensures_deleteVariable hdemands.1
  case setVariable => exact ensures_setVariable hdemands.1 hdemands.2.1
  case changeVariable => exact ensures_changeVariable hdemands.1 hdemands.2.1 hfinite
  case readVariable => exact ensures_readVariable hdemands.1
  case appendItem => exact ensures_appendItem hdemands.1 hdemands.2.1
  case deleteLine => exact ensures_deleteLine hdemands.1 hdemands.2.1
  case setLine => exact ensures_setLine hdemands.1 hdemands.2.1 hdemands.2.2.1
  case getLine => exact ensures_getLine hdemands.1 hdemands.2.1
  case wordInList => exact ensures_wordInList hnumbers hdemands.1 hdemands.2.1
  case wordInListModified =>
    exact ensures_wordInListModified hnumbers hdemands.1 hdemands.2.1 hdemands.2.2.1
  case listContains => exact ensures_listContains hdemands.1 hdemands.2.1
  case numeral => exact ensures_numeral hnumbers hdemands.1
  case negative => exact ensures_negative hdemands.1 hfinite
  case modifyComparator => exact ensures_modifyComparator hdemands.1 hdemands.2.1
  case compare => exact ensures_compare hnumbers hdemands.1 hdemands.2.1 hdemands.2.2.1
  case compareVariables =>
    exact ensures_compareVariables hdemands.1 hdemands.2.1 hdemands.2.2.1
  case modifyLiteral => exact ensures_modifyLiteral hdemands.1 hdemands.2.1
  case doIf => exact ensures_doIf hdemands.1 hdemands.2.1
  case doIfElse => exact ensures_doIfElse hdemands.1 hdemands.2.1 hdemands.2.2.1
  case waitUntil => exact ensures_waitUntil hdemands.1
  case repeatUntil => exact ensures_repeatUntil hdemands.1 hdemands.2.1
  case repeatForever => exact ensures_repeatForever hdemands.1
  case repeatTimes => exact ensures_repeatTimes hnumbers hdemands.1 hdemands.2.1
  case countTimes => exact ensures_countTimes hnumbers hdemands.1
  case repeatFor => exact ensures_repeatFor hdemands.1 hdemands.2.1
  case whenTimer => exact ensures_whenTimer hdemands.1 hdemands.2.1 hdemands.2.2.1
  case handler => exact ensures_handler hdemands.1 hdemands.2.1

end Construction

/-- A rule fits the senses of its categories: the children that its construction asks for are
there and have the right sense, and what it gives is what the derived category stands for. -/
def Grammar.Rule.fitsSenses (rule : Grammar.Rule) : Bool :=
  let has (demand : Demand) : Bool := match rule.1.rhs[demand.1]? with
    | some category => Sense.ofCategory category ∈ demand.2.includes
    | none => false
  match rule.2.signature? with
  | some signature =>
    signature.demands.all has && signature.sense ∈ (Sense.ofCategory rule.1.lhs).includes
  | none => match rule.2 with
    | .pass position => has (position, Sense.ofCategory rule.1.lhs)
    | _ => false

/-- What corresponds to an element of a list whose elements correspond to those of another. -/
lemma exists_getElem?_of_forall₂ {α β : Type} {R : α → β → Prop} {l : List α} {l' : List β}
    (h : List.Forall₂ R l l') {i : Nat} {a : α} (ha : l[i]? = some a) :
    ∃ b, l'[i]? = some b ∧ R a b := by
  obtain ⟨hlt, rfl⟩ := List.getElem?_eq_some_iff.mp ha
  have hlt' : i < l'.length := h.length_eq ▸ hlt
  exact ⟨l'[i], List.getElem?_eq_getElem hlt', h.get hlt hlt'⟩

lemma Call.has_of_admitsAll {admissible : Double → Prop} {call : Call} {categories : List String}
    (h : Sense.AdmitsAll admissible categories call.parts) {position : Nat} {category : String}
    (hcategory : categories[position]? = some category) :
    call.Has admissible position (Sense.ofCategory category) := by
  obtain ⟨part, hpart, hadmits⟩ := exists_getElem?_of_forall₂ h hcategory
  refine ⟨part, ?_, hadmits⟩
  rw [Call.part, hpart]

section

variable {admissible : Double → Prop} {call : Call} {rule : Grammar.Rule}

/-- A demand that is checked in `Grammar.Rule.fitsSenses` is met. -/
lemma Call.has_of_includes (hparts : Sense.AdmitsAll admissible rule.1.rhs call.parts)
    {demand : Demand} (h : (match rule.1.rhs[demand.1]? with
      | some category => decide (Sense.ofCategory category ∈ demand.2.includes)
      | none => false) = true) : call.Has admissible demand.1 demand.2 := by
  split at h
  · next category hcategory =>
    exact (Call.has_of_admitsAll hparts hcategory).of_special (of_decide_eq_true h)
  · cases h

/-- The children of a rule are as its signature asks. -/
lemma Grammar.Rule.has_of_demands (hrule : rule.fitsSenses = true)
    (hparts : Sense.AdmitsAll admissible rule.1.rhs call.parts) {signature : Signature}
    (hsignature : rule.2.signature? = some signature) :
    ∀ demand ∈ signature.demands, call.Has admissible demand.1 demand.2 := by
  simp only [fitsSenses, hsignature, Bool.and_eq_true, List.all_eq_true] at hrule
  exact fun demand hdemand => Call.has_of_includes hparts (hrule.1 demand hdemand)

/-- The rule of a call makes what the derived category stands for out of what the categories on
its right-hand side stand for, or has a fault that is tolerated. -/
theorem Grammar.Rule.ensures_build (hnumbers : call.numbers.Only admissible)
    (hfinite : ∀ x : Double, x.IsFinite → admissible x) (hrule : rule.fitsSenses = true)
    (hparts : Sense.AdmitsAll admissible rule.1.rhs call.parts) :
    Ensures (rule.2.build call) ((Sense.ofCategory rule.1.lhs).Admits admissible)
      call.Tolerates := by
  have hchecked := hrule
  rw [fitsSenses] at hchecked
  split at hchecked
  · next signature hsignature =>
    have hsense := (Bool.and_eq_true_iff.mp hchecked).2
    have hbuild := Construction.ensures_build hnumbers hfinite hsignature
      (has_of_demands hrule hparts hsignature)
    exact ⟨fun he => (hbuild.result he).of_special (of_decide_eq_true hsense), hbuild.fault⟩
  · split at hchecked
    · next position hpass =>
      rw [hpass]
      exact .lift (Call.yields_part (Call.has_of_includes hparts hchecked))
    · cases hchecked

end

/-- All rules of the standard grammar fit the senses of their categories. -/
theorem Grammar.standard_fitsSenses {rule : Grammar.Rule} (h : rule ∈ Grammar.standard) :
    rule.fitsSenses = true := by
  have hall : Grammar.standard.all Grammar.Rule.fitsSenses = true := by decide +kernel
  exact List.all_eq_true.mp hall rule h

end PhraseScript
