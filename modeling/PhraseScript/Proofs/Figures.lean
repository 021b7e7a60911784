import PhraseScript.Proofs.BlockOrigins
import PhraseScript.Proofs.ReachableSessions
import PhraseScript.Proofs.ScriptTexts
import PhraseScript.Proofs.WrittenFigures

/-!
# Figures that sentences say

A sentence says the numbers of times and the places in lists of its script: by a numeral, by an
ordinal, or by a phrase around a numeral (`Derivation.Says`).  Which phrases of a sentence do, is
a matter of its rules (`Grammar.figurePhrases`).  All figures of the script, and of what is put
into the session, are said so (`Language.figures_of_translate`).
-/

namespace PhraseScript

/-! ### What a sentence says -/

namespace Grammar

/-- How the phrases begin that have a figure, with the position of what says it, and the opcode of
the block that gets it. -/
def figurePhrases : List (String × List String × Nat × String) :=
  [("ControlCommand", ["Repeat", "AL", "Unk"], 2, Opcode.repeatTimes),
    ("LoopCommand", ["AL", "Should"], 4, Opcode.repeatTimes),
    ("LoopCommand", ["AL", "That"], 5, Opcode.repeatTimes),
    ("LoopCommandP", ["AP"], 1, Opcode.repeatTimes),
    ("LoopCommandP", ["The", "Following", "Duration"], 2, Opcode.repeatTimes),
    ("LoopCommandP", ["The", "Following", "Steps"], 3, Opcode.repeatTimes),
    ("DataCommand", ["Delete", "Ele"], 2, Opcode.deleteLine),
    ("DataCommand", ["Delete", "Det"], 2, Opcode.deleteLine),
    ("DataCommand", ["Replace"], 2, Opcode.setLine),
    ("DataCommand", ["Set", "Ele"], 2, Opcode.setLine),
    ("DataCommand", ["Set", "Det"], 2, Opcode.setLine),
    ("DataReporter", ["The"], 1, Opcode.getLine), ("DataReporter", ["Item"], 1, Opcode.getLine)]

/-- The figure of a rule, if it has one: the position of what says it, and the opcode. -/
def figure? : RuleKey → Option (Nat × String) := lookupPhrase? figurePhrases

/-- The categories that can say a number. -/
def figureCategories : List String := ["Unk", "OrderAdverb", "NP", "Duration"]

end Grammar

/-- The number that a phrase says. -/
inductive Derivation.Says : Derivation → Double → Prop where
  | numeral {word : String} {span : Span} {x : Double}
      (h : numeral? (Text.toLower word) = some x) : Says (.leaf "Unk" word span) x
  | ordinal {word : String} {span : Span} {n : Nat}
      (h : (Text.toLower word, n) ∈ Ordinal.table) : Says (.leaf "OrderAdverb" word span) (.ofInt n)
  | phrase {numeral : Derivation} {span : Span} {x : Double} (h : Says numeral x) :
      Says (.node "NP" ["Unk"] [numeral] span) x
  | times {numeral times : Derivation} {span : Span} {x : Double} (h : Says numeral x) :
      Says (.node "Duration" ["Unk", "Times"] [numeral, times] span) x

/-- A node has a phrase that says the figure of a block. -/
inductive Derivation.SaysFigure (opcode : String) (x : Double) : Derivation → Prop where
  | intro {lhs : String} {rhs : List String} {children : List Derivation} {span : Span}
      {position : Nat} {phrase : Derivation}
      (hrule : Grammar.figure? ⟨lhs, rhs⟩ = some (position, opcode))
      (hphrase : children[position]? = some phrase) (hsaid : phrase.Says x) :
      SaysFigure opcode x (.node lhs rhs children span)

/-- A number can be the figure of a block: a number of times, or a place in a list. -/
def Opcode.Takes (opcode : String) (x : Double) : Prop :=
  x.IsCount ∧ (opcode ≠ repeatTimes → x.AtLeastOne)

namespace Language

/-- In some session a tree means a certain block. -/
def MeansBlock (language : Language) (tree : Derivation) (block : Block) : Prop :=
  ∃ before after, language.interpret tree before = .ok (.command block, after) ∨
    language.interpret tree before = .ok (.expression block, after)

/-- If a block has a figure, it is what some node of a tree means, and the node says the figure. -/
def Explains (language : Language) (tree : Derivation) (block : Block) : Prop :=
  ∀ opcode x, block.figure? = some (opcode, x) → Opcode.Takes opcode x ∧
    ∃ node ∈ tree.subtrees, language.MeansBlock node block ∧ node.SaysFigure opcode x

variable {language : Language}

lemma Explains.node {lhs : String} {rhs : List String} {children : List Derivation} {span : Span}
    {child : Derivation} {block : Block} (h : language.Explains child block)
    (hchild : child ∈ children) : language.Explains (.node lhs rhs children span) block := by
  intro opcode x hfigure
  obtain ⟨htakes, inner, hinner, hnode⟩ := h opcode x hfigure
  exact ⟨htakes, inner, Derivation.subtrees_subset_of_mem hchild hinner, hnode⟩

/-- A block that is not particular has no figure. -/
lemma explains_of_not_mem_particular (tree : Derivation) (opcode : String)
    (operands : List Meaning) (h : opcode ∉ Opcode.particular) :
    language.Explains tree (.mk opcode operands) := by
  intro other x hfigure
  obtain ⟨hcounting, rest, heq⟩ := Block.figure?_eq_some_iff.mp hfigure
  cases heq
  have hparticular : Opcode.counting ⊆ Opcode.particular := by decide
  exact absurd (hparticular hcounting) h

end Language

/-! ### Questions for numbers -/

namespace Call

variable {call : Call} {position : Nat} {x : Double}

lemma number_eq_ok_iff :
    call.number position = .ok x ↔ call.part position = .ok (.number x) ∨
      ∃ word, call.part position = .ok (.text word) ∧ call.numbers word = some x := by
  simp only [number, bind_eq_ok_iff]
  constructor
  · rintro ⟨part, hpart, hnumber⟩
    split at hnumber
    · obtain rfl := Except.ok.inj hnumber
      exact .inl hpart
    · next word =>
      split at hnumber
      · next hword =>
        obtain rfl := Except.ok.inj hnumber
        exact .inr ⟨word, hpart, hword⟩
      · cases hnumber
    · cases hnumber
  · rintro (hpart | ⟨word, hpart, hword⟩)
    · exact ⟨_, hpart, rfl⟩
    · refine ⟨_, hpart, ?_⟩
      simp only [hword]
      rfl

lemma count_eq_ok_iff :
    call.count position = .ok x ↔ call.number position = .ok x ∧ x.IsCount := by
  simp only [count, bind_eq_ok_iff]
  constructor
  · rintro ⟨value, hvalue, hcount⟩
    split at hcount
    · next hwhole =>
      obtain rfl := Except.ok.inj hcount
      exact ⟨hvalue, hwhole⟩
    · cases hcount
  · rintro ⟨hvalue, hcount⟩
    exact ⟨x, hvalue, if_pos hcount⟩

lemma isPlace_of_index {environment : Environment}
    (h : call.index environment position = .ok (.number x)) : x.IsPlace := by
  obtain ⟨part, -, hmeaning⟩ := bind_eq_ok_iff.mp h
  split at hmeaning
  · split at hmeaning
    · next hplace =>
      cases hmeaning
      exact hplace
    · cases hmeaning
  · obtain ⟨-, -, hmeaning⟩ := bind_eq_ok_iff.mp hmeaning
    cases hmeaning
  · cases hmeaning

end Call

/-- A place in a list is a number of times, too. -/
lemma Double.IsPlace.isCount {x : Double} (h : x.IsPlace) : x.IsCount := by
  refine ⟨h.2, ?_⟩
  cases x with
  | finite negative magnitude =>
    rintro ⟨hnegative, -⟩
    cases hnegative.symm.trans h.1.1
  | _ => exact h.2.elim

/-! ### Figures and rules -/

/-- The position of the child that says the figure of the block that a construction makes, and the
opcode of the block. -/
def Construction.figure? : Construction → Option (Nat × String)
  | .repeatTimes => some (2, Opcode.repeatTimes)
  | .repeatFor _ duration => some (duration, Opcode.repeatTimes)
  | .deleteLine index _ => some (index, Opcode.deleteLine)
  | .setLine index _ _ => some (index, Opcode.setLine)
  | .getLine index _ => some (index, Opcode.getLine)
  | _ => none

/-- The figure of a block that a construction makes is the number that its child is, or the word
of its child stands for. -/
lemma Construction.Makes.figure {construction : Construction} {call : Call}
    {environment : Environment} {block : Block} {opcode : String} {x : Double}
    (h : construction.Makes call environment block) (hfigure : block.figure? = some (opcode, x)) :
    ∃ position, construction.figure? = some (position, opcode) ∧
      call.number position = .ok x ∧
      (Opcode.Takes opcode x ∨
        ∃ body, construction = .repeatFor body position) := by
  obtain ⟨hcounting, rest, heq⟩ := Block.figure?_eq_some_iff.mp hfigure
  have hplace {index : Nat} (hindex : call.index environment index = .ok (.number x)) :
      call.number index = .ok x ∧ Opcode.Takes opcode x := by
    have hx := Call.isPlace_of_index hindex
    exact ⟨Call.number_eq_ok_iff.mpr (.inl (Call.part_of_index hindex)), hx.isCount, fun _ => hx.1⟩
  cases h <;> cases heq
  case repeatTimes _ hcount =>
    obtain ⟨hnumber, hx⟩ := Call.count_eq_ok_iff.mp hcount
    exact ⟨2, rfl, hnumber, .inl ⟨hx, fun hne => absurd rfl hne⟩⟩
  case repeatFor body duration _ _ hpart =>
    exact ⟨duration, rfl, Call.number_eq_ok_iff.mpr (.inl hpart), .inr ⟨body, rfl⟩⟩
  case deleteLine index _ _ _ hindex | setLine index _ _ _ _ _ _ hindex |
    getLine index _ _ _ hindex =>
    obtain ⟨hnumber, htakes⟩ := hplace hindex
    exact ⟨index, rfl, hnumber, .inl htakes⟩
  all_goals exact absurd hcounting (by decide)

/-- A construction gives the block with a figure that it makes. -/
lemma Construction.Makes.gives {construction : Construction} {call : Call} {session : Session}
    {block : Block} (h : construction.Makes call session.environment block)
    (hcounting : block.opcode ∈ Opcode.counting) :
    Gives (construction.build call) session (.command block) session ∨
      Gives (construction.build call) session (.expression block) session := by
  cases h
  case deleteLine hplace hlist =>
    left
    simp only [build, gives_bind, gives_lift, gives_environment, gives_pure]
    exact ⟨_, _, ⟨rfl, rfl⟩, _, _, ⟨hplace, rfl⟩, _, _, ⟨hlist, rfl⟩, rfl, rfl⟩
  case setLine hplace hlist hitem =>
    left
    simp only [build, gives_bind, gives_lift, gives_environment, gives_pure]
    exact ⟨_, _, ⟨rfl, rfl⟩, _, _, ⟨hplace, rfl⟩, _, _, ⟨hlist, rfl⟩, _, _, ⟨hitem, rfl⟩, rfl, rfl⟩
  case getLine hplace hlist =>
    right
    simp only [build, gives_bind, gives_lift, gives_environment, gives_pure]
    exact ⟨_, _, ⟨rfl, rfl⟩, _, _, ⟨hplace, rfl⟩, _, _, ⟨hlist, rfl⟩, rfl, rfl⟩
  case repeatTimes hbody hcount =>
    left
    simp only [build, gives_bind, gives_lift, gives_pure]
    exact ⟨_, _, ⟨hbody, rfl⟩, _, _, ⟨hcount, rfl⟩, rfl, rfl⟩
  case repeatFor hbody hcount =>
    left
    simp only [build, gives_bind, gives_lift]
    exact ⟨_, _, ⟨hbody, rfl⟩, _, _, ⟨hcount, rfl⟩, rfl, rfl⟩
  -- the other particular blocks have no figure
  all_goals
    rw [Block.opcode_mk] at hcounting
    exact absurd hcounting (by decide)

namespace Grammar

/-- The figure of the block that a construction makes is the one of its phrase, and is said by a
phrase that can say a number.  A duration is a duration. -/
def Rule.tellsFigures (rule : Rule) : Bool :=
  rule.2.figure? = figure? rule.1 &&
    (figure? rule.1).all (fun (position, _) =>
      (rule.1.rhs[position]?).any (· ∈ figureCategories)) &&
    match rule.2 with
    | .repeatFor _ duration => rule.1.rhs[duration]? = some "Duration"
    | _ => true

theorem standard_tellsFigures {rule : Rule} (h : rule ∈ standard) : rule.tellsFigures = true := by
  have hall : standard.all Rule.tellsFigures = true := by decide +kernel
  exact List.all_eq_true.mp hall rule h

/-- A phrase that can say a number is one around a numeral, or an expression. -/
def Rule.saysNumber (rule : Rule) : Bool :=
  match rule.2 with
  | .numeral => rule.1.lhs = "NP" && rule.1.rhs = ["Unk"]
  | .countTimes => rule.1.lhs = "Duration" && rule.1.rhs = ["Unk", "Times"]
  | .readVariable | .binary _ _ _ | .negative => true
  | .pass position => (rule.1.rhs[position]?).any fun category =>
      Sense.ofCategory category = .reporter
  | _ => false

theorem standard_saysNumber {rule : Rule} (h : rule ∈ standard)
    (hlhs : rule.1.lhs ∈ figureCategories) : rule.1.lhs ≠ "Unk" ∧ rule.saysNumber = true := by
  have hall : standard.all (fun rule => rule.1.lhs ∉ figureCategories ||
      rule.1.lhs ≠ "Unk" && rule.saysNumber) = true := by
    decide +kernel
  simpa [hlhs] using List.all_eq_true.mp hall rule h

end Grammar

/-! ### Phrases that say numbers -/

/-- What several trees put into a session, one of them puts into it. -/
lemma Threads.grows {R : Derivation → Session → Meaning → Session → Prop} {good : Json → Prop}
    {trees : List Derivation} {before after : Session} {parts : List Meaning}
    (h : Threads R trees before parts after)
    (hgrows : ∀ tree ∈ trees, ∀ before part after, R tree before part after →
      before.Grows good after) : before.Grows good after := by
  induction h with
  | nil => exact .refl _
  | cons h _ ih =>
    exact (hgrows _ (.head _) _ _ _ h).trans (ih fun tree htree => hgrows tree (.tail _ htree))

namespace Language

variable {sounds : List String} {tree : Derivation} {before after : Session}

/-- A word that may be a numeral says its number, or is none. -/
lemma says_or_none {part : Meaning}
    (h : Gives ((standard sounds .numerals).evaluate tree) before part after)
    (hcategory : tree.category = "Unk") :
    (∃ x, part = .number x ∧ tree.Says x) ∨ ∃ word, part = .text word ∧ numeral? word = none := by
  cases tree with
  | leaf category word span =>
    obtain rfl : category = "Unk" := hcategory
    obtain ⟨hlookup, -⟩ := gives_leaf_iff.mp h
    have hmeans := (Lexicon.yields_lookup_standard sounds "Unk" word).result hlookup
    generalize hunknown : "Unk" = category at hmeans
    cases hmeans with
    | numeral hnumeral => exact .inl ⟨_, rfl, .numeral hnumeral⟩
    | text hnone => exact .inr ⟨_, rfl, hnone⟩
    | keyword hkeyword =>
      exact absurd (Lexicon.ofCategory_of_mem_keywords (hunknown ▸ hkeyword)) (by decide)
    | name hname => exact absurd (hunknown ▸ hname) (by decide)
    | _ => exact absurd hunknown (by decide)
  | node lhs rhs children span =>
    obtain rfl : lhs = "Unk" := hcategory
    obtain ⟨construction, parts, between, hrule, -⟩ := gives_node_iff.mp h
    exact absurd rfl (Grammar.standard_saysNumber hrule (.head _)).1

/-- A numeral in a call says the number that the call finds. -/
lemma says_of_number {part : Meaning}
    (h : Gives ((standard sounds .numerals).evaluate tree) before part after)
    (hcategory : tree.category = "Unk") {rule : RuleKey} {parts : List Meaning} {position : Nat}
    (hpart : parts[position]? = some part) {x : Double}
    (hx : Call.number ⟨rule, parts, .numerals⟩ position = .ok x) : tree.Says x := by
  have hfound : Call.part ⟨rule, parts, .numerals⟩ position = .ok part :=
    Call.part_eq_ok_iff.mpr hpart
  rcases says_or_none h hcategory with ⟨y, rfl, hsaid⟩ | ⟨word, rfl, hnone⟩
  · rcases Call.number_eq_ok_iff.mp hx with hnumber | ⟨word, htext, -⟩
    · cases hfound.symm.trans hnumber
      exact hsaid
    · cases hfound.symm.trans htext
  · rcases Call.number_eq_ok_iff.mp hx with hnumber | ⟨word, htext, hword⟩
    · cases hfound.symm.trans hnumber
    · cases hfound.symm.trans htext
      cases hnone.symm.trans hword

/-- A word that is a number says it. -/
lemma says_of_lookup {category word : String} {span : Span} {x : Double}
    (h : (Lexicon.standard sounds).lookup category word = .ok (.number x))
    (hcategory : category ∈ Grammar.figureCategories) :
    Derivation.Says (.leaf category word span) x := by
  have hmeans := (Lexicon.yields_lookup_standard sounds category word).result h
  generalize hnumber : Meaning.number x = meaning at hmeans
  cases hmeans with
  | numeral hnumeral =>
    obtain rfl := Meaning.number.inj hnumber
    exact .numeral hnumeral
  | ordinal hindex =>
    rw [Meaning.number.inj hnumber]
    exact .ordinal (mem_of_lookup (Lexicon.lookup_of_ordinal hindex))
  | true | false => exact absurd hcategory (by decide)
  | _ => cases hnumber

section Node

variable {rule : Grammar.Rule} {children : List Derivation} {parts : List Meaning}
  {between : Session}

/-- A node that is a number says it. -/
lemma says_of_build {span : Span} {x : Double} (hrule : rule ∈ Grammar.standard)
    (hcategory : rule.1.lhs ∈ Grammar.figureCategories)
    (hcategories : children.map Derivation.category = rule.1.rhs)
    (hthreads : Threads (fun tree => Gives ((standard sounds .numerals).evaluate tree)) children
      before parts between)
    (hbuild : Gives (rule.2.build ⟨rule.1, parts, .numerals⟩) between (.number x) after) :
    Derivation.Says (.node rule.1.lhs rule.1.rhs children span) x := by
  have hsaid := (Grammar.standard_saysNumber hrule hcategory).2
  obtain ⟨⟨lhs, rhs⟩, construction⟩ := rule
  cases construction <;>
    simp only [Grammar.Rule.saysNumber, Bool.and_eq_true, decide_eq_true_eq,
      Bool.false_eq_true] at hsaid
  case numeral =>
    obtain ⟨rfl, rfl⟩ := hsaid
    obtain ⟨child, rfl, hchild⟩ := List.map_eq_singleton_iff.mp hcategories
    obtain ⟨_, part, _, hpart, hgives, -⟩ := hthreads.exists_of_getElem? (List.getElem?_cons_zero)
    simp only [Construction.build, gives_bind, gives_lift, gives_pure] at hbuild
    obtain ⟨y, _, ⟨hy, rfl⟩, hxy, rfl⟩ := hbuild
    obtain rfl := Meaning.number.inj hxy
    exact .phrase (says_of_number hgives hchild hpart hy)
  case countTimes =>
    obtain ⟨rfl, rfl⟩ := hsaid
    obtain ⟨child, others, rfl, hchild, hothers⟩ := List.map_eq_cons_iff.mp hcategories
    obtain ⟨other, rfl, -⟩ := List.map_eq_singleton_iff.mp hothers
    obtain ⟨_, part, _, hpart, hgives, -⟩ := hthreads.exists_of_getElem? (List.getElem?_cons_zero)
    simp only [Construction.build, gives_bind, gives_lift, gives_pure] at hbuild
    obtain ⟨y, _, ⟨hy, rfl⟩, hxy, rfl⟩ := hbuild
    obtain rfl := Meaning.number.inj hxy
    exact .times (says_of_number hgives hchild hpart (Call.count_eq_ok_iff.mp hy).1)
  case pass position =>
    obtain ⟨category, hphrase, hreporter⟩ := (Option.any_eq_true _ _).mp hsaid
    obtain ⟨child, hchild, rfl⟩ : ∃ child, children[position]? = some child ∧
        child.category = category := by
      rwa [← Option.map_eq_some_iff, ← List.getElem?_map, hcategories]
    obtain ⟨_, part, _, hpart, hgives, -⟩ := hthreads.exists_of_getElem? hchild
    have hfound := Call.part_eq_ok_iff.mp (gives_lift.mp hbuild).1
    obtain rfl := Option.some.inj (hpart.symm.trans hfound)
    have hcovers := covers_of_gives hgives
    rw [of_decide_eq_true hreporter] at hcovers
    exact hcovers.elim
  -- all others give expressions
  all_goals
    simp only [Construction.build, gives_bind, gives_lift, gives_pure] at hbuild
  case readVariable =>
    obtain ⟨_, _, _, hexpression, -⟩ := hbuild
    cases hexpression
  case binary =>
    obtain ⟨_, _, _, _, _, _, hexpression, -⟩ := hbuild
    cases hexpression
  case negative =>
    obtain ⟨_, _, _, hexpression, -⟩ := hbuild
    cases hexpression

/-- A phrase that is a number says it. -/
theorem says_of_gives {x : Double}
    (h : Gives ((standard sounds .numerals).evaluate tree) before (.number x) after)
    (hcategory : tree.category ∈ Grammar.figureCategories) : tree.Says x := by
  cases tree with
  | leaf category word span => exact says_of_lookup (gives_leaf_iff.mp h).1 hcategory
  | node lhs rhs children span =>
    obtain ⟨construction, parts, between, hrule, hcategories, hthreads, hbuild⟩ :=
      gives_node_iff.mp h
    exact says_of_build hrule hcategory hcategories hthreads hbuild

/-- A phrase that can say a number is no word for one. -/
lemma numeral?_eq_none_of_gives {word : String}
    (h : Gives ((standard sounds .numerals).evaluate tree) before (.text word) after)
    (hcategory : tree.category ∈ Grammar.figureCategories) : numeral? word = none := by
  have hcovers := covers_of_gives h
  have hcases : tree.category = "Unk" ∨ tree.category = "OrderAdverb" ∨ tree.category = "NP" ∨
      tree.category = "Duration" := by
    simpa [Grammar.figureCategories] using hcategory
  rcases hcases with hword | hother | hother | hother
  · rcases says_or_none h hword with ⟨x, hnumber, -⟩ | ⟨other, htext, hnone⟩
    · cases hnumber
    · cases htext
      exact hnone
  · rw [hother] at hcovers
    exact hcovers.elim
  · rw [hother] at hcovers
    exact hcovers.elim
  · rw [hother] at hcovers
    obtain rfl : word = Lexicon.forever := hcovers
    decide +kernel

/-! ### Evaluations -/

/-- The figure of a block that a node makes is the number that a child of the node is. -/
lemma exists_figurePhrase (hrule : rule ∈ Grammar.standard)
    (hcategories : children.map Derivation.category = rule.1.rhs)
    (hthreads : Threads (fun tree => Gives ((standard sounds .numerals).evaluate tree)) children
      before parts between) {block : Block} {opcode : String} {x : Double}
    (h : rule.2.Makes ⟨rule.1, parts, .numerals⟩ between.environment block)
    (hfigure : block.figure? = some (opcode, x)) :
    ∃ position phrase start stop, Grammar.figure? rule.1 = some (position, opcode) ∧
      children[position]? = some phrase ∧ phrase.category ∈ Grammar.figureCategories ∧
      Gives ((standard sounds .numerals).evaluate phrase) start (.number x) stop ∧
      Opcode.Takes opcode x := by
  obtain ⟨position, hconstruction, hnumber, htakes⟩ := h.figure hfigure
  have htells := Grammar.standard_tellsFigures hrule
  simp only [Grammar.Rule.tellsFigures, hconstruction, Bool.and_eq_true,
    decide_eq_true_eq] at htells
  obtain ⟨⟨hfigurePhrase, hphrase⟩, hduration⟩ := htells
  rw [← hfigurePhrase, Option.all_some] at hphrase
  obtain ⟨category, hphrase, hcategory⟩ := (Option.any_eq_true _ _).mp hphrase
  obtain ⟨phrase, hchild, rfl⟩ : ∃ phrase, children[position]? = some phrase ∧
      phrase.category = category := by
    rwa [← hcategories, List.getElem?_map, Option.map_eq_some_iff] at hphrase
  obtain ⟨start, part, stop, hpart, hgives, -⟩ := hthreads.exists_of_getElem? hchild
  have hfound : Call.part ⟨rule.1, parts, .numerals⟩ position = .ok part :=
    Call.part_eq_ok_iff.mpr hpart
  -- the child is the number itself: no word that it could be stands for one
  have hnumberPart : part = .number x := by
    rcases Call.number_eq_ok_iff.mp hnumber with hnumber | ⟨word, htext, hword⟩
    · exact Except.ok.inj (hfound.symm.trans hnumber)
    · obtain rfl := Except.ok.inj (hfound.symm.trans htext)
      cases (numeral?_eq_none_of_gives hgives (of_decide_eq_true hcategory)).symm.trans hword
  subst hnumberPart
  have htakes : Opcode.Takes opcode x := by
    rcases htakes with htakes | ⟨body, hrepeat⟩
    · exact htakes
    · -- a duration is a number of times
      rw [hrepeat] at hduration hconstruction
      have hcovers := covers_of_gives hgives
      rw [Option.some.inj (hphrase.symm.trans (of_decide_eq_true hduration))] at hcovers
      obtain ⟨-, rfl⟩ := Prod.mk.inj (Option.some.inj hconstruction)
      exact ⟨hcovers, fun hne => absurd rfl hne⟩
  exact ⟨position, phrase, start, stop, hfigurePhrase.symm, hchild, of_decide_eq_true hcategory,
    hgives, htakes⟩

/-- A block with a figure that a node makes is what the node means, and the node says the figure. -/
lemma explains_of_makes {span : Span} (hrule : rule ∈ Grammar.standard)
    (hcategories : children.map Derivation.category = rule.1.rhs)
    (hthreads : Threads (fun tree => Gives ((standard sounds .numerals).evaluate tree)) children
      before parts between) {meaning : Meaning}
    (hbuild : Gives (rule.2.build ⟨rule.1, parts, .numerals⟩) between meaning after)
    {block : Block} (h : rule.2.Makes ⟨rule.1, parts, .numerals⟩ between.environment block) :
    (standard sounds .numerals).Explains (.node rule.1.lhs rule.1.rhs children span) block := by
  intro opcode x hfigure
  obtain ⟨position, phrase, start, stop, hrulePhrase, hchild, hcategory, hgives, htakes⟩ :=
    exists_figurePhrase hrule hcategories hthreads h hfigure
  have hmeans : (standard sounds .numerals).MeansBlock
      (.node rule.1.lhs rule.1.rhs children span) block := by
    have hnode : Gives ((standard sounds .numerals).evaluate
        (.node rule.1.lhs rule.1.rhs children span)) before meaning after :=
      (gives_rule_iff hrule hcategories).mpr ⟨parts, between, hthreads, hbuild⟩
    obtain ⟨hcounting, rest, rfl⟩ := Block.figure?_eq_some_iff.mp hfigure
    refine ⟨before, after, ?_⟩
    rw [interpret_eq_ok_iff, interpret_eq_ok_iff]
    rcases h.gives hcounting with hgiven | hgiven
    · obtain ⟨rfl, -⟩ := hbuild.unique hgiven
      exact .inl hnode
    · obtain ⟨rfl, -⟩ := hbuild.unique hgiven
      exact .inr hnode
  exact ⟨htakes, _, Derivation.mem_subtrees_self _, hmeans,
    .intro hrulePhrase hchild (says_of_gives hgives hcategory)⟩

end Node

/-- The figures of what a tree means, and of what its evaluation puts into the session, are said in
the tree. -/
lemma explains_steps (sounds : List String) : EvaluationSteps sounds .numerals
    (fun tree before meaning after =>
      meaning.Inside ((standard sounds .numerals).Explains tree) ∧
        before.Grows (fun value => ∃ stored : Meaning,
          stored.Inside ((standard sounds .numerals).Explains tree) ∧ value = stored.wire)
          after) where
  leaf {category word span session meaning} hlookup :=
    ⟨((Lexicon.yields_lookup_standard sounds category word).result hlookup).inside
      (explains_of_not_mem_particular _), .refl session⟩
  node {rule children span parts before between meaning after} hrule hcategories _ _ hchildren
      hbuild := by
    have hthreads : Threads (fun tree => Gives ((standard sounds .numerals).evaluate tree)) children
        before parts between := hchildren.imp fun _ _ _ _ _ h => h.1
    have hinside : meaning.Inside ((standard sounds .numerals).Explains
        (.node rule.1.lhs rule.1.rhs children span)) := by
      refine Construction.inside_rule (explains_of_not_mem_particular _) ?_ hrule
        (fun block hmakes => explains_of_makes hrule hcategories hthreads hbuild hmakes) hbuild
      intro part hpart
      obtain ⟨child, hchild, _, _, -, hpartInside, -⟩ := hchildren.exists_tree hpart
      exact hpartInside.imp fun _ hexplains => hexplains.node hchild
    refine ⟨hinside, .trans (hchildren.grows ?_)
      ((Construction.does_of_gives hbuild).grows.imp ?_)⟩
    · rintro child hchild _ _ _ ⟨-, -, hgrows⟩
      refine hgrows.imp ?_
      rintro _ ⟨stored, hstored, rfl⟩
      exact ⟨stored, hstored.imp fun _ hexplains => hexplains.node hchild, rfl⟩
    · rintro _ ⟨stored, hsub, rfl⟩
      exact ⟨stored, fun block hblock => hinside block (hsub hblock), rfl⟩

/-! ### Translated scripts -/

/-- If an array has a figure, it is written for a block that some node of a tree means.  The
figure is the whole number that the node says, and an integer if it is below `2 ^ 53`. -/
def Writes (language : Language) (tree : Derivation) (items : List Json) : Prop :=
  ∀ opcode number, Json.figure? items = some (opcode, number) →
    ∃ node ∈ tree.subtrees, ∃ block, language.MeansBlock node block ∧
      Meaning.blockWire block = .array items ∧
      ∃ (x : Double) (n : Nat), node.SaysFigure opcode x ∧ x.toRat = n ∧
        (opcode ≠ Opcode.repeatTimes → 1 ≤ n) ∧
        (n < 2 ^ 53 → number = .integer n) ∧
        (2 ^ 53 ≤ n → ∃ magnitude, x = .finite false magnitude ∧ number = .real false magnitude)

/-- What is written for a meaning whose figures are said in a tree. -/
lemma writes_of_inside {language : Language} {meaning : Meaning}
    (h : meaning.Inside (language.Explains tree)) :
    ∀ items ∈ meaning.wire.arrays, language.Writes tree items := by
  intro items hitems opcode number hfigure
  obtain ⟨block, hblock, hwire⟩ :=
    Meaning.exists_of_mem_arrays_wire (Option.isSome_of_eq_some hfigure) meaning hitems
  obtain ⟨x, hx, hjson⟩ := Meaning.exists_figure?_of_blockWire hwire hfigure
  obtain ⟨⟨hcount, hplace⟩, node, hnode, hmeans, hsaid⟩ := h block hblock opcode x hx
  obtain ⟨n, hvalue, hone, hsmall, hlarge⟩ := hcount.exists_nat
  refine ⟨node, hnode, block, hmeans, hwire, x, n, hsaid, hvalue, fun hne => hone (hplace hne),
    fun hlt => ?_, fun hle => ?_⟩
  · exact Json.number.inj (hjson.symm.trans (hsmall hlt))
  · obtain ⟨magnitude, hx, hreal⟩ := hlarge hle
    exact ⟨magnitude, hx, Json.number.inj (hjson.symm.trans hreal)⟩

/-- All figures in the commands of a script, and in what its sentence has put into the session, are
said in the sentence. -/
theorem figures_of_translate {session : Session} {outcome : Outcome}
    (h : (standard sounds .numerals).translate tree session = .ok outcome) :
    outcome.script.write = .ok outcome.script.document.compact ∧
      outcome.script.environment = outcome.session.environment ∧
      (∀ items ∈ (Json.array (Meaning.blocksWire outcome.script.commands)).arrays,
        (standard sounds .numerals).Writes tree items) ∧
      session.Grows
        (fun value => ∀ items ∈ value.arrays, (standard sounds .numerals).Writes tree items)
        outcome.session := by
  obtain ⟨meaning, hmeaning, hcommands, henvironment⟩ := translate_eq_ok_iff.mp h
  obtain ⟨hinside, hgrows⟩ := (explains_steps sounds).evaluate tree _ _ _ hmeaning
  refine ⟨write_of_translate h, henvironment, ?_, hgrows.imp ?_⟩
  · have hscript : (Meaning.commands outcome.script.commands).Inside
        ((standard sounds .numerals).Explains tree) := by
      rw [Meaning.Inside, Meaning.inner_commands, ← Script.inner_of_commandsOf hcommands]
      exact hinside
    exact writes_of_inside hscript
  · rintro _ ⟨stored, hstored, rfl⟩
    exact writes_of_inside hstored

/-- A check that is passed by a result is passed by what the result is. -/
lemma exists_of_any {ε α : Type} {result : Except ε α} {check : α → Bool}
    (h : result.toOption.any check = true) : ∃ value, result = .ok value ∧ check value = true := by
  cases result with
  | error fault => cases h
  | ok value => exact ⟨value, rfl, h⟩

open PhraseScript.Derivation in
/-- "Make a list l and delete the second element of l and repeat stop 12 times." -/
def trimming : Derivation :=
  let l := word "LIST_NAME" "l"
  let make := apply "CreateCommand" [word "Make" "make", word "List" "list", l]
  let delete := apply "DataCommand" [word "Delete" "delete", word "Det" "the",
    word "OrderAdverb" "second", word "Ele" "element", word "Of" "of", l]
  let stop := apply "AL" [apply "AP" [apply "SoundCommand" [word "Stop" "stop"]]]
  let repetition := apply "ControlCommand"
    [word "Repeat" "repeat", stop, word "Unk" "12", word "Times" "times"]
  let and := word "And" "and"
  apply "S" [apply "AL" [apply "AP" [make], and, apply "AL" [apply "AP" [delete], and,
    apply "AL" [apply "AP" [repetition]]]]]

theorem figures_of_translate_trimming :
    ∃ outcome, (standard [] .numerals).translate trimming {} = .ok outcome ∧
      (Json.array (Meaning.blocksWire outcome.script.commands)).arrays.filterMap Json.figure? =
        [(Opcode.deleteLine, .integer 2), (Opcode.repeatTimes, .integer 12)] ∧
      (∀ items ∈ (Json.array (Meaning.blocksWire outcome.script.commands)).arrays,
        (standard [] .numerals).Writes trimming items) ∧
      Session.Grows
        (fun value => ∀ items ∈ value.arrays, (standard [] .numerals).Writes trimming items) {}
        outcome.session := by
  have hcheck : ((standard [] .numerals).translate trimming {}).toOption.any (fun outcome =>
      (Json.array (Meaning.blocksWire outcome.script.commands)).arrays.filterMap Json.figure? =
        [(Opcode.deleteLine, .integer 2), (Opcode.repeatTimes, .integer 12)]) = true := by
    rw [translate, interpret, evaluate_standard]
    decide +kernel
  obtain ⟨outcome, h, hfigures⟩ := exists_of_any hcheck
  obtain ⟨-, -, hcommands, hgrows⟩ := figures_of_translate h
  exact ⟨outcome, h, of_decide_eq_true hfigures, hcommands, hgrows⟩

open PhraseScript.Derivation in
/-- "Repeat stop 9007199254740992 times." -/
def longRepetition : Derivation :=
  let stop := apply "AL" [apply "AP" [apply "SoundCommand" [word "Stop" "stop"]]]
  apply "S" [apply "AL" [apply "AP" [apply "ControlCommand"
    [word "Repeat" "repeat", stop, word "Unk" "9007199254740992", word "Times" "times"]]]]

/-- The script of a long repetition: the number of times has a point. -/
def longRepetitionText : String :=
  "\x7b\"commands\":[[\"doRepeat\",9007199254740992.0,[[\"stopAllSounds\"]]]]," ++
    "\"variables\":\x7b\x7d,\"lists\":\x7b\x7d\x7d"

/-- A number is written with a point. -/
def hasPoint : Json.Number → Bool
  | .integer _ => false
  | .real _ _ => true

/-- Not every number of times is written as an integer. -/
theorem longRepetition_is_no_integer :
    ∃ outcome, (standard [] .numerals).translate longRepetition {} = .ok outcome ∧
      outcome.script.write.toOption = some longRepetitionText ∧
      ¬∀ items ∈ (Json.array (Meaning.blocksWire outcome.script.commands)).arrays,
        ∀ number, Json.figure? items = some (Opcode.repeatTimes, number) →
          ∃ n, number = .integer n := by
  have hcheck : ((standard [] .numerals).translate longRepetition {}).toOption.any (fun outcome =>
      outcome.script.write.toOption = some longRepetitionText &&
        (Json.array (Meaning.blocksWire outcome.script.commands)).arrays.any fun items =>
          (Json.figure? items).any fun figure =>
            figure.1 = Opcode.repeatTimes && hasPoint figure.2) = true := by
    rw [translate, interpret, evaluate_standard]
    decide +kernel
  obtain ⟨outcome, h, hwritten⟩ := exists_of_any hcheck
  obtain ⟨htext, harrays⟩ := Bool.and_eq_true_iff.mp hwritten
  refine ⟨outcome, h, of_decide_eq_true htext, fun hintegers => ?_⟩
  obtain ⟨items, hitems, hreal⟩ := List.any_eq_true.mp harrays
  obtain ⟨⟨opcode, number⟩, hfigure, hpoint⟩ := (Option.any_eq_true _ _).mp hreal
  obtain ⟨hopcode, hpoint⟩ := Bool.and_eq_true_iff.mp hpoint
  obtain rfl : opcode = Opcode.repeatTimes := of_decide_eq_true hopcode
  obtain ⟨n, rfl⟩ := hintegers items hitems number hfigure
  cases hpoint

end Language

end PhraseScript
