import PhraseScript.Proofs.Handlers
import PhraseScript.Proofs.Outline
import PhraseScript.Proofs.Paths

/-!
# Where the commands of a phrase are

The commands that a phrase adds to a script stand together: they are a stretch of the script, or of
a body of one of its commands (`Stretch`).  Which stretch it is can be told from the tree alone: the
phrases to the left make what is before it, and the nodes above that make a command are those in
whose bodies it lies (`Derivation.stretch`).

The main statement is `Language.exists_placed`: every phrase of a tree that acts has been evaluated,
and the commands that it gave are at its stretch in what the tree means.
-/

namespace PhraseScript

/-! ### Stretches -/

/-- A stretch of the commands of a script.  It lies in the body of a command, in the body of
another that is in this one, and so on, from the outermost command on; there it has a place. -/
structure Stretch where
  /-- The commands by their positions, each with the number of the body. -/
  bodies : List (Nat × Nat)
  start : Nat
  length : Nat
deriving DecidableEq, Inhabited

namespace Stretch

/-- What is in the innermost of bodies inside each other. -/
def bodyAt? : List (Nat × Nat) → List Block → Option (List Block)
  | [], blocks => some blocks
  | (command, body) :: inner, blocks =>
    (blocks[command]?).bind fun block => (block.bodies[body]?).bind (bodyAt? inner)

/-- So many commands from a place on, if there are as many. -/
def cut? (start length : Nat) (blocks : List Block) : Option (List Block) :=
  if start + length ≤ blocks.length then some ((blocks.drop start).take length) else none

/-- The commands of a stretch. -/
def of? (stretch : Stretch) (blocks : List Block) : Option (List Block) :=
  (bodyAt? stretch.bodies blocks).bind (cut? stretch.start stretch.length)

/-- The same stretch when there are more commands before it. -/
def shift (count : Nat) : Stretch → Stretch
  | ⟨[], start, length⟩ => ⟨[], count + start, length⟩
  | ⟨(command, body) :: inner, start, length⟩ => ⟨(count + command, body) :: inner, start, length⟩

/-- A stretch of the body of a single command. -/
def inBody (body : Nat) (stretch : Stretch) : Stretch :=
  { stretch with bodies := (0, body) :: stretch.bodies }

variable {stretch : Stretch} {blocks found before after : List Block}

lemma of?_all : Stretch.of? ⟨[], 0, blocks.length⟩ blocks = some blocks := by
  simp [of?, bodyAt?, cut?]

/-- Where commands are cut out depends neither on those before nor on those behind. -/
lemma cut?_append {start length : Nat} (h : cut? start length blocks = some found) :
    cut? (before.length + start) length (before ++ blocks ++ after) = some found := by
  obtain ⟨hbound, hfound⟩ := Option.ite_none_right_eq_some.mp h
  have hlength : (before ++ blocks ++ after).length =
      before.length + blocks.length + after.length := by
    rw [List.length_append, List.length_append]
  rw [cut?, if_pos (by omega), ← hfound, List.append_assoc, ← List.drop_drop, List.drop_left,
    List.drop_append_of_le_length (by omega),
    List.take_append_of_le_length (by rw [List.length_drop]; omega)]

lemma of?_shift (h : stretch.of? blocks = some found) :
    (stretch.shift before.length).of? (before ++ blocks ++ after) = some found := by
  obtain ⟨bodies, start, length⟩ := stretch
  cases bodies with
  | nil => exact cut?_append h
  | cons step inner =>
    obtain ⟨command, body⟩ := step
    obtain ⟨cutFrom, hbody, hcut⟩ := Option.bind_eq_some_iff.mp h
    obtain ⟨block, hblock, hinner⟩ := Option.bind_eq_some_iff.mp hbody
    obtain ⟨hlt, -⟩ := List.getElem?_eq_some_iff.mp hblock
    have hsame : (before ++ blocks ++ after)[before.length + command]? = some block := by
      rw [List.append_assoc, List.getElem?_append_right (Nat.le_add_right _ _),
        Nat.add_sub_cancel_left, List.getElem?_append_left hlt, hblock]
    exact Option.bind_eq_some_iff.mpr
      ⟨cutFrom, Option.bind_eq_some_iff.mpr ⟨block, hsame, hinner⟩, hcut⟩

lemma of?_inBody {block : Block} {body : Nat} (hbody : block.bodies[body]? = some blocks)
    (h : stretch.of? blocks = some found) : (stretch.inBody body).of? [block] = some found := by
  obtain ⟨cutFrom, hinner, hcut⟩ := Option.bind_eq_some_iff.mp h
  exact Option.bind_eq_some_iff.mpr ⟨cutFrom, Option.bind_eq_some_iff.mpr
    ⟨block, rfl, Option.bind_eq_some_iff.mpr ⟨blocks, hbody, hinner⟩⟩, hcut⟩

end Stretch

namespace Derivation

/-- A stretch of what a child means, as one of what its node means.  When the node makes a command
it lies in the body of this child, and otherwise behind what the children to the left make. -/
def outward : Derivation → Nat → Stretch → Stretch
  | .leaf _ _ _, _, stretch => stretch
  | .node lhs rhs children _, position, stretch =>
    match Grammar.nodeOpcode? ⟨lhs, rhs⟩ children with
    | some _ =>
      stretch.inBody (((children.take position).map category).countP (· ∈ Grammar.bodyPhrases))
    | none => stretch.shift (forestOutline (children.take position)).length

/-- The stretch of the phrase at the end of a path, in what the tree means. -/
def stretch : Derivation → List Nat → Stretch
  | tree, [] => ⟨[], 0, tree.outline.length⟩
  | tree, position :: path =>
    (tree.children[position]?).elim default fun child => tree.outward position (child.stretch path)

end Derivation

/-- Of the elements before one that is kept, those that are kept are before it. -/
lemma getElem?_filter_countP_take {α : Type} {p : α → Bool} {l : List α} {position : Nat} {a : α}
    (ha : l[position]? = some a) (h : p a = true) :
    (l.filter p)[(l.take position).countP p]? = some a := by
  induction l generalizing position with
  | nil => cases ha
  | cons b l ih =>
    cases position with
    | zero =>
      obtain rfl := Option.some.inj ha
      simp [h]
    | succ position =>
      have hrest := ih (show l[position]? = some a from ha)
      cases hb : p b with
      | true => simpa [hb] using hrest
      | false => simpa [hb] using hrest

/-! ### Phrases that act -/

namespace Grammar

/-- What acts is only part of what acts. -/
def Rule.actsAbove (rule : Rule) : Bool :=
  (Sense.ofCategory rule.1.lhs).acts ||
    rule.1.rhs.all fun category => !(Sense.ofCategory category).acts

theorem standard_actsAbove {rule : Rule} (h : rule ∈ standard) : rule.actsAbove = true := by
  have hall : standard.all Rule.actsAbove = true := by decide +kernel
  exact List.all_eq_true.mp hall rule h

lemma acts_lhs_of_acts {rule : Rule} (hrule : rule ∈ standard) {category : String}
    (hcategory : category ∈ rule.1.rhs) (h : (Sense.ofCategory category).acts = true) :
    (Sense.ofCategory rule.1.lhs).acts = true := by
  have habove := standard_actsAbove hrule
  rw [Rule.actsAbove, Bool.or_eq_true] at habove
  refine habove.resolve_right fun hall => ?_
  have hquiet := List.all_eq_true.mp hall category hcategory
  simp [h] at hquiet

end Grammar

namespace Language

variable {sounds : List String} {numbers : NumberWords} {before between after : Session}
  {meaning part : Meaning}

section Node

variable {rule : Grammar.Rule} {children : List Derivation} {parts : List Meaning}

/-- The commands of a child that can be a body, among the bodies of a call. -/
lemma bodies_getElem? {call : Call} (hlength : call.rule.rhs.length = call.parts.length)
    {category : String} {position : Nat} (hcategory : call.rule.rhs[position]? = some category)
    (hpart : call.parts[position]? = some part) (hbody : category ∈ Grammar.bodyPhrases) :
    call.bodies[(call.rule.rhs.take position).countP (· ∈ Grammar.bodyPhrases)]? =
      some part.blocks := by
  have hzip : (call.rule.rhs.zip call.parts)[position]? = some (category, part) :=
    List.getElem?_zip_eq_some.mpr ⟨hcategory, hpart⟩
  have hcount : ((call.rule.rhs.zip call.parts).take position).countP
      (·.1 ∈ Grammar.bodyPhrases) =
        (call.rule.rhs.take position).countP (· ∈ Grammar.bodyPhrases) := by
    conv_rhs =>
      rw [← List.map_fst_zip (Nat.le_of_eq hlength), ← List.map_take, List.countP_map]
    rfl
  rw [Call.bodies, List.getElem?_map, ← hcount,
    getElem?_filter_countP_take hzip (decide_eq_true hbody)]
  rfl

/-- A stretch of what a child means, in what its node means. -/
lemma of?_outward (span : Span) (hrule : rule ∈ Grammar.standard)
    (hcategories : children.map Derivation.category = rule.1.rhs)
    (hparts : Gives ((standard sounds numbers).evaluateForest children) before parts between)
    (hmeaning : (Sense.ofCategory rule.1.lhs).Covers meaning)
    (hbuild : Gives (rule.2.build ⟨rule.1, parts, numbers⟩) between meaning after)
    {position : Nat} {child : Derivation} (hchild : children[position]? = some child)
    (hpart : parts[position]? = some part)
    (hacts : (Sense.ofCategory child.category).acts = true) {stretch : Stretch}
    {found : List Block} (h : stretch.of? part.blocks = some found) :
    ((Derivation.node rule.1.lhs rule.1.rhs children span).outward position stretch).of?
      meaning.blocks = some found := by
  have hsenses := covers_of_givesForest hparts
  have houtlined := outlined_cases.evaluateForest children _ _ _ hparts
  rw [hcategories] at hsenses
  have hcategory : rule.1.rhs[position]? = some child.category := by
    rw [← hcategories, List.getElem?_map, hchild]
    rfl
  have hcarries := Grammar.Rule.carries_build
    (Grammar.standard_tellsCommands hrule) hsenses hmeaning hbuild
  have hopcode : Grammar.nodeOpcode? rule.1 children = Call.opcode? ⟨rule.1, parts, numbers⟩ :=
    Grammar.nodeOpcode?_eq ⟨rule.1, parts, numbers⟩ hcategories houtlined
  rw [Derivation.outward, hopcode]
  rw [Call.Carries] at hcarries
  cases hcall : Call.opcode? ⟨rule.1, parts, numbers⟩ with
  | some opcode =>
    simp only [hcall] at hcarries
    obtain ⟨block, rfl, -, hbodies, -, hothers⟩ := hcarries
    -- a child that acts is a body of the command
    have hbody : child.category ∈ Grammar.bodyPhrases := by
      by_contra hnot
      simp [hothers _ (List.mem_of_getElem? hcategory) hnot] at hacts
    refine Stretch.of?_inBody ?_ h
    rw [List.map_take, hcategories, hbodies]
    exact bodies_getElem? hsenses.length_eq hcategory hpart hbody
  | none =>
    simp only [hcall] at hcarries
    obtain ⟨hlt, hget⟩ := List.getElem?_eq_some_iff.mp hpart
    have hsplit : parts.flatMap Meaning.blocks = (parts.take position).flatMap Meaning.blocks ++
        part.blocks ++ (parts.drop (position + 1)).flatMap Meaning.blocks := by
      conv_lhs => rw [← List.take_append_drop position parts, List.drop_eq_getElem_cons hlt, hget]
      rw [List.flatMap_append, List.flatMap_cons, List.append_assoc]
    have hbefore : (Derivation.forestOutline (children.take position)).length =
        ((parts.take position).flatMap Meaning.blocks).length := by
      rw [← Derivation.forestOutline_eq (List.forall₂_take position houtlined), List.length_map]
    rw [hcarries, hsplit, hbefore]
    exact Stretch.of?_shift h

end Node

/-- What a part of a tree means is at its stretch in what the tree means.  If it is a handler the
tree means nothing else. -/
structure Placed (tree : Derivation) (path : List Nat) (meaning part : Meaning) : Prop where
  stretch : (tree.stretch path).of? meaning.blocks = some part.blocks
  handler : ∀ blocks, part = .handler blocks → meaning = .handler blocks

/-- Every phrase of a tree that acts is evaluated, and is found again in what the tree means. -/
theorem exists_placed {tree node : Derivation} {path : List Nat}
    (h : Gives ((standard sounds numbers).evaluate tree) before meaning after)
    (hnode : tree.nodeAt? path = some node)
    (hacts : (Sense.ofCategory node.category).acts = true) :
    (Sense.ofCategory tree.category).acts = true ∧ ∃ start part stop,
      (standard sounds numbers).Reaches tree before path node start ∧
      Gives ((standard sounds numbers).evaluate node) start part stop ∧
      Placed tree path meaning part := by
  induction path generalizing tree before meaning after with
  | nil =>
    obtain rfl := Option.some.inj hnode
    have hlength : tree.outline.length = meaning.blocks.length := by
      rw [← (outlined_cases.evaluate tree _ _ _ h).outline, List.length_map]
    refine ⟨hacts, before, meaning, after, reaches_nil_iff.mpr ⟨rfl, rfl⟩, h, ?_, fun _ h => h⟩
    rw [Derivation.stretch, hlength]
    exact Stretch.of?_all
  | cons position path ih =>
    obtain ⟨child, hchild, hinner⟩ := Option.bind_eq_some_iff.mp hnode
    cases tree with
    | leaf category word span => cases hchild
    | node lhs rhs children span =>
      have hchild : children[position]? = some child := hchild
      have hmeaning := covers_of_gives h
      obtain ⟨construction, parts, between, hrule, hcategories, hthreads, hbuild⟩ :=
        gives_node_iff.mp h
      have hparts := gives_forest_iff.mpr hthreads
      obtain ⟨others, begin, part, stop, hothers, hchildGives, hpart⟩ :=
        exists_gives_of_getElem? hparts hchild
      obtain ⟨hchildActs, start, innerPart, finish, hreaches, hgives, hplaced⟩ :=
        ih hchildGives hinner
      have hmem : child.category ∈ rhs :=
        hcategories ▸ List.mem_map_of_mem (List.mem_of_getElem? hchild)
      refine ⟨Grammar.acts_lhs_of_acts hrule hmem hchildActs, start, innerPart, finish, ?_, hgives,
        ?_, ?_⟩
      · exact reaches_cons_iff.mpr ⟨applies_of_mem_standard hrule hcategories, child, others, begin,
          hchild, hothers, hreaches⟩
      · have houtward := of?_outward span hrule hcategories hparts hmeaning hbuild hchild hpart
          hchildActs hplaced.stretch
        simpa only [Derivation.stretch, Derivation.children, hchild, Option.elim_some] using
          houtward
      · -- a handler is handed on at every node on the way
        rintro blocks rfl
        obtain rfl := hplaced.handler blocks rfl
        have hsenses := covers_of_givesForest hparts
        rw [hcategories] at hsenses
        obtain ⟨hhands, -⟩ := handsOn_of_handler hrule hsenses hbuild hpart
        exact Construction.eq_handler_of_handsOn? hhands hpart hbuild

end Language

end PhraseScript
