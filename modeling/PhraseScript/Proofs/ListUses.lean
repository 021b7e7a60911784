import PhraseScript.Proofs.BlockOrigins

/-!
# Lists that scripts use

Some blocks have the name of a list among their operands, always at the same position
(`listPositions`).  A construction that makes such a block asks for the list in the environment,
and no rule takes a list back.  So all lists that a script uses, at any depth, are declared when
it is done (`Language.listsIn_of_gives`).
-/

namespace PhraseScript

/-- The position of the list among the operands of the blocks that use one. -/
def listPositions : List (String × Nat) :=
  [(Opcode.appendToList, 1), (Opcode.deleteLine, 1), (Opcode.setLine, 1), (Opcode.getLine, 1),
    (Opcode.listContains, 0)]

/-- The position of a list is where the documented form of a block has a list. -/
lemma BlockKind.lookup_listPositions (kind : BlockKind) :
    ∀ form ∈ kind.forms, listPositions.lookup form.1 = form.2.findIdx? (· = .list) := by
  cases kind <;> decide

/-- In a well-formed block there is the name of a list at the position of the list. -/
lemma IsBlock.exists_listName {admissible : Double → Prop} {kind : BlockKind} {block : Block}
    (h : IsBlock admissible kind block) {position : Nat}
    (hposition : listPositions.lookup block.opcode = some position) :
    ∃ name, block.operands[position]? = some (.listName name) := by
  cases h with
  | @intro _ opcode slots operands form fill =>
    have hslots := (kind.lookup_listPositions _ form).symm.trans hposition
    obtain ⟨hlt, hlist, -⟩ := List.findIdx?_eq_some_iff_getElem.mp hslots
    obtain ⟨operand, hoperand, hfits⟩ := fill.exists_fits (List.getElem?_eq_getElem hlt)
    rw [of_decide_eq_true hlist] at hfits
    cases hfits with
    | list name => exact ⟨name, hoperand⟩

/-! ### Uses of lists -/

/-- If a block uses a list by itself, it is one of certain lists. -/
def Block.ListIn (lists : String → Prop) (block : Block) : Prop :=
  ∀ position name, listPositions.lookup block.opcode = some position →
    block.operands[position]? = some (.listName name) → lists name

/-- All lists that blocks inside a meaning use are certain ones. -/
def Meaning.ListsIn (lists : String → Prop) (meaning : Meaning) : Prop :=
  ∀ block ∈ meaning.inner, block.ListIn lists

/-- An environment has no lists but certain ones. -/
def Environment.ListsIn (lists : String → Prop) (environment : Environment) : Prop :=
  ∀ name, environment.hasList name = true → lists name

section

variable {lists : String → Prop}

lemma Meaning.ListsIn.imp {meaning : Meaning} {others : String → Prop} (h : meaning.ListsIn lists)
    (himp : ∀ name, lists name → others name) : meaning.ListsIn others :=
  Inside.imp h fun _ hblock position name hposition hname =>
    himp name (hblock position name hposition hname)

/-- A block that is not particular uses no list by itself. -/
lemma Block.listIn_of_not_mem_particular (opcode : String) (operands : List Meaning)
    (h : opcode ∉ Opcode.particular) : (Block.mk opcode operands).ListIn lists := by
  intro position name hposition
  have hlisted : ∀ entry ∈ listPositions, entry.1 ∈ Opcode.particular := by decide
  exact absurd (hlisted (opcode, position) (mem_of_lookup hposition)) h

/-- A list that is asked for is declared. -/
lemma Call.exists_of_declaredList {call : Call} {environment : Environment} {position : Nat}
    {meaning : Meaning} (henvironment : environment.ListsIn lists)
    (h : call.declaredList environment position = .ok meaning) :
    ∃ name, meaning = .listName name ∧ lists name := by
  obtain ⟨name, -, hrest⟩ := bind_eq_ok_iff.mp h
  obtain ⟨⟨⟩, hlist, hmeaning⟩ := bind_eq_ok_iff.mp hrest
  exact ⟨name, (Except.ok.inj hmeaning).symm,
    henvironment name (Environment.requireList_eq_ok_iff.mp hlist)⟩

/-- The blocks that a construction makes use lists that it has asked for. -/
lemma Construction.Makes.listIn {construction : Construction} {call : Call}
    {environment : Environment} {block : Block} (henvironment : environment.ListsIn lists)
    (h : construction.Makes call environment block) : block.ListIn lists := by
  intro position name hposition hname
  cases h with
  | repeatTimes | repeatFor => cases hposition
  | appendItem _ hlist | deleteLine _ hlist | setLine _ hlist _ | getLine _ hlist
  | wordInList _ hlist | wordInListModified _ hlist | listContains _ hlist =>
    obtain rfl := Option.some.inj hposition
    obtain ⟨declared, rfl, hdeclared⟩ := Call.exists_of_declaredList henvironment hlist
    cases hname
    exact hdeclared

end

/-! ### Trees -/

namespace Construction

variable {lists : String → Prop} {call : Call} {construction : Construction}
  {before after : Session} {meaning : Meaning}

/-- No construction takes a list back. -/
lemma Does.hasList (h : Does call construction before meaning after) {name : String}
    (hname : before.environment.hasList name = true) :
    after.environment.hasList name = true := by
  cases h with
  | @createVariables _ names =>
    rw [Environment.hasList, Environment.lists_foldl_declareVariable]
    exact hname
  | createList =>
    rw [Environment.hasList_declareList, hname, Bool.or_true]
  | _ => exact hname

end Construction

namespace Language

variable {sounds : List String} {numbers : NumberWords}

/-- Lists stay declared, and what has been given uses declared lists only. -/
lemma listsIn_cases : EvaluationCases sounds numbers
    (fun _ before meaning after =>
      (before.environment.ListsIn fun name => after.environment.hasList name = true) ∧
        meaning.ListsIn fun name => after.environment.hasList name = true)
    (fun _ before parts after =>
      (before.environment.ListsIn fun name => after.environment.hasList name = true) ∧
        ∀ part ∈ parts, part.ListsIn fun name => after.environment.hasList name = true) where
  leaf h := ⟨fun _ hname => hname, h.inside Block.listIn_of_not_mem_particular⟩
  node {rule children span parts before between meaning after} hrule _ _ _ hchildren hbuild := by
    obtain ⟨hbefore, hparts⟩ := hchildren
    have hkept : between.environment.ListsIn fun name => after.environment.hasList name = true :=
      fun _ hname => (Construction.does_of_gives hbuild).hasList hname
    have hpartsKept : ∀ part ∈ parts,
        part.ListsIn fun name => after.environment.hasList name = true :=
      fun part hpart => (hparts part hpart).imp hkept
    exact ⟨fun name hname => hkept name (hbefore name hname),
      Construction.inside_rule Block.listIn_of_not_mem_particular hpartsKept hrule
        (fun _ hmakes => hmakes.listIn hkept) hbuild⟩
  nil := ⟨fun _ hname => hname, List.forall_mem_nil _⟩
  cons htree hrest := ⟨fun name hname => hrest.1 name (htree.1 name hname),
    List.forall_mem_cons.mpr ⟨htree.2.imp hrest.1, hrest.2⟩⟩

/-- All lists that what a tree means uses are declared afterwards. -/
theorem listsIn_of_gives {tree : Derivation} {before after : Session} {meaning : Meaning}
    (h : Gives ((standard sounds numbers).evaluate tree) before meaning after) :
    meaning.ListsIn fun name => after.environment.hasList name = true :=
  (listsIn_cases.evaluate tree _ _ _ h).2

end Language

end PhraseScript
