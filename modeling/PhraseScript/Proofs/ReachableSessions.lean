import PhraseScript.Proofs.Effects
import PhraseScript.Proofs.Evaluations
import PhraseScript.Proofs.InnerBlocks
import PhraseScript.Proofs.SavedSessions

/-!
# What sessions hold

Sentences put nothing into a session but the values of meanings in scripts
(`Construction.Does.grows`, `Session.Reachable.holdsWires`).  Such a value comes back from its text
once its reals do: it has no objects, and its integers are below `2 ^ 53`.  So a session that
sentences lead to is loaded as it was saved, unless something in it is too deep
(`Session.Reachable.readSaved?_eq`).
-/

namespace PhraseScript

/-! ### Values in scripts -/

namespace Json

/-- A value without unordered objects, all of whose integers are exact as doubles. -/
structure IsExact (value : Json) : Prop where
  ordered : value.IsOrdered
  integers : ∀ n, .integer n ∈ value.numbers → -(2 ^ 53) < n ∧ n < 2 ^ 53

lemma isExact_array {items : List Json} (h : ∀ item ∈ items, item.IsExact) :
    (Json.array items).IsExact := by
  constructor
  · rw [IsOrdered]
    induction items with
    | nil => trivial
    | cons item rest ih =>
      exact ⟨(h item (by simp)).ordered, ih fun other hother => h other (by simp [hother])⟩
  · rw [numbers]
    induction items with
    | nil => simp [itemNumbers]
    | cons item rest ih =>
      intro n hn
      rcases List.mem_append.mp hn with hn | hn
      · exact (h item (by simp)).integers n hn
      · exact ih (fun other hother => h other (by simp [hother])) n hn

lemma isExact_string (value : String) : (Json.string value).IsExact :=
  ⟨trivial, by simp [numbers]⟩

lemma isExact_null : Json.null.IsExact := ⟨trivial, by simp [numbers]⟩

/-- An exact value comes back if its reals do. -/
lemma IsExact.isKept {value : Json} (h : value.IsExact)
    (hreals : ∀ negative magnitude, .real negative magnitude ∈ value.numbers →
      (Number.real negative magnitude).ReadsBack) : value.IsKept := by
  refine ⟨h.ordered, fun n hn => ?_⟩
  cases n with
  | integer n =>
    obtain ⟨hlower, hupper⟩ := h.integers n hn
    exact Number.readsBack_integer (by omega) (by omega)
  | real negative magnitude => exact hreals negative magnitude hn

end Json

lemma Double.isExact_toJson (x : Double) : x.toJson.IsExact := by
  unfold toJson
  split
  · next value hvalue =>
    refine ⟨trivial, ?_⟩
    simp only [Json.int, Json.numbers, List.mem_singleton, Json.Number.integer.injEq]
    rintro n rfl
    cases x with
    | finite negative magnitude =>
      rw [toInt?] at hvalue
      split at hvalue
      · next hsmall =>
        have hfloor : magnitude.floor < 2 ^ 53 := hsmall.2
        obtain rfl := Option.some.inj hvalue
        split <;> omega
      · cases hvalue
    | _ => cases hvalue
  · split
    · exact ⟨trivial, by simp [Json.numbers]⟩
    · exact Json.isExact_null

namespace Meaning

mutual

/-- The value of a meaning is exact. -/
theorem isExact_wire : (meaning : Meaning) → meaning.wire.IsExact
  | .number value => by
    rw [wire]
    exact value.isExact_toJson
  | .text value => Json.isExact_string value
  | .variableName name => Json.isExact_string name
  | .listName name => Json.isExact_string name
  | .expression block => by
    rw [wire]
    exact isExact_blockWire block
  | .command block => by
    rw [wire]
    exact isExact_blockWire block
  | .commands blocks => by
    rw [wire]
    exact Json.isExact_array (isExact_blocksWire blocks)
  | .handler blocks => by
    rw [wire]
    exact Json.isExact_array (isExact_blocksWire blocks)
  | .null | .modifier _ | .comparator _ | .declaration _ => Json.isExact_null

theorem isExact_blockWire : (block : Block) → (blockWire block).IsExact
  | .mk opcode operands => by
    rw [blockWire]
    exact Json.isExact_array
      (List.forall_mem_cons.mpr ⟨Json.isExact_string opcode, isExact_operandsWire operands⟩)

theorem isExact_operandsWire : (operands : List Meaning) →
    ∀ value ∈ operandsWire operands, value.IsExact
  | [] => List.forall_mem_nil _
  | operand :: rest => by
    rw [operandsWire]
    exact List.forall_mem_cons.mpr ⟨isExact_wire operand, isExact_operandsWire rest⟩

theorem isExact_blocksWire : (blocks : List Block) → ∀ value ∈ blocksWire blocks, value.IsExact
  | [] => List.forall_mem_nil _
  | block :: rest => by
    rw [blocksWire]
    exact List.forall_mem_cons.mpr ⟨isExact_blockWire block, isExact_blocksWire rest⟩

end

end Meaning

/-! ### What is put into a session -/

/-- A value is that of a meaning. -/
def Json.IsWire (value : Json) : Prop := ∃ meaning : Meaning, value = meaning.wire

lemma Meaning.wire_of_toInt? {x : Double} {n : Int} (h : x.toInt? = some n) :
    (number x).wire = .int n := by
  simp only [wire, Double.toJson, h]

/-- Zero, which variables have at first, is the value of a number. -/
lemma Json.int_zero_eq : Json.int 0 = (Meaning.number (.ofInt 0)).wire :=
  (Meaning.wire_of_toInt? (Double.toInt?_ofInt (by decide))).symm

namespace Environment

/-- All values of an environment are those of meanings. -/
def HoldsWires (environment : Environment) : Prop := ∀ value ∈ environment.values, value.IsWire

/-- New values of variables are good, and new lists are empty. -/
structure Grows (good : Json → Prop) (before after : Environment) : Prop where
  vars : ∀ entry ∈ after.vars.entries, entry ∈ before.vars.entries ∨ good entry.2
  lists : ∀ entry ∈ after.lists.entries, entry ∈ before.lists.entries ∨ entry.2 = []

variable {good : Json → Prop} {environment before between after : Environment} {name : String}

namespace Grows

lemma refl (environment : Environment) : Grows good environment environment :=
  ⟨fun _ => .inl, fun _ => .inl⟩

lemma trans (h : Grows good before between) (h' : Grows good between after) :
    Grows good before after :=
  ⟨fun entry hentry => (h'.vars entry hentry).elim (h.vars entry) .inr,
    fun entry hentry => (h'.lists entry hentry).elim (h.lists entry) .inr⟩

lemma store {value : Json} (hvalue : good value) :
    Grows good environment { environment with vars := environment.vars.insert name value } := by
  refine ⟨fun entry hentry => ?_, fun _ => .inl⟩
  rcases mem_insertEntry hentry with rfl | hentry
  · exact .inr hvalue
  · exact .inl hentry

lemma declareVariables (names : List String) (hzero : good (.int 0)) :
    Grows good environment (names.foldl .declareVariable environment) := by
  induction names generalizing environment with
  | nil => exact refl environment
  | cons name rest ih => exact (store hzero).trans ih

lemma declareList : Grows good environment (environment.declareList name) := by
  refine ⟨fun _ => .inl, fun entry hentry => ?_⟩
  rcases mem_insertEntry hentry with rfl | hentry
  · exact .inr rfl
  · exact .inl hentry

lemma eraseVariable :
    Grows good environment { environment with vars := environment.vars.erase name } :=
  ⟨fun _ hentry => .inl (List.mem_filter.mp hentry).1, fun _ => .inl⟩

lemma holdsWires (h : Grows Json.IsWire before after) (hwires : before.HoldsWires) :
    after.HoldsWires := by
  simp only [HoldsWires, values, List.forall_mem_append, List.forall_mem_map,
    List.forall_mem_flatMap] at hwires ⊢
  refine ⟨fun entry hentry => ?_, fun entry hentry item hitem => ?_⟩
  · exact (h.vars entry hentry).elim (hwires.1 entry) id
  · rcases h.lists entry hentry with hentry | hempty
    · exact hwires.2 entry hentry item hitem
    · rw [hempty] at hitem
      cases hitem

end Grows

end Environment

namespace Session

/-- All values of a session are those of meanings. -/
structure HoldsWires (session : Session) : Prop where
  environment : session.environment.HoldsWires
  program : ∀ sequence ∈ session.program.getD [], sequence.IsWire

lemma HoldsWires.startRecording {session : Session} (h : session.HoldsWires) :
    session.startRecording.HoldsWires :=
  ⟨h.environment, h.program⟩

/-- New values of variables and new recorded sequences are good, and new lists are empty. -/
structure Grows (good : Json → Prop) (before after : Session) : Prop where
  environment : before.environment.Grows good after.environment
  program : ∃ added, after.program = before.program.map (· ++ added) ∧ ∀ value ∈ added, good value

namespace Grows

variable {good good' : Json → Prop} {before between after session : Session}

lemma of_environment {environment : Environment} (h : before.environment.Grows good environment) :
    Grows good before { before with environment } := by
  refine ⟨h, [], ?_, List.forall_mem_nil _⟩
  cases before.program with
  | none => rfl
  | some sequences => exact congrArg some (List.append_nil sequences).symm

lemma refl (session : Session) : Grows good session session := of_environment (.refl _)

lemma trans (h : Grows good before between) (h' : Grows good between after) :
    Grows good before after := by
  obtain ⟨added, hprogram, hadded⟩ := h.program
  obtain ⟨more, hprogram', hmore⟩ := h'.program
  refine ⟨h.environment.trans h'.environment, added ++ more, ?_,
    List.forall_mem_append.mpr ⟨hadded, hmore⟩⟩
  rw [hprogram', hprogram]
  cases before.program with
  | none => rfl
  | some sequences => exact congrArg some (List.append_assoc sequences added more)

lemma imp (h : Grows good before after) (himp : ∀ value, good value → good' value) :
    Grows good' before after := by
  obtain ⟨added, hprogram, hadded⟩ := h.program
  exact ⟨⟨fun entry hentry => (h.environment.vars entry hentry).imp_right (himp _),
    h.environment.lists⟩, added, hprogram, fun value hvalue => himp value (hadded value hvalue)⟩

lemma record {sequence : Json} (hsequence : good sequence) :
    Grows good session (session.record sequence) :=
  ⟨.refl _, [sequence], rfl, List.forall_mem_singleton.mpr hsequence⟩

lemma holdsWires (h : Grows Json.IsWire before after) (hwires : before.HoldsWires) :
    after.HoldsWires := by
  refine ⟨h.environment.holdsWires hwires.environment, ?_⟩
  obtain ⟨added, hprogram, hadded⟩ := h.program
  have hkept := hwires.program
  rw [hprogram]
  cases hsequences : before.program with
  | none => exact List.forall_mem_nil _
  | some sequences =>
    rw [hsequences] at hkept
    exact List.forall_mem_append.mpr ⟨hkept, hadded⟩

end Grows

end Session

/-- What a construction puts into the session is the value of a meaning, all blocks of which are
inside what the construction gives. -/
theorem Construction.Does.grows {construction : Construction} {call : Call}
    {before after : Session} {meaning : Meaning} (h : Does call construction before meaning after) :
    before.Grows (fun value => ∃ stored : Meaning, stored.inner ⊆ meaning.inner ∧
      value = stored.wire) after := by
  have hset {name : String} {stored : Meaning} :
      stored.inner ⊆ (Meaning.command (.mk Opcode.setVariable [.text name, stored])).inner := by
    simp [Meaning.inner, Block.inner_mk]
  cases h with
  | nothing => exact .refl _
  | recordSequence => exact .record ⟨_, List.Subset.refl _, rfl⟩
  | createVariables =>
    exact .of_environment (.declareVariables _ ⟨_, List.nil_subset _, Json.int_zero_eq⟩)
  | createList => exact .of_environment .declareList
  | deleteVariable => exact .of_environment .eraseVariable
  | setVariable | scaleVariable => exact .of_environment (.store ⟨_, hset, rfl⟩)

namespace Language

lemma holdsWires_cases (sounds : List String) (numbers : NumberWords) :
    EvaluationCases sounds numbers
      (fun _ before _ after => before.HoldsWires → after.HoldsWires)
      (fun _ before _ after => before.HoldsWires → after.HoldsWires) where
  leaf _ hwires := hwires
  node _ _ _ _ hchildren hbuild hwires :=
    ((Construction.does_of_gives hbuild).grows.imp fun _ ⟨stored, _, heq⟩ => ⟨stored, heq⟩)
      |>.holdsWires (hchildren hwires)
  nil hwires := hwires
  cons htree hrest hwires := hrest (htree hwires)

lemma exists_of_translateText {language : Language} {text : String}
    {session : Session} {outcome : Outcome}
    (h : language.translateText text session = .ok outcome) :
    ∃ tree, Derivation.read text = .ok tree ∧ language.translate tree session = .ok outcome := by
  rw [translateText] at h
  split at h
  · cases h
  · next tree hread => exact ⟨tree, hread, h⟩

end Language

/-! ### Reachable sessions -/

namespace Session

/-- The sessions that sentences lead to from an empty one.  Recording may be asked for at any
time, and every sentence may have its own sounds and numbers. -/
inductive Reachable : Session → Prop where
  | empty : Reachable {}
  | startRecording {session : Session} (h : Reachable session) : Reachable session.startRecording
  | sentence {session : Session} {sounds : List String} {numbers : NumberWords} {text : String}
      {outcome : Outcome} (h : Reachable session)
      (htranslate : (Language.standard sounds numbers).translateText text session = .ok outcome) :
      Reachable outcome.session

variable {session : Session}

/-- Everything that is kept in a session is the value of a meaning. -/
theorem Reachable.holdsWires (h : session.Reachable) : session.HoldsWires := by
  induction h with
  | empty => exact ⟨List.forall_mem_nil _, List.forall_mem_nil _⟩
  | startRecording _ ih => exact ih.startRecording
  | sentence _ htranslate ih =>
    obtain ⟨tree, -, htree⟩ := Language.exists_of_translateText htranslate
    obtain ⟨meaning, hmeaning, -⟩ := Language.translate_eq_ok_iff.mp htree
    exact (Language.holdsWires_cases _ _).evaluate tree _ _ _ hmeaning ih

/-- Every real number in a session comes back from its text. -/
def RealsReadBack (session : Session) : Prop :=
  ∀ value ∈ session.values, ∀ negative magnitude,
    .real negative magnitude ∈ value.numbers → (Json.Number.real negative magnitude).ReadsBack

/-- A session that sentences lead to is loaded as it was saved, unless it is too deep. -/
theorem Reachable.readSaved?_eq (h : session.Reachable) (hreals : session.RealsReadBack) :
    readSaved? session.savedText =
      if session.savedDocument.depth ≤ Json.maxDepth then some (schema, session) else none := by
  refine readSaved?_savedText fun value hvalue => ?_
  have hwire : value.IsWire :=
    (List.mem_append.mp hvalue).elim (h.holdsWires.environment value) (h.holdsWires.program value)
  obtain ⟨meaning, rfl⟩ := hwire
  exact meaning.isExact_wire.isKept (hreals _ hvalue)

end Session

end PhraseScript
