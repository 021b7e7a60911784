import PhraseScript.Proofs.Modifiers

/-!
# Items of lists

There are four phrases that name an item of a list by a word: one adds it to the list, three ask
whether it is there (`ItemUse`).  They do not take the word in the same way.  All of them take a
numeral for its number, but only the phrases that begin with the item ask the resolver for other
words as well.

The main statement is `Language.items_of_phrases`: what each phrase means, and when two of them
speak of the same item, by its form in scripts.
-/

namespace PhraseScript

/-! ### Words for items -/

/-- The item that a word stands for by itself. -/
def spokenItem (lower : String) : Meaning := (numeral? lower).elim (.text lower) .number

/-- The item that a word stands for when the resolver is asked, too. -/
def resolvedItem (numbers : NumberWords) (lower : String) : Meaning :=
  ((numeral? lower).or (numbers lower)).elim (.text lower) .number

/-- The phrases that name an item of a list by a word. -/
inductive ItemUse where
  /-- The item is added. -/
  | append
  /-- The list is asked whether it contains the item. -/
  | contains
  /-- The item is asked whether it is in the list. -/
  | member
  /-- The same, with a modifier. -/
  | memberModified (modifier : Modifier)

namespace ItemUse

/-- A phrase takes the item as what the resolver says. -/
def asksResolver : ItemUse → Bool
  | .append | .contains => false
  | .member | .memberModified _ => true

/-- The item that a phrase names by a word. -/
def item (use : ItemUse) (numbers : NumberWords) (lower : String) : Meaning :=
  if use.asksResolver then resolvedItem numbers lower else spokenItem lower

/-- What a phrase means, given the name of the list and the item. -/
def meaning (name : String) (item : Meaning) : ItemUse → Meaning
  | .append => .command (.mk Opcode.appendToList [item, .listName name])
  | .contains | .member => Construction.containsItem (.listName name) item
  | .memberModified modifier => modifier.around (Construction.containsItem (.listName name) item)

end ItemUse

/-- A number is never written like a text. -/
lemma Double.toJson_ne_string (x : Double) (word : String) : x.toJson ≠ .string word := by
  intro h
  rw [toJson.eq_def] at h
  split at h
  · cases h
  · split at h <;> cases h

lemma toWire_text_ne_number (word : String) (x : Double) :
    (Meaning.text word).toWire ≠ (Meaning.number x).toWire :=
  fun h => x.toJson_ne_string word (Except.ok.inj h).symm

lemma toWire_spokenItem_eq_iff {numbers : NumberWords} {lower : String} :
    (spokenItem lower).toWire = (resolvedItem numbers lower).toWire ↔
      (numeral? lower).isSome ∨ numbers lower = none := by
  rw [spokenItem, resolvedItem]
  cases numeral? lower with
  | some x => exact iff_of_true rfl (.inl rfl)
  | none =>
    cases numbers lower with
    | none => exact iff_of_true rfl (.inr rfl)
    | some x =>
      refine iff_of_false (toWire_text_ne_number lower x) ?_
      rintro (h | h) <;> cases h

/-- Two phrases speak of one item if they take words in the same way, and else if the word is a
numeral or unknown to the resolver. -/
lemma toWire_item_eq_iff {numbers : NumberWords} {lower : String} (use other : ItemUse) :
    (use.item numbers lower).toWire = (other.item numbers lower).toWire ↔
      use.asksResolver = other.asksResolver ∨ (numeral? lower).isSome ∨ numbers lower = none := by
  rw [ItemUse.item, ItemUse.item]
  cases use.asksResolver <;> cases other.asksResolver
  · simp
  · simp [toWire_spokenItem_eq_iff]
  · rw [eq_comm]
    simp [toWire_spokenItem_eq_iff]
  · simp

/-- A category without listed words has what it is open to. -/
lemma Lexicon.lookup_open {sounds : List String} {category : String} {produce : Producer}
    (hopen : standardOpen.reverse.lookup category = some produce)
    (hlisted : category ∉ (standardWords []).map Prod.fst) (word : String) :
    (standard sounds).lookup category word = produce (Text.toLower word) := by
  have hnone : lastListed? (standardWords sounds) category (Text.toLower word) = none := by
    rw [lastListed?, Option.map_eq_none_iff, List.find?_eq_none]
    rintro ⟨listed, words, produce⟩ hentry hfound
    obtain ⟨rfl, -⟩ := of_decide_eq_true hfound
    -- the sounds make no difference to which categories have lists
    have hsame : (standardWords sounds).map Prod.fst = (standardWords []).map Prod.fst := by
      simp [standardWords]
    exact hlisted (hsame ▸ List.mem_map_of_mem (List.mem_reverse.mp hentry))
  rw [lookup]
  simp only [producer?_standard, hnone, Option.none_or, hopen]

namespace Language

/-! ### Phrases -/

/-- In a session, a phrase of a category is understood in some way. -/
def Understood (language : Language) (session : Session) (category : String)
    (tree : Derivation) : Prop :=
  ∃ meaning, language.Understands session category tree meaning

/-- A tree is a phrase that names an item by `word` and a list by `name`.  What stands around the
word is understood in the session. -/
inductive IsItemPhrase (language : Language) (session : Session) (word name : String) :
    ItemUse → Derivation → Prop where
  | append {add onto list : Derivation} {leaf item outer : Span}
      (hadd : language.Understood session "Add" add)
      (honto : language.Understood session "To" onto)
      (hlist : language.Understands session "LIST_NAME" list (.listName name)) :
      IsItemPhrase language session word name .append
        (.node "DataCommand" ["Add", "ITEM", "To", "LIST_NAME"]
          [add, .node "ITEM" ["Unk"] [.leaf "Unk" word leaf] item, onto, list] outer)
  | contains {list contains : Derivation} {leaf item outer : Span}
      (hlist : language.Understands session "LIST_NAME" list (.listName name))
      (hcontains : language.Understood session "Contains" contains) :
      IsItemPhrase language session word name .contains
        (.node "BP" ["LIST_NAME", "Contains", "ITEM"]
          [list, contains, .node "ITEM" ["Unk"] [.leaf "Unk" word leaf] item] outer)
  | member {item within list : Derivation} {leaf outer : Span}
      (hitem : language.Understood session "Item" item)
      (hwithin : language.Understood session "In" within)
      (hlist : language.Understands session "LIST_NAME" list (.listName name)) :
      IsItemPhrase language session word name .member
        (.node "BP" ["Item", "Unk", "In", "LIST_NAME"]
          [item, .leaf "Unk" word leaf, within, list] outer)
  | memberModified {modifier : Modifier} {item denial within list : Derivation}
      {leaf outer : Span} (hitem : language.Understood session "Item" item)
      (hdenial : language.Understands session "LMOD" denial (.modifier modifier))
      (hwithin : language.Understood session "In" within)
      (hlist : language.Understands session "LIST_NAME" list (.listName name)) :
      IsItemPhrase language session word name (.memberModified modifier)
        (.node "BP" ["Item", "Unk", "LMOD", "In", "LIST_NAME"]
          [item, .leaf "Unk" word leaf, denial, within, list] outer)

variable {sounds : List String} {numbers : NumberWords} {session : Session} {word name : String}

lemma mem_standard_of_listRules {rule : Grammar.Rule} (h : rule ∈ Grammar.listRules) :
    rule ∈ Grammar.standard := by
  simp [Grammar.standard, h]

/-- Every word can name an item. -/
lemma understands_word (leaf : Span) :
    (standard sounds numbers).Understands session "Unk" (.leaf "Unk" word leaf)
      (spokenItem (Text.toLower word)) := by
  have hopen : Lexicon.standardOpen.reverse.lookup "Unk" = some Producer.numeralOrText := rfl
  refine ⟨rfl, interpret_eq_ok_iff.mpr (gives_leaf_iff.mpr ⟨?_, rfl⟩)⟩
  rw [Lexicon.lookup_open hopen (by decide), Producer.numeralOrText, spokenItem]
  cases numeral? (Text.toLower word) <;> rfl

/-- Every word can name a list. -/
lemma understands_listName (leaf : Span) :
    (standard sounds numbers).Understands session "LIST_NAME" (.leaf "LIST_NAME" word leaf)
      (.listName (Text.toLower word)) := by
  have hopen : Lexicon.standardOpen.reverse.lookup "LIST_NAME" = some Producer.listName := rfl
  refine ⟨rfl, interpret_eq_ok_iff.mpr (gives_leaf_iff.mpr ⟨?_, rfl⟩)⟩
  rw [Lexicon.lookup_open hopen (by decide), Producer.listName]

lemma understands_item (leaf item : Span) :
    (standard sounds numbers).Understands session "ITEM"
      (.node "ITEM" ["Unk"] [.leaf "Unk" word leaf] item) (spokenItem (Text.toLower word)) := by
  have hrule : (⟨"ITEM", ["Unk"]⟩, .pass 0) ∈ Grammar.standard :=
    mem_standard_of_listRules (by simp [Grammar.listRules, Grammar.rule])
  exact understands_node hrule (.cons (understands_word leaf) .nil) (gives_lift.mpr ⟨rfl, rfl⟩)

end Language

/-! ### The item in a call -/

namespace Call

variable {call : Call} {position : Nat} {lower : String} {environment : Environment}

lemma operand_eq_ok_of_part (hpart : call.part position = .ok (spokenItem lower)) :
    call.operand position = .ok (spokenItem lower) := by
  rw [operand, hpart, spokenItem]
  cases numeral? lower <;> rfl

lemma declaredOperand_eq_ok_of_part (hpart : call.part position = .ok (spokenItem lower)) :
    call.declaredOperand environment position = .ok (spokenItem lower) := by
  rw [declaredOperand, operand_eq_ok_of_part hpart, spokenItem]
  cases numeral? lower <;> rfl

/-- Only a word that is no numeral is left for the resolver. -/
lemma looseOperand_eq_ok_of_part (hpart : call.part position = .ok (spokenItem lower)) :
    call.looseOperand position = .ok (resolvedItem call.numbers lower) := by
  rw [looseOperand, hpart, spokenItem, resolvedItem]
  cases numeral? lower with
  | some x => rfl
  | none =>
    simp only [Option.elim_none, bind, Except.bind, Option.none_or]
    cases call.numbers lower <;> rfl

lemma declaredList_eq_ok_of_part {name : String}
    (hpart : call.part position = .ok (.listName name))
    (hlist : environment.hasList name = true) :
    call.declaredList environment position = .ok (.listName name) := by
  rw [declaredList, listName, hpart]
  simp [bind, Except.bind, pure, Except.pure, Environment.requireList, hlist]

lemma modifier_eq_ok_of_part {modifier : Modifier}
    (hpart : call.part position = .ok (.modifier modifier)) :
    call.modifier position = .ok modifier := by
  rw [Call.modifier, hpart]
  rfl

end Call

/-! ### What the phrases mean -/

namespace Language

variable {sounds : List String} {numbers : NumberWords} {session : Session} {word name : String}
  {use : ItemUse} {tree : Derivation}

/-- A phrase that names an item means what it makes of the item, and leaves the session as it
is. -/
theorem interpret_of_isItemPhrase (hlist : session.environment.hasList name = true)
    (h : IsItemPhrase (standard sounds numbers) session word name use tree) :
    (standard sounds numbers).interpret tree session =
      .ok (use.meaning name (use.item numbers (Text.toLower word)), session) := by
  cases h with
  | @append add onto list leaf item outer hadd honto hname =>
    obtain ⟨_, hadd⟩ := hadd
    obtain ⟨_, honto⟩ := honto
    have hrule : (⟨"DataCommand", ["Add", "ITEM", "To", "LIST_NAME"]⟩, .appendItem) ∈
        Grammar.standard :=
      mem_standard_of_listRules (by simp [Grammar.listRules, Grammar.rule])
    refine (understands_node hrule (.cons hadd (.cons (understands_item leaf item)
      (.cons honto (.cons hname .nil)))) ?_).interpret_eq
    simp only [Construction.build, gives_bind, gives_lift, gives_environment, gives_pure]
    exact ⟨_, _, ⟨rfl, rfl⟩, _, _, ⟨Call.declaredOperand_eq_ok_of_part rfl, rfl⟩, _, _,
      ⟨Call.declaredList_eq_ok_of_part rfl hlist, rfl⟩, rfl, rfl⟩
  | @contains list contains leaf item outer hname hcontains =>
    obtain ⟨_, hcontains⟩ := hcontains
    have hrule : (⟨"BP", ["LIST_NAME", "Contains", "ITEM"]⟩, .listContains) ∈ Grammar.standard :=
      mem_standard_of_listRules (by simp [Grammar.listRules, Grammar.rule])
    refine (understands_node hrule (.cons hname (.cons hcontains
      (.cons (understands_item leaf item) .nil))) ?_).interpret_eq
    simp only [Construction.build, gives_bind, gives_lift, gives_environment, gives_pure]
    exact ⟨_, _, ⟨rfl, rfl⟩, _, _, ⟨Call.declaredList_eq_ok_of_part rfl hlist, rfl⟩, _, _,
      ⟨Call.operand_eq_ok_of_part rfl, rfl⟩, rfl, rfl⟩
  | @member item within list leaf outer hitem hwithin hname =>
    obtain ⟨_, hitem⟩ := hitem
    obtain ⟨_, hwithin⟩ := hwithin
    have hrule : (⟨"BP", ["Item", "Unk", "In", "LIST_NAME"]⟩, .wordInList) ∈ Grammar.standard :=
      mem_standard_of_listRules (by simp [Grammar.listRules, Grammar.rule])
    refine (understands_node hrule (.cons hitem (.cons (understands_word leaf)
      (.cons hwithin (.cons hname .nil)))) ?_).interpret_eq
    simp only [Construction.build, gives_bind, gives_lift, gives_environment, gives_pure]
    exact ⟨_, _, ⟨Call.looseOperand_eq_ok_of_part rfl, rfl⟩, _, _, ⟨rfl, rfl⟩, _, _,
      ⟨Call.declaredList_eq_ok_of_part rfl hlist, rfl⟩, rfl, rfl⟩
  | @memberModified modifier item denial within list leaf outer hitem hdenial hwithin hname =>
    obtain ⟨_, hitem⟩ := hitem
    obtain ⟨_, hwithin⟩ := hwithin
    have hrule : (⟨"BP", ["Item", "Unk", "LMOD", "In", "LIST_NAME"]⟩, .wordInListModified) ∈
        Grammar.standard :=
      mem_standard_of_listRules (by simp [Grammar.listRules, Grammar.rule])
    refine (understands_node hrule (.cons hitem (.cons (understands_word leaf)
      (.cons hdenial (.cons hwithin (.cons hname .nil))))) ?_).interpret_eq
    simp only [Construction.build, gives_bind, gives_lift, gives_environment, gives_pure]
    exact ⟨_, _, ⟨Call.looseOperand_eq_ok_of_part rfl, rfl⟩, _, _,
      ⟨Call.modifier_eq_ok_of_part rfl, rfl⟩, _, _, ⟨rfl, rfl⟩, _, _,
      ⟨Call.declaredList_eq_ok_of_part rfl hlist, rfl⟩, rfl, rfl⟩

/-- What phrases about items of a declared list mean.  Two of them speak of the same item if both
ask the resolver about the word or neither does; otherwise only if the word is a numeral, or none
that the resolver knows. -/
theorem items_of_phrases (hlist : session.environment.hasList name = true) :
    (∀ use tree, IsItemPhrase (standard sounds numbers) session word name use tree →
      (standard sounds numbers).interpret tree session =
        .ok (use.meaning name (use.item numbers (Text.toLower word)), session)) ∧
    ∀ use other : ItemUse,
      (use.item numbers (Text.toLower word)).toWire =
          (other.item numbers (Text.toLower word)).toWire ↔
        use.asksResolver = other.asksResolver ∨ (numeral? (Text.toLower word)).isSome ∨
          numbers (Text.toLower word) = none :=
  ⟨fun _ _ h => interpret_of_isItemPhrase hlist h, toWire_item_eq_iff⟩

/-! ### Ten and the scores -/

/-- A resolver that knows one word. -/
def knowingTen : NumberWords := .extending [("ten", .ofInt 10)] .numerals

/-- A session with an empty list. -/
def withScores : Session := { environment := ({} : Environment).declareList "scores" }

/-- Add ten to scores. -/
def addTen : Derivation :=
  .node "DataCommand" ["Add", "ITEM", "To", "LIST_NAME"]
    [.word "Add" "add", .node "ITEM" ["Unk"] [.leaf "Unk" "ten" .unset] .unset, .word "To" "to",
      .word "LIST_NAME" "scores"] .unset

/-- Item ten in scores. -/
def tenInScores : Derivation :=
  .node "BP" ["Item", "Unk", "In", "LIST_NAME"]
    [.word "Item" "item", .leaf "Unk" "ten" .unset, .word "In" "in", .word "LIST_NAME" "scores"]
    .unset

lemma understood_keyword {category word : String} {words : List String}
    (h : (category, words) ∈ Lexicon.keywords) (hword : word ∈ words) :
    (standard sounds numbers).Understood session category (.word category word) :=
  ⟨.null, rfl, interpret_eq_ok_iff.mpr
    (gives_leaf_iff.mpr ⟨Lexicon.lookup_keyword h hword, rfl⟩)⟩

lemma understands_scores :
    (standard sounds numbers).Understands session "LIST_NAME" (.word "LIST_NAME" "scores")
      (.listName "scores") := by
  have hlower : Text.toLower "scores" = "scores" := by decide
  exact hlower ▸ understands_listName .unset

lemma isItemPhrase_addTen :
    IsItemPhrase (standard sounds numbers) session "ten" "scores" .append addTen := by
  have hadd : ("Add", ["add"]) ∈ Lexicon.keywords := by simp [Lexicon.keywords]
  have hto : ("To", ["to"]) ∈ Lexicon.keywords := by simp [Lexicon.keywords]
  exact .append (understood_keyword hadd (by simp)) (understood_keyword hto (by simp))
    understands_scores

lemma isItemPhrase_tenInScores :
    IsItemPhrase (standard sounds numbers) session "ten" "scores" .member tenInScores := by
  have hitem : ("Item", ["item"]) ∈ Lexicon.keywords := by simp [Lexicon.keywords]
  have hin : ("In", ["in"]) ∈ Lexicon.keywords := by simp [Lexicon.keywords]
  exact .member (understood_keyword hitem (by simp)) (understood_keyword hin (by simp))
    understands_scores

lemma hasList_withScores : withScores.environment.hasList "scores" = true := by decide

lemma toLower_ten : Text.toLower "ten" = "ten" := by decide

lemma numeral?_ten : numeral? "ten" = none := by
  have hnone : (numeral? "ten").isNone = true := by decide
  exact Option.isNone_iff_eq_none.mp hnone

/-- Without knowledge of number words, ten is asked for under the name under which it is added. -/
theorem items_of_phrases_about_ten :
    withScores.environment.hasList "scores" = true ∧
      (standard [] .numerals).interpret addTen withScores =
        .ok (ItemUse.append.meaning "scores" (ItemUse.append.item .numerals "ten"), withScores) ∧
      (standard [] .numerals).interpret tenInScores withScores =
        .ok (ItemUse.member.meaning "scores" (ItemUse.member.item .numerals "ten"), withScores) ∧
      (ItemUse.append.item .numerals "ten").toWire =
        (ItemUse.member.item .numerals "ten").toWire := by
  obtain ⟨hmeans, hsame⟩ :=
    @items_of_phrases [] .numerals withScores "ten" "scores" hasList_withScores
  rw [toLower_ten] at hmeans hsame
  exact ⟨hasList_withScores, hmeans _ _ isItemPhrase_addTen, hmeans _ _ isItemPhrase_tenInScores,
    (hsame .append .member).mpr (.inr (.inr numeral?_ten))⟩

/-- Where the resolver knows ten, the word is added and the number is asked for. -/
theorem ten_is_added_but_not_asked_for :
    (standard [] knowingTen).interpret addTen withScores =
        .ok (.command (.mk Opcode.appendToList [.text "ten", .listName "scores"]), withScores) ∧
      (standard [] knowingTen).interpret tenInScores withScores =
        .ok (.expression (.mk Opcode.listContains [.listName "scores", .number (.ofInt 10)]),
          withScores) ∧
      (Meaning.text "ten").toWire ≠ (Meaning.number (.ofInt 10)).toWire := by
  have hspoken : spokenItem "ten" = .text "ten" := by
    rw [spokenItem, numeral?_ten]
    rfl
  have hresolved : resolvedItem knowingTen "ten" = .number (.ofInt 10) := by
    rw [resolvedItem, numeral?_ten]
    rfl
  have hadd : (standard [] knowingTen).interpret addTen withScores = _ :=
    interpret_of_isItemPhrase hasList_withScores isItemPhrase_addTen
  have hmember : (standard [] knowingTen).interpret tenInScores withScores = _ :=
    interpret_of_isItemPhrase hasList_withScores isItemPhrase_tenInScores
  simp only [toLower_ten, ItemUse.item, ItemUse.asksResolver, hspoken, hresolved, if_true,
    Bool.false_eq_true, if_false] at hadd hmember
  exact ⟨hadd, hmember, toWire_text_ne_number "ten" (.ofInt 10)⟩

end Language

end PhraseScript
