import PhraseScript.Proofs.Renderings
import PhraseScript.Proofs.SavedSessions
import PhraseScript.Proofs.Spans

/-!
# Two notations for trees

A tree can be written in brackets or as JSON.  Without spans in the JSON, both ways of writing it
are read as the same tree (`Derivation.read_notations`), so that it makes no difference in which of
them a sentence is given.

The JSON may have any layout, and the members of its objects any order: it is known by the value as
written (`IsWritten`).  That the reader takes such a text for JSON, and not for brackets, is due to
how it begins (`exists_brace_of_read?`).
-/

namespace PhraseScript

namespace Json

/-! ### How an object begins -/

namespace Token

variable {state next : State} {tokens first : List Token}

lemma word?_ne_openBrace {read : List Char} {token : Token} (h : word? read = some token) :
    token ≠ .openBrace := by
  rintro rfl
  simp only [word?] at h
  split_ifs at h <;> cases h

lemma number?_ne_openBrace {read : List Char} {token : Token} (h : number? read = some token) :
    token ≠ .openBrace := by
  rintro rfl
  rw [number?] at h
  split at h
  · cases h
  · split_ifs at h
    cases h

/-- In the middle of a token, a step goes on with it or gives it out, and it is not a brace. -/
lemma step_begun {c : Char} (hstate : state ≠ .between) (h : step state c = some (first, next)) :
    first = [] ∧ next ≠ .between ∨
      ∃ token rest, first = token :: rest ∧ token ≠ .openBrace := by
  cases state with
  | between => exact (hstate rfl).elim
  | word read =>
    rw [step] at h
    split at h
    · cases h
      exact .inl ⟨rfl, State.noConfusion⟩
    · obtain ⟨token, htoken, h⟩ := Option.bind_eq_some_iff.mp h
      obtain ⟨⟨rest, state⟩, -, h⟩ := Option.bind_eq_some_iff.mp h
      cases h
      exact .inr ⟨token, rest, rfl, word?_ne_openBrace htoken⟩
  | number read =>
    rw [step] at h
    split at h
    · cases h
      exact .inl ⟨rfl, State.noConfusion⟩
    · obtain ⟨token, htoken, h⟩ := Option.bind_eq_some_iff.mp h
      obtain ⟨⟨rest, state⟩, -, h⟩ := Option.bind_eq_some_iff.mp h
      cases h
      exact .inr ⟨token, rest, rfl, number?_ne_openBrace htoken⟩
  | string units =>
    rw [step] at h
    split_ifs at h
    · cases h
      exact .inr ⟨_, _, rfl, Token.noConfusion⟩
    · cases h
      exact .inl ⟨rfl, State.noConfusion⟩
    · cases h
      exact .inl ⟨rfl, State.noConfusion⟩
  | escape units =>
    rw [step] at h
    split at h
    · cases h
      exact .inl ⟨rfl, State.noConfusion⟩
    · obtain ⟨unit, -, h⟩ := Option.map_eq_some_iff.mp h
      cases h
      exact .inl ⟨rfl, State.noConfusion⟩
  | hex units missing value =>
    obtain ⟨digit, -, h⟩ := Option.map_eq_some_iff.mp h
    cases h
    refine .inl ⟨rfl, ?_⟩
    split <;> exact State.noConfusion

/-- A token that has begun is not a brace. -/
lemma cut_begun {cs : List Char} (hstate : state ≠ .between) (h : cut state cs = some tokens) :
    ∃ token rest, tokens = token :: rest ∧ token ≠ .openBrace := by
  induction cs generalizing state tokens with
  | nil =>
    cases state with
    | between => exact (hstate rfl).elim
    | word read =>
      obtain ⟨token, htoken, rfl⟩ := Option.map_eq_some_iff.mp h
      exact ⟨token, [], rfl, word?_ne_openBrace htoken⟩
    | number read =>
      obtain ⟨token, htoken, rfl⟩ := Option.map_eq_some_iff.mp h
      exact ⟨token, [], rfl, number?_ne_openBrace htoken⟩
    | string | escape | hex => cases h
  | cons c rest ih =>
    obtain ⟨⟨first, next⟩, hstep, hrest⟩ := Option.bind_eq_some_iff.mp h
    obtain ⟨others, hothers, htokens⟩ := Option.bind_eq_some_iff.mp hrest
    obtain rfl : first ++ others = tokens := Option.some.inj htokens
    rcases step_begun hstate hstep with ⟨rfl, hnext⟩ | ⟨token, more, rfl, htoken⟩
    · exact ih hnext hothers
    · exact ⟨token, more ++ others, rfl, htoken⟩

/-- A text that begins neither with a blank nor with a brace does not begin with the token of a
brace. -/
lemma cut_cons_ne_openBrace {c : Char} {cs : List Char} (hblank : isBlank c = false)
    (hbrace : c ≠ '{') (h : cut .between (c :: cs) = some tokens) :
    ∃ token rest, tokens = token :: rest ∧ token ≠ .openBrace := by
  obtain ⟨⟨first, next⟩, hstep, hrest⟩ := Option.bind_eq_some_iff.mp h
  obtain ⟨others, hothers, htokens⟩ := Option.bind_eq_some_iff.mp hrest
  obtain rfl : first ++ others = tokens := Option.some.inj htokens
  rw [step, start, if_neg (by simp [hblank])] at hstep
  split_ifs at hstep
  · cases hstep
    exact cut_begun State.noConfusion hothers
  · cases hstep
    exact cut_begun State.noConfusion hothers
  · cases hstep
    exact cut_begun State.noConfusion hothers
  · obtain ⟨token, htoken, hfirst⟩ := Option.map_eq_some_iff.mp hstep
    cases hfirst
    refine ⟨token, others, rfl, ?_⟩
    rintro rfl
    unfold punctuation? at htoken
    split at htoken <;> first | exact hbrace rfl | cases htoken

end Token

namespace Written

/-- Around all that is open is an array. -/
def AroundIsArray (opened : List Frame) : Prop :=
  ∃ items, opened.getLast? = some (.array items)

lemma AroundIsArray.cons {opened : List Frame} (h : AroundIsArray opened) (frame : Frame) :
    AroundIsArray (frame :: opened) := by
  obtain ⟨items, hlast⟩ := h
  exact ⟨items, by rw [List.getLast?_cons, hlast]; rfl⟩

lemma AroundIsArray.of_cons {frame : Frame} {opened : List Frame}
    (h : AroundIsArray (frame :: opened)) :
    AroundIsArray opened ∨ opened = [] ∧ ∃ items, frame = .array items := by
  obtain ⟨items, hlast⟩ := h
  cases opened with
  | nil => exact .inr ⟨rfl, items, Option.some.inj hlast⟩
  | cons other rest => exact .inl ⟨items, by rwa [List.getLast?_cons_cons] at hlast⟩

/-- The machine is inside an array that nothing is around, or has just closed it. -/
def InArray (machine : Machine) : Prop :=
  AroundIsArray machine.opened ∨
    machine.opened = [] ∧ ∃ items, machine.expecting = .separator (.array items)

lemma inArray_of_beginValue {opened : List Frame} {token : Token} {next : Machine}
    (hopened : AroundIsArray opened) (h : beginValue opened token = some next) :
    InArray next := by
  have hnext : next.opened = opened ∨ next.opened = .array [] :: opened := by
    cases token <;> cases h <;> simp
  rcases hnext with hnext | hnext
  · exact .inl (hnext ▸ hopened)
  · exact .inl (hnext ▸ hopened.cons _)

/-- When an array is closed, it is the one that nothing is around, or another one stays open. -/
lemma inArray_of_close {items : List Written} {frame : Frame} {opened : List Frame}
    (hopened : AroundIsArray (frame :: opened)) :
    InArray ⟨.separator (.array items), opened⟩ := by
  rcases hopened.of_cons with h | ⟨rfl, -⟩
  · exact .inl h
  · exact .inr ⟨rfl, items, rfl⟩

lemma InArray.step {machine next : Machine} {token : Token} (h : InArray machine)
    (hstep : step machine token = some next) : InArray next := by
  obtain ⟨expecting, opened⟩ := machine
  rcases h with hopened | ⟨hnil, items, hseparator⟩
  · change AroundIsArray opened at hopened
    have hobject {members : List (Option String × Written)} {key : Option String}
        {outer : List Frame} (h : AroundIsArray (.object members key :: outer)) :
        AroundIsArray outer := by
      rcases h.of_cons with h | ⟨-, _, hframe⟩
      · exact h
      · cases hframe
    dsimp only [Written.step] at hstep
    split at hstep
    · exact inArray_of_beginValue hopened hstep
    · cases hstep
      exact inArray_of_close hopened
    · exact inArray_of_beginValue hopened hstep
    · cases hstep
      exact .inl hopened
    · cases hstep
      exact .inl hopened
    · cases hstep
      exact .inl hopened
    · cases hstep
      exact .inl (hopened.cons _)
    · cases hstep
      rcases hopened.of_cons with h | ⟨rfl, -⟩
      · exact .inl (h.cons _)
      · exact .inl ⟨_, rfl⟩
    · cases hstep
      exact inArray_of_close hopened
    · cases hstep
      exact .inl (hobject hopened)
    · cases hstep
      exact .inl (hobject hopened)
    · cases hstep
  · obtain rfl : opened = [] := hnil
    obtain rfl : expecting = .separator (.array items) := hseparator
    cases token <;> cases hstep

lemma InArray.steps {machine next : Machine} {tokens : List Token} (h : InArray machine)
    (hsteps : tokens.foldlM Written.step machine = some next) : InArray next := by
  induction tokens generalizing machine with
  | nil => exact Option.some.inj hsteps ▸ h
  | cons token rest ih =>
    rw [List.foldlM_cons] at hsteps
    obtain ⟨between, hstep, hrest⟩ := Option.bind_eq_some_iff.mp hsteps
    exact ih (h.step hstep) hrest

/-- An object begins with a brace. -/
lemma eq_openBrace_of_ofTokens? {token : Token} {rest : List Token}
    {members : List (Option String × Written)}
    (h : ofTokens? (token :: rest) = some (.object members)) : token = .openBrace := by
  obtain ⟨machine, hsteps, hfinished⟩ := Option.bind_eq_some_iff.mp h
  rw [List.foldlM_cons] at hsteps
  obtain ⟨next, hstep, hrest⟩ := Option.bind_eq_some_iff.mp hsteps
  -- a value that is a single token is not followed by another one
  have hsingle {value : Written} (hnext : next = ⟨.separator value, []⟩) :
      value = .object members := by
    subst hnext
    cases rest with
    | nil =>
      obtain rfl := Option.some.inj hrest
      exact Option.some.inj hfinished
    | cons token rest =>
      rw [List.foldlM_cons] at hrest
      obtain ⟨_, hnone, -⟩ := Option.bind_eq_some_iff.mp hrest
      cases token <;> cases hnone
  have harray (hnext : InArray next) : False := by
    have hmachine := hnext.steps hrest
    obtain ⟨expecting, opened⟩ := machine
    rcases hmachine with ⟨_, hlast⟩ | ⟨hopened, _, hexpecting⟩
    · cases opened with
      | nil => cases hlast
      | cons frame outer => cases expecting <;> cases hfinished
    · obtain rfl : opened = [] := hopened
      obtain rfl : expecting = _ := hexpecting
      cases hfinished
  cases token with
  | openBrace => rfl
  | openBracket =>
    obtain rfl := Option.some.inj hstep
    exact (harray (.inl ⟨[], rfl⟩)).elim
  | null | bool | number | string =>
    cases hsingle (Option.some.inj hstep).symm
  | closeBrace | closeBracket | colon | comma => cases hstep

/-- A text that is read as an object begins with a brace, after blanks. -/
lemma exists_brace_of_read? {text : String} {members : List (Option String × Written)}
    (h : read? text = some (.object members)) :
    ∃ rest, Text.trimStart text.toList = '{' :: rest ∧
      read? (String.ofList ('{' :: rest)) = some (.object members) := by
  have hblank {c : Char} (hc : Token.isBlank c = true) : Text.isBlank c = true := by
    simp only [Token.isBlank, Bool.or_eq_true, decide_eq_true_eq] at hc
    rcases hc with ((rfl | rfl) | rfl) | rfl <;> decide
  have hchars : ∀ cs : List Char,
      (Token.tokens? cs).bind ofTokens? = some (.object members) →
      ∃ rest, Text.trimStart cs = '{' :: rest ∧
        (Token.tokens? ('{' :: rest)).bind ofTokens? = some (.object members) := by
    intro cs hcs
    induction cs with
    | nil => cases hcs
    | cons c cs ih =>
      by_cases hc : Token.isBlank c = true
      · have hcut : Token.tokens? (c :: cs) = Token.tokens? cs :=
          Token.cut_cons_nil (by rw [Token.step, Token.start, if_pos hc])
        rw [hcut] at hcs
        obtain ⟨rest, htrim, hrest⟩ := ih hcs
        exact ⟨rest, (List.dropWhile_cons_of_pos (hblank hc)).trans htrim, hrest⟩
      · by_cases hbrace : c = '{'
        · subst hbrace
          exact ⟨cs, List.dropWhile_cons_of_neg (by decide), hcs⟩
        · obtain ⟨tokens, htokens, hvalue⟩ := Option.bind_eq_some_iff.mp hcs
          obtain ⟨token, rest, rfl, htoken⟩ :=
            Token.cut_cons_ne_openBrace (Bool.eq_false_iff.mpr hc) hbrace htokens
          exact (htoken (eq_openBrace_of_ofTokens? hvalue)).elim
  obtain ⟨rest, htrim, hrest⟩ := hchars text.toList h
  exact ⟨rest, htrim, by rw [read?, String.toList_ofList]; exact hrest⟩

end Written

lemma writtenItems_strings (strings : List String) :
    writtenItems (strings.map .string) = strings.map fun text => .string (some text) := by
  rw [writtenItems_eq, List.map_map]
  rfl

end Json

/-! ### Trees as JSON without spans -/

namespace Derivation

open Json (Written)

mutual

/-- The written forms of a tree as JSON without spans: objects with these members, in any order. -/
inductive IsWritten : Derivation → Written → Prop where
  | leaf {category word : String} {span : Span} {fields : List (String × Written)}
      (hfields : fields.Perm [("kind", .string (some "leaf")),
        ("category", .string (some category)), ("word", .string (some word))]) :
      IsWritten (.leaf category word span)
        (.object (fields.map fun field => (some field.1, field.2)))
  | node {lhs : String} {rhs : List String} {children : List Derivation} {span : Span}
      {items : List Written} {fields : List (String × Written)}
      (hfields : fields.Perm [("kind", .string (some "rule")), ("lhs", .string (some lhs)),
        ("rhs", .array (rhs.map fun category => .string (some category))),
        ("children", .array items)])
      (hchildren : AreWritten children items) :
      IsWritten (.node lhs rhs children span)
        (.object (fields.map fun field => (some field.1, field.2)))

/-- The written forms of several trees. -/
inductive AreWritten : List Derivation → List Written → Prop where
  | nil : AreWritten [] []
  | cons {tree : Derivation} {rest : List Derivation} {item : Written} {items : List Written}
      (h : IsWritten tree item) (hs : AreWritten rest items) :
      AreWritten (tree :: rest) (item :: items)

end

/-! ### Reading them -/

section Fields

variable {fields : List (String × Written)}

lemma lookup_members (key : String) :
    (fields.map fun field => (some field.1, field.2)).lookup (some key) = fields.lookup key := by
  induction fields with
  | nil => rfl
  | cons field rest ih =>
    rw [List.map_cons, List.lookup_cons, List.lookup_cons, ih]
    rfl

lemma childrenAmong?_members :
    childrenAmong? (fields.map fun field => (some field.1, field.2)) =
      (fields.lookup "children").bind forestOfWritten? := by
  induction fields with
  | nil => rfl
  | cons field rest ih =>
    rw [List.map_cons, childrenAmong?, ih, List.lookup_cons]
    by_cases hkey : field.1 = "children"
    · simp [hkey]
    · have hbeq : ("children" == field.1) = false := beq_eq_false_iff_ne.mpr (Ne.symm hkey)
      simp [hkey, hbeq]

/-- Fields are found whatever their order. -/
lemma lookup_eq_of_perm {listed : List (String × Written)} (h : fields.Perm listed)
    (hnodup : (listed.map Prod.fst).Nodup) (key : String) :
    fields.lookup key = listed.lookup key := by
  have hnodup' : (fields.map Prod.fst).Nodup := (h.map Prod.fst).nodup_iff.mpr hnodup
  cases hlisted : listed.lookup key with
  | some value =>
    exact lookup_of_mem hnodup' (h.mem_iff.mpr (mem_of_lookup hlisted))
  | none =>
    rw [List.lookup_eq_none_iff] at hlisted ⊢
    exact fun field hfield => hlisted field (h.mem_iff.mp hfield)

variable {listed : List (String × Written)} {span : Span}

lemma kindField?_members (h : fields.Perm listed) (hnodup : (listed.map Prod.fst).Nodup) :
    kindField? (.object (fields.map fun field => (some field.1, field.2))) =
      listed.lookup "kind" := by
  rw [kindField?, lookup_members, lookup_eq_of_perm h hnodup]

lemma nodup_of_sublist {kind : NodeKind} (h : (listed.map Prod.fst).Sublist kind.fields) :
    (listed.map Prod.fst).Nodup := by
  refine h.nodup ?_
  cases kind <;> decide

/-- What a node is read from, whatever the order of its members. -/
lemma ofFields?_members {kind : NodeKind} (h : fields.Perm listed)
    (hnames : (listed.map Prod.fst).Sublist kind.fields)
    (hkind : (listed.lookup "kind").bind NodeKind.ofWritten? = some kind)
    (hspan : spanAmong? listed = some span) (children : Option (List Derivation)) :
    ofFields? (.object (fields.map fun field => (some field.1, field.2))) children =
      match kind with
      | .rule => do
        let lhs ← (← listed.lookup "lhs").string?
        let rhs ← (← listed.lookup "rhs").items? (·.string?)
        return .node lhs rhs (← children) span
      | .leaf => do
        let category ← (← listed.lookup "category").string?
        let word ← (← listed.lookup "word").string?
        return .leaf category word span := by
  have hnodup := nodup_of_sublist hnames
  have hrecord : Written.record? kind.fields
      (.object (fields.map fun field => (some field.1, field.2))) = some fields :=
    Written.record?_object _ _ (fun field hfield =>
      hnames.subset (List.mem_map_of_mem (h.mem_iff.mp hfield)))
      ((h.map Prod.fst).nodup_iff.mpr hnodup)
  have hlookup := lookup_eq_of_perm h hnodup
  obtain ⟨value, hvalue, hkind⟩ := Option.bind_eq_some_iff.mp hkind
  have hkindField := (kindField?_members h hnodup).trans hvalue
  have hspans : spanAmong? fields = some span := by
    rw [← hspan, spanAmong?, spanAmong?, hlookup]
  simp only [ofFields?, hkindField, hkind, hrecord, hspans, hlookup, Option.bind_eq_bind,
    Option.bind_some]
  cases kind <;> rfl

/-- A leaf is read from its members. -/
lemma ofWritten?_leaf {category word : String} (h : fields.Perm listed)
    (hnames : (listed.map Prod.fst).Sublist NodeKind.leaf.fields)
    (hkind : listed.lookup "kind" = some (.string (some "leaf")))
    (hcategory : listed.lookup "category" = some (.string (some category)))
    (hword : listed.lookup "word" = some (.string (some word)))
    (hspan : spanAmong? listed = some span) :
    ofWritten? (.object (fields.map fun field => (some field.1, field.2))) =
      some (.leaf category word span) := by
  have hleaf : (listed.lookup "kind").bind NodeKind.ofWritten? = some .leaf := by
    rw [hkind]
    rfl
  rw [ofWritten?, ofFields?_members h hnames hleaf hspan]
  simp only [hcategory, hword]
  rfl

/-- A rule is read from its members. -/
lemma ofWritten?_rule {lhs : String} {rhs : List String} {items : List Written}
    {children : List Derivation} (h : fields.Perm listed)
    (hnames : (listed.map Prod.fst).Sublist NodeKind.rule.fields)
    (hkind : listed.lookup "kind" = some (.string (some "rule")))
    (hlhs : listed.lookup "lhs" = some (.string (some lhs)))
    (hrhs : listed.lookup "rhs" =
      some (.array (rhs.map fun category => .string (some category))))
    (hitems : listed.lookup "children" = some (.array items))
    (hspan : spanAmong? listed = some span) (hchildren : treesOfWritten? items = some children) :
    ofWritten? (.object (fields.map fun field => (some field.1, field.2))) =
      some (.node lhs rhs children span) := by
  have hrule : (listed.lookup "kind").bind NodeKind.ofWritten? = some .rule := by
    rw [hkind]
    rfl
  have hread : (Written.array (rhs.map fun category => .string (some category))).items?
      (·.string?) = some rhs := by
    rw [Written.items?, List.mapM_map]
    exact (mapM_eq_some fun _ _ => rfl).trans (congrArg some (List.map_id _))
  rw [ofWritten?, ofFields?_members h hnames hrule hspan, childrenAmong?_members,
    lookup_eq_of_perm h (nodup_of_sublist hnames)]
  simp only [hlhs, hrhs, hitems, Option.bind_eq_bind, Option.bind_some, hread, forestOfWritten?,
    hchildren]
  rfl

end Fields

mutual

/-- A tree is read from its written forms, without its spans. -/
theorem ofWritten?_of_isWritten : {tree : Derivation} → {written : Written} →
    IsWritten tree written → ofWritten? written = some tree.unspanned
  | _, _, .leaf hfields =>
    ofWritten?_leaf hfields (List.sublist_append_left _ ["span"]) rfl rfl rfl rfl
  | _, _, .node hfields hchildren =>
    ofWritten?_rule hfields (List.sublist_append_left _ ["span"]) rfl rfl rfl rfl rfl
      (treesOfWritten?_of_areWritten hchildren)

theorem treesOfWritten?_of_areWritten : {trees : List Derivation} → {items : List Written} →
    AreWritten trees items → treesOfWritten? items = some (forestUnspanned trees)
  | _, _, .nil => rfl
  | _, _, .cons h hs => by
    rw [treesOfWritten?, ofWritten?_of_isWritten h, treesOfWritten?_of_areWritten hs]
    rfl

end

/-- All strings of a written form have contents, so that it has a value. -/
lemma isSome_memberValues? {fields : List (String × Written)}
    (h : ∀ field ∈ fields, field.2.value?.isSome) :
    (Written.memberValues? (fields.map fun field => (some field.1, field.2))).isSome := by
  induction fields with
  | nil => rfl
  | cons field rest ih =>
    obtain ⟨value, hvalue⟩ := Option.isSome_iff_exists.mp (h field (List.mem_cons_self ..))
    obtain ⟨values, hvalues⟩ := Option.isSome_iff_exists.mp
      (ih fun other hother => h other (List.mem_cons_of_mem _ hother))
    rw [List.map_cons, Written.memberValues?, hvalue, hvalues]
    rfl

lemma isSome_itemValues? {items : List Written} (h : ∀ item ∈ items, item.value?.isSome) :
    (Written.itemValues? items).isSome := by
  induction items with
  | nil => rfl
  | cons item rest ih =>
    obtain ⟨value, hvalue⟩ := Option.isSome_iff_exists.mp (h item (List.mem_cons_self ..))
    obtain ⟨values, hvalues⟩ := Option.isSome_iff_exists.mp
      (ih fun other hother => h other (List.mem_cons_of_mem _ hother))
    rw [Written.itemValues?, hvalue, hvalues]
    rfl

lemma isSome_value?_object {listed fields : List (String × Written)} (hfields : fields.Perm listed)
    (h : ∀ field ∈ listed, field.2.value?.isSome) :
    (Written.object (fields.map fun field => (some field.1, field.2))).value?.isSome := by
  rw [Written.value?, Option.isSome_map]
  exact isSome_memberValues? fun field hfield => h field (hfields.mem_iff.mp hfield)

lemma isSome_value?_array {items : List Written} (h : ∀ item ∈ items, item.value?.isSome) :
    (Written.array items).value?.isSome := by
  rw [Written.value?, Option.isSome_map]
  exact isSome_itemValues? h

mutual

lemma isSome_value?_of_isWritten : {tree : Derivation} → {written : Written} →
    IsWritten tree written → written.value?.isSome
  | _, _, .leaf hfields => isSome_value?_object hfields (by simp [Written.value?])
  | _, _, @IsWritten.node _ rhs _ _ items _ hfields hchildren => by
    have hrhs : (Written.array (rhs.map fun category => .string (some category))).value?.isSome :=
      isSome_value?_array (by simp [Written.value?])
    have hitems := isSome_value?_array (isSome_value?_of_areWritten hchildren)
    refine isSome_value?_object hfields ?_
    rw [List.forall_mem_cons, List.forall_mem_cons, List.forall_mem_cons, List.forall_mem_singleton]
    exact ⟨rfl, rfl, hrhs, hitems⟩

lemma isSome_value?_of_areWritten : {trees : List Derivation} → {items : List Written} →
    AreWritten trees items → ∀ item ∈ items, item.value?.isSome
  | _, _, .nil => fun _ h => nomatch h
  | _, _, .cons h hs => by
    intro item hitem
    rcases List.mem_cons.mp hitem with rfl | hitem
    · exact isSome_value?_of_isWritten h
    · exact isSome_value?_of_areWritten hs item hitem

end

/-- A text of an object that is a tree is read as the tree, if it is not too deep. -/
lemma read_of_ofWritten? {tree : Derivation} {text : String}
    {members : List (Option String × Written)}
    (htext : Written.read? text = some (.object members))
    (hvalue : (Written.object members).value?.isSome)
    (hdepth : (Written.object members).depth ≤ Json.maxDepth) {name : String}
    (hkind : kindField? (.object members) = some (.string (some name)))
    (htree : ofWritten? (.object members) = some tree) : read text = .ok tree.withSpans := by
  obtain ⟨rest, htrim, hread⟩ := Written.exists_brace_of_read? htext
  have hwithin : ((Written.object members).within? Json.maxDepth).isSome := by
    rwa [Written.within?, if_pos hdepth]
  have hdocument : readDocument ('{' :: rest) = .ok tree := by
    have hwritten : (Written.read? (String.ofList ('{' :: rest))).filter
        (fun written => (written.within? Json.maxDepth).isSome) = some (.object members) := by
      rw [hread, Option.filter_some, if_pos hwithin]
    simp only [readDocument, hwritten, hkind, Written.string?, Option.isSome_some, if_true, htree]
  rw [read, htrim, if_pos (by rfl), hdocument]

/-- A text of a written form of a tree is read as the tree, if it is not too deep. -/
theorem read_of_isWritten {tree : Derivation} {text : String} {written : Written}
    (htext : Written.read? text = some written) (h : IsWritten tree written)
    (hdepth : written.depth ≤ Json.maxDepth) : read text = .ok tree.reindexed := by
  obtain ⟨members, rfl⟩ : ∃ members, written = .object members := by
    cases h <;> exact ⟨_, rfl⟩
  have hkind : ∃ name, kindField? (.object members) = some (.string (some name)) := by
    cases h with
    | leaf hfields => exact ⟨"leaf", kindField?_members hfields (by simp)⟩
    | node hfields => exact ⟨"rule", kindField?_members hfields (by simp)⟩
  obtain ⟨name, hname⟩ := hkind
  have hspan : tree.unspanned.span = .unset := by
    cases tree <;> rfl
  rw [read_of_ofWritten? htext (isSome_value?_of_isWritten h) hdepth hname
      (ofWritten?_of_isWritten h), withSpans, if_pos hspan, reindexed, reindexFrom_unspanned,
    reindexed]

/-! ### The two notations -/

mutual

/-- A tree as a JSON object without spans. -/
def document : Derivation → Json
  | .leaf category word _ =>
    .object [("kind", .string "leaf"), ("category", .string category), ("word", .string word)]
  | .node lhs rhs children _ =>
    .object [("kind", .string "rule"), ("lhs", .string lhs), ("rhs", .array (rhs.map .string)),
      ("children", .array (forestDocuments children))]

/-- Several trees as JSON objects without spans. -/
def forestDocuments : List Derivation → List Json
  | [] => []
  | tree :: rest => document tree :: forestDocuments rest

end

mutual

lemma isWritten_document : (tree : Derivation) → IsWritten tree tree.document.written
  | .leaf category word span => .leaf (.refl _)
  | .node lhs rhs children span => by
    have hnode : IsWritten (.node lhs rhs children span) _ :=
      .node (.refl _) (areWritten_forestDocuments children)
    rw [document, Json.written, Json.writtenMembers_eq]
    simp only [List.map_cons, List.map_nil, Json.written, Json.writtenItems_strings]
    exact hnode

lemma areWritten_forestDocuments : (trees : List Derivation) →
    AreWritten trees (Json.writtenItems (forestDocuments trees))
  | [] => .nil
  | tree :: rest => .cons (isWritten_document tree) (areWritten_forestDocuments rest)

end

/-- The two notations agree: all renderings of a tree in brackets are read as the tree, and so are
all texts of its JSON without spans that are not too deep, among them the compact one.  A language
gives a sentence the same outcome in both of them. -/
theorem read_notations {tree : Derivation} (h : Bracketed.Plain tree) :
    (∀ text : String, Bracketed.Rendered (Bracketed.spelled tree) text.toList →
      read text = .ok tree.reindexed) ∧
    (∀ text written, Written.read? text = some written → IsWritten tree written →
      written.depth ≤ Json.maxDepth → read text = .ok tree.reindexed) ∧
    (Written.read? tree.document.compact = some tree.document.written ∧
      IsWritten tree tree.document.written) ∧
    ∀ (bracketed json : String) (written : Written) (language : Language) (session : Session),
      Bracketed.Rendered (Bracketed.spelled tree) bracketed.toList →
      Written.read? json = some written → IsWritten tree written →
      written.depth ≤ Json.maxDepth →
      language.translateText bracketed session = language.translateText json session := by
  refine ⟨fun _ => h.read_rendered, fun _ _ => read_of_isWritten,
    ⟨Json.read?_compact_written _, isWritten_document tree⟩, ?_⟩
  intro bracketed json written language session hbracketed hjson hwritten hdepth
  have hread := h.read_rendered hbracketed
  have hread' := read_of_isWritten hjson hwritten hdepth
  rw [Language.translateText, Language.translateText, hread, hread']

/-- "Stop", with spans that are not its own. -/
def stopping : Derivation := .node "SoundCommand" ["Stop"] [.leaf "Stop" "stop" ⟨3, 5⟩] ⟨2, 9⟩

open Bracketed in
theorem read_notations_of_stopping :
    read "(SoundCommand ; all of them\n (Stop stop))" = .ok stopping.reindexed ∧
      read stopping.document.compact = .ok stopping.reindexed := by
  have hplain : Plain stopping := by
    have hstop : Plain (.leaf "Stop" "stop" ⟨3, 5⟩) := .leaf (by decide) (by decide)
    exact @Plain.node "SoundCommand" [_] ⟨2, 9⟩ (by decide) (by simp) (by simpa using hstop)
  have hends {c : Char} (hc : isWordChar c = false) (rest : List Char) :
      ∀ d, (c :: rest).head? = some d → isWordChar d = false := by
    intro d hd
    exact Option.some.inj hd ▸ hc
  have hrendered :
      Rendered (spelled stopping) "(SoundCommand ; all of them\n (Stop stop))".toList := by
    have hchars : "(SoundCommand ; all of them\n (Stop stop))".toList =
        [] ++ '(' :: ([] ++ ("SoundCommand".toList ++
          ((' ' :: ';' :: (" all of them".toList ++ '\n' :: [' '])) ++
            '(' :: ([] ++ ("Stop".toList ++ ([' '] ++ ("stop".toList ++
              ([] ++ ')' :: ([] ++ ')' :: []))))))))) := by
      decide
    have hgap : Gap (' ' :: ';' :: (" all of them".toList ++ '\n' :: [' '])) :=
      .blank rfl (.comment (by decide) (.blank rfl .nil))
    rw [hchars]
    exact .opening .nil (.word .nil (hends rfl _) (.opening hgap (.word .nil (hends rfl _)
      (.word (.blank rfl .nil) (hends rfl _) (.closing .nil (.closing .nil (.nil .nil)))))))
  obtain ⟨hbrackets, hjson, ⟨hdocument, hwritten⟩, -⟩ := read_notations hplain
  exact ⟨hbrackets _ hrendered, hjson _ _ hdocument hwritten (by decide)⟩

end Derivation

end PhraseScript
