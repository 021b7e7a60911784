import PhraseScript.Proofs.NumberTexts

/-!
# Reading compact texts

The reader takes a compact text for the value that was written (`Json.read?_compact_written`).  A
text is read in two stages, by a cutter and by a machine with a stack; `Written.readOn` runs both
on the text of a value with other text after it, and leaves the machine as if the value had been
one token.  The text after a number or a word must not go on with it, which in a compact text it
never does (`Token.Breaks`).
-/

namespace PhraseScript.Json

/-! ### Cutting -/

namespace Token

/-- The text does not go on with a number or a word. -/
def Breaks (rest : List Char) : Prop :=
  ∀ c ∈ rest.head?, isNumberChar c = false ∧ c.isAlpha = false

lemma breaks_nil : Breaks [] := by simp [Breaks]

lemma breaks_cons {c : Char} {rest : List Char} (h : c = ',' ∨ c = ']' ∨ c = '}') :
    Breaks (c :: rest) := by
  intro x hx
  obtain rfl := Option.some.inj hx
  rcases h with rfl | rfl | rfl <;> decide

variable {rest : List Char}

lemma cut_cons {state next : State} {c : Char} {tokens : List Token}
    (h : step state c = some (tokens, next)) :
    cut state (c :: rest) = (cut next rest).map (tokens ++ ·) := by
  cases hcut : cut next rest <;> simp [cut, h, hcut]

/-- A character that completes no token. -/
lemma cut_cons_nil {state next : State} {c : Char} (h : step state c = some ([], next)) :
    cut state (c :: rest) = cut next rest := by
  rw [cut_cons h]
  simp

/-- What stands for a token by itself is completed by whatever does not go on with it. -/
lemma cut_pending {state : State} {token? : Option Token}
    (hfinish : finish state = token?.map ([·]))
    (hstep : ∀ c ∈ rest.head?, step state c = do
      let token ← token?
      let (tokens, next) ← start c
      return (token :: tokens, next)) :
    cut state rest = token?.bind fun token => (cut .between rest).map (token :: ·) := by
  cases rest with
  | nil => rw [cut, hfinish]; cases token? <;> rfl
  | cons c rest =>
    rw [cut, hstep c rfl, cut, step]
    rcases token? with _ | token
    · rfl
    · rcases start c with _ | ⟨tokens, next⟩
      · rfl
      · rcases hcut : cut next rest with _ | others <;> simp [hcut]

lemma cut_word (read : List Char) (h : Breaks rest) :
    cut (.word read) rest = (word? read.reverse).bind fun token =>
      (cut .between rest).map (token :: ·) :=
  cut_pending rfl fun c hc => by simp [step, (h c hc).2]

lemma cut_number (read : List Char) (h : Breaks rest) :
    cut (.number read) rest = (number? read.reverse).bind fun token =>
      (cut .between rest).map (token :: ·) :=
  cut_pending rfl fun c hc => by simp [step, (h c hc).1]

lemma cut_numberChars {cs : List Char} (h : ∀ c ∈ cs, isNumberChar c = true)
    (read : List Char) :
    cut (.number read) (cs ++ rest) = cut (.number (cs.reverse ++ read)) rest := by
  induction cs generalizing read with
  | nil => rfl
  | cons c cs ih =>
    have hc := h c (by simp)
    have hstep : step (.number read) c = some ([], .number (c :: read)) := by simp [step, hc]
    rw [List.cons_append, cut_cons_nil hstep, ih fun x hx => h x (by simp [hx]), List.reverse_cons,
      List.append_assoc, List.singleton_append]

/-- The text of a number is cut off as one token. -/
lemma cut_numberText (n : Number) (h : Breaks rest) :
    cut .between (n.text.toList ++ rest) =
      (cut .between rest).map (.number n.literal :: ·) := by
  have hjson := n.isJson_literal
  have hchars := isNumberChar_of_mem_text hjson
  have hnumber := number?_text hjson
  rw [← n.text_literal]
  -- the first character is a digit or a minus sign
  obtain ⟨c, cs, htext, hstart⟩ :
      ∃ c cs, n.literal.text = c :: cs ∧ start c = some ([], .number [c]) := by
    rw [Literal.text]
    split
    · exact ⟨'-', _, rfl, rfl⟩
    · obtain ⟨c, cs, htext, hc⟩ := hjson.exists_unsignedText
      have hblank : isBlank c = false := by
        simp only [isBlank, Bool.or_eq_false_iff, decide_eq_false_iff_not]
        refine ⟨⟨⟨?_, ?_⟩, ?_⟩, ?_⟩ <;> rintro rfl <;> exact absurd hc (by decide)
      have hquote : c ≠ '"' := by
        rintro rfl
        exact absurd hc (by decide)
      exact ⟨c, cs, htext, by simp [start, hblank, hquote, hc]⟩
  rw [htext] at hchars hnumber
  have hread : number? ((cs.reverse ++ [c]).reverse) = some (.number n.literal) := by
    simpa using hnumber
  rw [htext, List.cons_append, cut_cons_nil (by rw [step, hstart]),
    cut_numberChars (fun x hx => hchars x (by simp [hx])), cut_number _ h, hread, Option.bind_some]

/-! ### Strings -/

lemma hexValue?_hexDigit {n : Nat} (h : n < 16) : hexValue? (hexDigit n) = some n := by
  have hall : ∀ n < 16, hexValue? (hexDigit n) = some n := by decide
  exact hall n h

/-- An escaped character is read as its code point. -/
lemma cut_escape (units : List Nat) (c : Char) :
    cut (.string units) (escape c ++ rest) = cut (.string (c.toNat :: units)) rest := by
  by_cases hspecial : c = '"' ∨ c = '\\' ∨ c = '\n' ∨ c = '\r' ∨ c = '\t'
  · rcases hspecial with rfl | rfl | rfl | rfl | rfl <;> simp [escape, cut, step, escaped?]
  · obtain ⟨hquote, hbackslash, hnewline, hreturn, htab⟩ :
        c ≠ '"' ∧ c ≠ '\\' ∧ c ≠ '\n' ∧ c ≠ '\r' ∧ c ≠ '\t' := by
      simpa only [not_or] using hspecial
    by_cases hback : c.toNat = 8
    · simp [escape, cut, step, escaped?, hquote, hbackslash, hnewline, hreturn, htab, hback]
    · by_cases hfeed : c.toNat = 12
      · simp [escape, cut, step, escaped?, hquote, hbackslash, hnewline, hreturn, htab, hfeed]
      · by_cases hcontrol : c.toNat < 32
        · have hhigh := hexValue?_hexDigit (n := c.toNat / 16) (by omega)
          have hlow := hexValue?_hexDigit (n := c.toNat % 16) (by omega)
          have hzero : hexValue? '0' = some 0 := by decide
          have hvalue : 16 * (c.toNat / 16) + c.toNat % 16 = c.toNat := by omega
          simp [escape, cut, step, hquote, hbackslash, hnewline, hreturn, htab, hback, hfeed,
            hcontrol, hhigh, hlow, hzero, hvalue]
        · simp [escape, cut, step, hquote, hbackslash, hnewline, hreturn, htab, hback, hfeed,
            hcontrol]

lemma cut_escapes (units : List Nat) (cs : List Char) :
    cut (.string units) (cs.flatMap escape ++ rest) =
      cut (.string ((cs.map Char.toNat).reverse ++ units)) rest := by
  induction cs generalizing units with
  | nil => rfl
  | cons c cs ih => simp [cut_escape, ih]

/-- Characters are no surrogates. -/
lemma joinSurrogates_toNat (cs : List Char) : joinSurrogates (cs.map Char.toNat) = some cs := by
  have hhigh : ∀ c : Char, isHighSurrogate c.toNat = false := by
    intro c
    have hvalid : c.toNat.isValidChar := c.valid
    simp only [isHighSurrogate, Bool.and_eq_false_iff, decide_eq_false_iff_not]
    rcases hvalid with h | h <;> omega
  have hlow : ∀ c : Char, isLowSurrogate c.toNat = false := by
    intro c
    have hvalid : c.toNat.isValidChar := c.valid
    simp only [isLowSurrogate, Bool.and_eq_false_iff, decide_eq_false_iff_not]
    rcases hvalid with h | h <;> omega
  induction cs with
  | nil => rfl
  | cons c cs ih =>
    cases cs with
    | nil => simp [joinSurrogates, hhigh, hlow]
    | cons next cs =>
      rw [List.map_cons] at ih
      simp [joinSurrogates, hhigh, hlow, ih]

/-- The text of a string is cut off as one token. -/
lemma cut_quote (s : String) :
    cut .between ((quote s).toList ++ rest) = (cut .between rest).map (.string (some s) :: ·) := by
  have hopen : step .between '"' = some ([], .string []) := rfl
  have hclose : step (.string (s.toList.map Char.toNat).reverse) '"' =
      some ([.string (some s)], .between) := by
    rw [step, if_pos rfl, List.reverse_reverse, joinSurrogates_toNat, Option.map_some,
      String.ofList_toList]
  rw [quote, String.toList_ofList, List.cons_append, cut_cons_nil hopen, List.append_assoc,
    cut_escapes, List.append_nil, List.singleton_append, cut_cons hclose]
  rfl

lemma cut_punctuation {c : Char} {token : Token} (h : punctuation? c = some token) :
    cut .between (c :: rest) = (cut .between rest).map (token :: ·) := by
  have hstart : start c = some ([token], .between) := by
    rw [punctuation?.eq_def] at h
    split at h <;> simp_all [start, isBlank, punctuation?]
  exact cut_cons (by rw [step, hstart])

lemma cut_letters {cs : List Char} (h : ∀ c ∈ cs, c.isAlpha = true) (read : List Char) :
    cut (.word read) (cs ++ rest) = cut (.word (cs.reverse ++ read)) rest := by
  induction cs generalizing read with
  | nil => rfl
  | cons c cs ih =>
    have hstep : step (.word read) c = some ([], .word (c :: read)) := by
      simp [step, h c (by simp)]
    rw [List.cons_append, cut_cons_nil hstep, ih fun x hx => h x (by simp [hx]), List.reverse_cons,
      List.append_assoc, List.singleton_append]

/-- A word is cut off as one token. -/
lemma cut_wordText {c : Char} {cs : List Char} {token : Token}
    (hstart : start c = some ([], .word [c])) (hletters : cs.all Char.isAlpha = true)
    (hword : word? (c :: cs) = some token) (h : Breaks rest) :
    cut .between (c :: (cs ++ rest)) = (cut .between rest).map (token :: ·) := by
  rw [cut_cons_nil (by rw [step, hstart]), cut_letters (List.all_eq_true.mp hletters),
    cut_word _ h]
  simp [hword]

end Token

/-! ### Putting together -/

mutual

/-- A value as it stands in its text. -/
def written : Json → Written
  | .null => .null
  | .bool value => .bool value
  | .number value => .number value.literal
  | .string value => .string (some value)
  | .array items => .array (writtenItems items)
  | .object members => .object (writtenMembers members)

/-- Items as they stand in their text. -/
def writtenItems : List Json → List Written
  | [] => []
  | item :: rest => written item :: writtenItems rest

/-- Members as they stand in their text. -/
def writtenMembers : List (String × Json) → List (Option String × Written)
  | [] => []
  | (key, value) :: rest => (some key, written value) :: writtenMembers rest

end

namespace Written

/-- Reads on, from a machine in the middle of a text. -/
def readOn (machine : Machine) (text : List Char) : Option Machine :=
  (Token.cut .between text).bind fun tokens => tokens.foldlM step machine

lemma read?_eq (text : String) : read? text = (readOn ⟨.value, []⟩ text.toList).bind finished? := by
  rw [read?, Token.tokens?, readOn]
  cases Token.cut .between text.toList <;> rfl

lemma readOn_token {machine : Machine} {token : Token} {text rest : List Char}
    (h : Token.cut .between text = (Token.cut .between rest).map (token :: ·)) :
    readOn machine text = (step machine token).bind (readOn · rest) := by
  rw [readOn, h]
  cases hrest : Token.cut .between rest <;> cases hstep : step machine token <;>
    simp [readOn, hrest, hstep]

/-- The machine is ready for a value: it takes every token with which one can begin. -/
def Ready (expecting : Expecting) (opened : List Frame) : Prop :=
  ∀ token, token ≠ .closeBracket → step ⟨expecting, opened⟩ token = beginValue opened token

lemma ready_value (opened : List Frame) : Ready .value opened := fun _ _ => rfl

lemma ready_firstItem (opened : List Frame) : Ready .firstItem (.array [] :: opened) := by
  intro token htoken
  cases token <;> first | rfl | exact absurd rfl htoken

/-- The machine is ready for the key of a member after the given ones. -/
def ReadyForKey (expecting : Expecting) (members : List (Option String × Written)) : Prop :=
  ∀ key opened, step ⟨expecting, opened⟩ (.string key) = some ⟨.colon members key, opened⟩

lemma readyForKey_firstKey : ReadyForKey .firstKey [] := fun _ _ => rfl

lemma readyForKey_key (members : List (Option String × Written)) :
    ReadyForKey (.key members) members := fun _ _ => rfl

variable {expecting : Expecting} {opened : List Frame} {rest : List Char}

lemma readOn_ofToken {token : Token} {value : Written} {text : List Char}
    (hready : Ready expecting opened)
    (hcut : Token.cut .between text = (Token.cut .between rest).map (token :: ·))
    (hvalue : ofToken? token = some value) :
    readOn ⟨expecting, opened⟩ text = readOn ⟨.separator value, opened⟩ rest := by
  have hbegin : beginValue opened token = some ⟨.separator value, opened⟩ := by
    cases token <;> simp_all [ofToken?, beginValue]
  have htoken : token ≠ .closeBracket := by
    rintro rfl
    cases hvalue
  rw [readOn_token hcut, hready token htoken, hbegin, Option.bind_some]

lemma readOn_punctuation {machine next : Machine} {c : Char} {token : Token}
    (hpunctuation : Token.punctuation? c = some token) (hstep : step machine token = some next) :
    readOn machine (c :: rest) = readOn next rest := by
  rw [readOn_token (Token.cut_punctuation hpunctuation), hstep, Option.bind_some]

end Written

open Written

/-! ### Texts as characters -/

lemma toList_compact_array (items : List Json) :
    (compact (.array items)).toList = '[' :: ((compactItems items).toList ++ [']']) := by
  rw [compact, String.toList_append, String.toList_append]
  rfl

lemma toList_compact_object (members : List (String × Json)) :
    (compact (.object members)).toList = '{' :: ((compactMembers members).toList ++ ['}']) := by
  rw [compact, String.toList_append, String.toList_append]
  rfl

lemma toList_compactItems_cons (item next : Json) (items : List Json) :
    (compactItems (item :: next :: items)).toList =
      item.compact.toList ++ ',' :: (compactItems (next :: items)).toList := by
  rw [compactItems, String.toList_append, String.toList_append, List.append_assoc]
  · rfl
  · simp

lemma toList_compactMembers_singleton (key : String) (value : Json) :
    (compactMembers [(key, value)]).toList = (quote key).toList ++ ':' :: value.compact.toList := by
  rw [compactMembers, String.toList_append, String.toList_append, List.append_assoc]
  rfl

lemma toList_compactMembers_cons (key : String) (value : Json) (next : String × Json)
    (members : List (String × Json)) :
    (compactMembers ((key, value) :: next :: members)).toList =
      (quote key).toList ++ ':' :: (value.compact.toList ++
        ',' :: (compactMembers (next :: members)).toList) := by
  rw [compactMembers]
  · simp only [String.toList_append, List.append_assoc]
    rfl
  · simp

mutual

/-- The text of a value is read as one value. -/
theorem readOn_compact : (value : Json) → ∀ {expecting opened rest}, Ready expecting opened →
    Token.Breaks rest → readOn ⟨expecting, opened⟩ (value.compact.toList ++ rest) =
      readOn ⟨.separator value.written, opened⟩ rest
  | .null => fun hready hrest =>
    readOn_ofToken hready (Token.cut_wordText rfl rfl rfl hrest) rfl
  | .bool true => fun hready hrest =>
    readOn_ofToken hready (Token.cut_wordText rfl rfl rfl hrest) rfl
  | .bool false => fun hready hrest =>
    readOn_ofToken hready (Token.cut_wordText rfl rfl rfl hrest) rfl
  | .number value => fun hready hrest =>
    readOn_ofToken hready (Token.cut_numberText value hrest) rfl
  | .string value => fun hready _ => readOn_ofToken hready (Token.cut_quote value) rfl
  | .array items => fun hready _ => by
    rw [toList_compact_array, List.cons_append, List.append_assoc]
    refine (readOn_punctuation rfl (hready _ (by decide))).trans ?_
    match items with
    | [] => exact readOn_punctuation rfl rfl
    | item :: items => exact readOn_compactItems (item :: items) (by simp) (ready_firstItem _)
  | .object members => fun hready _ => by
    rw [toList_compact_object, List.cons_append, List.append_assoc]
    refine (readOn_punctuation rfl (hready _ (by decide))).trans ?_
    match members with
    | [] => exact readOn_punctuation rfl rfl
    | member :: members =>
      exact readOn_compactMembers (member :: members) (by simp) readyForKey_firstKey

/-- The texts of items up to the closing bracket complete their array. -/
theorem readOn_compactItems : (items : List Json) → items ≠ [] → ∀ {expecting read opened rest},
    Ready expecting (.array read :: opened) →
    readOn ⟨expecting, .array read :: opened⟩ ((compactItems items).toList ++ ']' :: rest) =
      readOn ⟨.separator (.array (read.reverse ++ writtenItems items)), opened⟩ rest
  | [], hne => absurd rfl hne
  | [item], _ => fun hready => by
    rw [compactItems, readOn_compact item hready (Token.breaks_cons (by simp)), writtenItems,
      writtenItems, ← List.reverse_cons]
    exact readOn_punctuation rfl rfl
  | item :: next :: items, _ => fun hready => by
    rw [toList_compactItems_cons, List.append_assoc, List.cons_append,
      readOn_compact item hready (Token.breaks_cons (by simp))]
    refine (readOn_punctuation rfl rfl).trans ?_
    rw [readOn_compactItems (next :: items) (by simp) (ready_value _), List.reverse_cons,
      List.append_assoc, List.singleton_append, writtenItems.eq_2 item]

/-- The texts of members up to the closing brace complete their object. -/
theorem readOn_compactMembers : (members : List (String × Json)) → members ≠ [] →
    ∀ {expecting read opened rest}, ReadyForKey expecting read →
    readOn ⟨expecting, opened⟩ ((compactMembers members).toList ++ '}' :: rest) =
      readOn ⟨.separator (.object (read.reverse ++ writtenMembers members)), opened⟩ rest
  | [], hne => absurd rfl hne
  | [(key, value)], _ => fun hready => by
    rw [toList_compactMembers_singleton, List.append_assoc, List.cons_append,
      readOn_token (Token.cut_quote key), hready, Option.bind_some]
    refine (readOn_punctuation rfl rfl).trans ?_
    rw [readOn_compact value (ready_value _) (Token.breaks_cons (by simp)), writtenMembers,
      writtenMembers, ← List.reverse_cons]
    exact readOn_punctuation rfl rfl
  | (key, value) :: next :: members, _ => fun hready => by
    rw [toList_compactMembers_cons, List.append_assoc, List.cons_append, List.append_assoc,
      List.cons_append, readOn_token (Token.cut_quote key), hready, Option.bind_some]
    refine (readOn_punctuation rfl rfl).trans ?_
    rw [readOn_compact value (ready_value _) (Token.breaks_cons (by simp))]
    refine (readOn_punctuation rfl rfl).trans ?_
    rw [readOn_compactMembers (next :: members) (by simp) (readyForKey_key _), List.reverse_cons,
      List.append_assoc, List.singleton_append, writtenMembers.eq_2 key]

end

/-- Every value is read off its text as it was written. -/
theorem read?_compact_written (value : Json) :
    Written.read? value.compact = some value.written := by
  have hread := readOn_compact value (ready_value []) Token.breaks_nil
  rw [List.append_nil] at hread
  rw [Written.read?_eq, hread]
  rfl

end PhraseScript.Json
