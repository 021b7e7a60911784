import PhraseScript.Proofs.JsonValues
import PhraseScript.Session.Saved

/-!
# Loading saved sessions

A saved session is the text of one JSON value (`Session.savedDocument`).  Loading it gives the
same session when this value is at most as deep as the reader goes, and nothing when it is deeper
(`Session.readSaved?_savedText`): what is saved is not bounded, what is loaded is.
-/

namespace PhraseScript

/-- A list is read if all its items are. -/
lemma mapM_eq_ite {α β : Type} {read : α → Option β} {p : α → Prop} [DecidablePred p] {f : α → β}
    {l : List α} (h : ∀ x ∈ l, read x = if p x then some (f x) else none) :
    l.mapM read = if ∀ x ∈ l, p x then some (l.map f) else none := by
  induction l with
  | nil => rfl
  | cons x l ih =>
    rw [List.mapM_cons, h x (by simp), ih fun y hy => h y (by simp [hy])]
    by_cases hx : p x
    · by_cases hl : ∀ y ∈ l, p y
      · simp only [List.forall_mem_cons, hx, if_pos hl, true_and, if_true]
        rfl
      · simp only [List.forall_mem_cons, hx, if_neg hl, true_and, if_true]
        rfl
    · simp [hx]

lemma mapM_eq_some {α β : Type} {read : α → Option β} {f : α → β} {l : List α}
    (h : ∀ x ∈ l, read x = some (f x)) : l.mapM read = some (l.map f) := by
  rw [mapM_eq_ite (p := fun _ => True) (f := f) fun x hx => by rw [h x hx, if_pos trivial]]
  simp

namespace Json

variable {members : List (String × Json)} {items : List Json}

lemma compactMembers_eq (members : List (String × Json)) :
    compactMembers members =
      ",".intercalate (members.map fun member => quote member.1 ++ ":" ++ member.2.compact) := by
  induction members with
  | nil => simp [compactMembers, String.intercalate_nil]
  | cons member rest ih =>
    cases rest with
    | nil => simp [compactMembers, String.intercalate_singleton]
    | cons next rest =>
      rw [compactMembers, ih]
      · simp [String.intercalate_cons_cons]
      · simp

/-- A record is written like the object with its members in the given order. -/
lemma record_eq (members : List (String × Json)) :
    record (members.map fun member => (member.1, member.2.compact)) =
      (Json.object members).compact := by
  rw [record, compact, compactMembers_eq, List.map_map]
  rfl

lemma writtenItems_eq (items : List Json) : writtenItems items = items.map written := by
  induction items with
  | nil => rfl
  | cons item rest ih => rw [writtenItems, ih, List.map_cons]

lemma writtenMembers_eq (members : List (String × Json)) :
    writtenMembers members = members.map fun member => (some member.1, member.2.written) := by
  induction members with
  | nil => rfl
  | cons member rest ih => rw [writtenMembers, ih, List.map_cons]

lemma itemsDepth_le_iff {n : Nat} : itemsDepth items ≤ n ↔ ∀ item ∈ items, item.depth ≤ n := by
  induction items with
  | nil => simp [itemsDepth]
  | cons item rest ih => rw [itemsDepth, Nat.max_le, ih, List.forall_mem_cons]

lemma membersDepth_le_iff {n : Nat} :
    membersDepth members ≤ n ↔ ∀ member ∈ members, member.2.depth ≤ n := by
  induction members with
  | nil => simp [membersDepth]
  | cons member rest ih => rw [membersDepth, Nat.max_le, ih, List.forall_mem_cons]

namespace Written

/-- An object with some of the fields of a record is read as these. -/
lemma record?_object (names : List String) (fields : List (String × Written))
    (hknown : ∀ field ∈ fields, field.1 ∈ names) (hnodup : (fields.map Prod.fst).Nodup) :
    record? names (.object (fields.map fun field => (some field.1, field.2))) = some fields := by
  have hmembers : (fields.map fun field => (some field.1, field.2)).mapM
      (fun member => member.1.map (·, member.2)) = some fields := by
    have hread : fields.mapM (fun field => some field) = some (fields.map id) :=
      mapM_eq_some fun _ _ => rfl
    rw [List.mapM_map]
    exact hread.trans (congrArg some (List.map_id fields))
  have hfilter : fields.filter (fun field => field.1 ∈ names) = fields := by
    rw [List.filter_eq_self]
    exact fun field hfield => decide_eq_true (hknown field hfield)
  simp only [record?, hmembers, Option.bind_eq_bind, Option.bind_some, hfilter, if_pos hnodup]

lemma record?_written (names : List String) (members : List (String × Json))
    (hknown : ∀ member ∈ members, member.1 ∈ names)
    (hnodup : (members.map Prod.fst).Nodup) :
    record? names (Json.object members).written =
      some (members.map fun member => (member.1, member.2.written)) := by
  rw [written, writtenMembers_eq]
  have hknown' : ∀ field ∈ members.map fun member => (member.1, member.2.written),
      field.1 ∈ names := by
    intro field hfield
    obtain ⟨member, hmember, rfl⟩ := List.mem_map.mp hfield
    exact hknown member hmember
  have hrecord := record?_object names _ hknown' (by simpa [Function.comp_def] using hnodup)
  rwa [List.map_map] at hrecord

/-- Items come back wherever there is room for all of them. -/
lemma items?_written (h : ∀ item ∈ items, item.IsKept) (allowance : Nat) :
    (Json.array items).written.items? (·.within? allowance) =
      if ∀ item ∈ items, item.depth ≤ allowance then some items else none := by
  have hread := mapM_eq_ite (f := id) fun item hitem => within?_written (h item hitem) allowance
  rw [List.map_id] at hread
  rw [written, items?, writtenItems_eq, List.mapM_map]
  exact hread

/-- Entries come back if all their values do. -/
lemma dictionary?_written {α : Type} (d : Dictionary α) (form : α → Json)
    (read : Written → Option α) (p : α → Prop) [DecidablePred p]
    (h : ∀ entry ∈ d.entries, read (form entry.2).written =
      if p entry.2 then some entry.2 else none) :
    (Json.object (d.map form).entries).written.dictionary? read =
      if ∀ entry ∈ d.entries, p entry.2 then some d else none := by
  have hentries : (writtenMembers (d.map form).entries).mapM
      (fun member => do return (← member.1, ← read member.2)) =
      if ∀ entry ∈ d.entries, p entry.2 then some d.entries else none := by
    rw [writtenMembers_eq, Dictionary.map, List.map_map, List.mapM_map,
      mapM_eq_ite (p := fun entry => p entry.2) (f := id), List.map_id]
    intro entry hentry
    by_cases hp : p entry.2 <;> simp [h entry hentry, hp]
  rw [written, dictionary?, hentries]
  split
  · simp [Dictionary.ofList_entries]
  · rfl

end Written

end Json

/-! ### Environments -/

namespace Environment

/-- An environment as it is saved: an object, the variables first. -/
def document (environment : Environment) : Json :=
  .object [("variables", environment.variablesJson), ("lists", environment.listsJson)]

lemma text_eq (environment : Environment) : environment.text = environment.document.compact :=
  Json.record_eq [("variables", environment.variablesJson), ("lists", environment.listsJson)]

/-- The values of an environment: those of its variables, and the items of its lists. -/
def values (environment : Environment) : List Json :=
  environment.vars.entries.map Prod.snd ++ environment.lists.entries.flatMap Prod.snd

variable {environment : Environment}

lemma depth_document_le_iff {allowance : Nat} (hallowance : 3 ≤ allowance) :
    environment.document.depth ≤ allowance ↔
      (∀ entry ∈ environment.vars.entries, entry.2.depth ≤ allowance - 2) ∧
        ∀ entry ∈ environment.lists.entries, ∀ item ∈ entry.2, item.depth ≤ allowance - 3 := by
  have hvars : environment.variablesJson.depth ≤ allowance - 1 ↔
      ∀ entry ∈ environment.vars.entries, entry.2.depth ≤ allowance - 2 := by
    rw [← Json.membersDepth_le_iff, variablesJson, Json.depth]
    omega
  have hlists : environment.listsJson.depth ≤ allowance - 1 ↔
      ∀ entry ∈ environment.lists.entries, ∀ item ∈ entry.2, item.depth ≤ allowance - 3 := by
    have harray : ∀ items : List Json, (Json.array items).depth ≤ allowance - 2 ↔
        ∀ item ∈ items, item.depth ≤ allowance - 3 := by
      intro items
      rw [← Json.itemsDepth_le_iff, Json.depth]
      omega
    have hmembers : Json.membersDepth (environment.lists.map .array).entries ≤ allowance - 2 ↔
        ∀ entry ∈ environment.lists.entries, ∀ item ∈ entry.2, item.depth ≤ allowance - 3 := by
      simp only [Json.membersDepth_le_iff, Dictionary.map, List.forall_mem_map, harray]
    rw [← hmembers, listsJson, Json.depth]
    omega
  rw [← hvars, ← hlists, document, Json.depth, Json.membersDepth, Json.membersDepth,
    Json.membersDepth]
  omega

/-- An environment comes back wherever there is room for its depth. -/
lemma ofWritten?_document (h : ∀ value ∈ environment.values, value.IsKept) (allowance : Nat)
    (hallowance : 3 ≤ allowance) :
    ofWritten? allowance environment.document.written =
      if environment.document.depth ≤ allowance then some environment else none := by
  have hvars : environment.variablesJson.written.dictionary? (·.within? (allowance - 2)) =
      if ∀ entry ∈ environment.vars.entries, entry.2.depth ≤ allowance - 2 then
        some environment.vars else none := by
    have hread := Json.Written.dictionary?_written environment.vars id
      (·.within? (allowance - 2)) (·.depth ≤ allowance - 2) fun entry hentry =>
        Json.within?_written (h _ (List.mem_append_left _ (List.mem_map_of_mem hentry))) _
    simpa [Dictionary.map, variablesJson] using hread
  have hlists : environment.listsJson.written.dictionary?
      (·.items? (·.within? (allowance - 3))) =
      if ∀ entry ∈ environment.lists.entries, ∀ item ∈ entry.2, item.depth ≤ allowance - 3 then
        some environment.lists else none :=
    Json.Written.dictionary?_written environment.lists .array _
      (∀ item ∈ ·, item.depth ≤ allowance - 3) fun entry hentry =>
        Json.Written.items?_written (fun item hitem =>
          h _ (List.mem_append_right _ (List.mem_flatMap.mpr ⟨entry, hentry, hitem⟩))) _
  have hfields : environment.document.written.record? ["variables", "lists"] =
      some [("variables", environment.variablesJson.written),
        ("lists", environment.listsJson.written)] :=
    Json.Written.record?_written _ [("variables", environment.variablesJson),
      ("lists", environment.listsJson)] (by simp) (by simp)
  have hlookup : ([("variables", environment.variablesJson.written),
      ("lists", environment.listsJson.written)]).lookup "lists" =
        some environment.listsJson.written := by
    simp [List.lookup_cons]
  rw [ofWritten?, hfields]
  simp only [Option.bind_eq_bind, Option.bind_some, List.lookup_cons_self, hlookup, hvars, hlists]
  by_cases hv : ∀ entry ∈ environment.vars.entries, entry.2.depth ≤ allowance - 2
  · rw [if_pos hv, Option.bind_some]
    by_cases hl : ∀ entry ∈ environment.lists.entries, ∀ item ∈ entry.2, item.depth ≤ allowance - 3
    · rw [if_pos hl, if_pos ((depth_document_le_iff hallowance).mpr ⟨hv, hl⟩)]
      rfl
    · rw [if_neg hl, if_neg fun hd => hl ((depth_document_le_iff hallowance).mp hd).2]
      rfl
  · rw [if_neg hv, if_neg fun hd => hv ((depth_document_le_iff hallowance).mp hd).1]
    rfl

end Environment

/-! ### Sessions -/

namespace Session

/-- A session as it is saved: an object, the environment first. -/
def document (session : Session) : Json :=
  .object (("environment", session.environment.document) ::
    (session.program.map fun program => ("program", .array program)).toList)

/-- A session with the name of the schema: what is saved. -/
def savedDocument (session : Session) : Json :=
  .object [("schemaVersion", .string schema), ("session", session.document)]

lemma text_eq (session : Session) : session.text = session.document.compact := by
  rw [text, document, ← Json.record_eq, Environment.text_eq]
  cases session.program <;> rfl

lemma savedText_eq (session : Session) : session.savedText = session.savedDocument.compact := by
  rw [savedText, text_eq]
  exact Json.record_eq [("schemaVersion", .string schema), ("session", session.document)]

/-- The values of a session: those of its environment, and the recorded sequences. -/
def values (session : Session) : List Json :=
  session.environment.values ++ session.program.getD []

variable {session : Session}

lemma depth_document_le_iff {allowance : Nat} (hallowance : 2 ≤ allowance) :
    session.document.depth ≤ allowance ↔
      session.environment.document.depth ≤ allowance - 1 ∧
        ∀ sequence ∈ session.program.getD [], sequence.depth ≤ allowance - 1 - 1 := by
  have hprogram : Json.membersDepth
      (session.program.map fun program => ("program", Json.array program)).toList ≤
        allowance - 1 ↔
      ∀ sequence ∈ session.program.getD [], sequence.depth ≤ allowance - 1 - 1 := by
    rw [← Json.itemsDepth_le_iff]
    cases session.program with
    | none => simp [Json.membersDepth, Json.itemsDepth]
    | some program =>
      simp only [Option.map_some, Option.toList_some, Json.membersDepth, Json.depth,
        Option.getD_some]
      omega
  rw [← hprogram, document, Json.depth, Json.membersDepth]
  omega

/-- A recording, or none, comes back wherever there is room for it. -/
lemma programOfWritten?_written (h : ∀ value ∈ session.values, value.IsKept) (allowance : Nat) :
    programOfWritten? allowance
      (((session.program.map fun program => ("program", (Json.array program).written)).toList.lookup
        "program").getD .null) =
      if ∀ sequence ∈ session.program.getD [], sequence.depth ≤ allowance - 1 then
        some session.program else none := by
  cases hprogram : session.program with
  | none => simp [programOfWritten?]
  | some program =>
    have hkept : ∀ sequence ∈ program, sequence.IsKept := fun sequence hsequence =>
      h sequence (List.mem_append_right _ (by rw [hprogram]; exact hsequence))
    have hitems := Json.Written.items?_written hkept (allowance - 1)
    simp only [Option.map_some, Option.toList_some, List.lookup_cons_self, Option.getD_some]
    rw [programOfWritten?, hitems]
    · split <;> simp_all
    · simp [Json.written]

/-- A session comes back wherever there is room for its depth. -/
lemma ofWritten?_document (h : ∀ value ∈ session.values, value.IsKept) (allowance : Nat)
    (hallowance : 4 ≤ allowance) :
    ofWritten? allowance session.document.written =
      if session.document.depth ≤ allowance then some session else none := by
  have henvironment := Environment.ofWritten?_document
    (fun value hvalue => h value (List.mem_append_left _ hvalue)) (allowance - 1) (by omega)
  have hprogram := programOfWritten?_written h (allowance - 1)
  have hfields : session.document.written.record? ["environment", "program"] =
      some (("environment", session.environment.document.written) ::
        (session.program.map fun program => ("program", (Json.array program).written)).toList) := by
    rw [document, Json.Written.record?_written]
    · cases session.program <;> rfl
    · cases session.program <;> simp
    · cases session.program <;> simp
  have hlookup : (("environment", session.environment.document.written) ::
      (session.program.map fun program => ("program", (Json.array program).written)).toList).lookup
        "program" = (session.program.map fun program =>
          ("program", (Json.array program).written)).toList.lookup "program" := by
    rw [List.lookup_cons]
    rfl
  rw [ofWritten?, hfields]
  simp only [Option.bind_eq_bind, Option.bind_some, List.lookup_cons_self, hlookup, henvironment]
  by_cases he : session.environment.document.depth ≤ allowance - 1
  · rw [if_pos he, Option.bind_some, hprogram]
    by_cases hp : ∀ sequence ∈ session.program.getD [], sequence.depth ≤ allowance - 1 - 1
    · rw [if_pos hp, if_pos ((depth_document_le_iff (by omega)).mpr ⟨he, hp⟩)]
      rfl
    · rw [if_neg hp, if_neg fun hd => hp ((depth_document_le_iff (by omega)).mp hd).2]
      rfl
  · rw [if_neg he, if_neg fun hd => he ((depth_document_le_iff (by omega)).mp hd).1]
    rfl

/-- A saved session comes back unless it is too deep for the reader. -/
theorem readSaved?_savedText (h : ∀ value ∈ session.values, value.IsKept) :
    readSaved? session.savedText =
      if session.savedDocument.depth ≤ Json.maxDepth then some (schema, session) else none := by
  have hdepth : session.savedDocument.depth ≤ Json.maxDepth ↔
      session.document.depth ≤ Json.maxDepth - 1 := by
    simp only [savedDocument, Json.depth, Json.membersDepth, Json.maxDepth]
    omega
  have hsession := ofWritten?_document h (Json.maxDepth - 1) (by decide)
  have hfields : session.savedDocument.written.record? ["schemaVersion", "session"] =
      some [("schemaVersion", .string (some schema)), ("session", session.document.written)] :=
    Json.Written.record?_written _
      [("schemaVersion", .string schema), ("session", session.document)] (by simp) (by simp)
  have hlookup : [("schemaVersion", Json.Written.string (some schema)),
      ("session", session.document.written)].lookup "session" = some session.document.written := by
    simp [List.lookup_cons]
  rw [readSaved?, savedText_eq, Json.read?_compact_written]
  simp only [Option.bind_eq_bind, Option.bind_some, hfields, List.lookup_cons_self, hlookup,
    Json.Written.string?, hsession, hdepth]
  split <;> rfl

end Session

end PhraseScript
