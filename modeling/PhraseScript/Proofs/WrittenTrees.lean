import PhraseScript.Proofs.Notations

/-!
# Trees as they are written

What a JSON tree is read from is itself a tree: the nodes written right below a node are the items
of its field `children` (`writtenChildren`).  A path leads to a node of the one just when it leads
to a node of the other, and the one is read from the other (`map_ofWritten?_writtenAt?`).  The
reader changes nothing else, except that it may count out spans (`exists_of_read_document`); then a
node comes out as if the counting had begun with it (`nodeAt?_reindexFrom`).
-/

namespace PhraseScript.Derivation

open Json (Written)

/-! ### The fields of a node -/

/-- The fields of a node. -/
def fields? (written : Written) : Option (List (String × Written)) := do
  let kind ← NodeKind.ofWritten? (← kindField? written)
  written.record? kind.fields

/-- The nodes that are written right below a node. -/
def writtenChildren (written : Written) : List Written :=
  match (fields? written).bind (·.lookup "children") with
  | some (.array items) => items
  | _ => []

/-- The node that is written at the end of a path. -/
def writtenAt? : Written → List Nat → Option Written
  | written, [] => some written
  | written, position :: path => (writtenChildren written)[position]?.bind (writtenAt? · path)

section Fields

variable {members : List (Option String × Written)} {fields : List (String × Written)}
  {names : List String} {key : String}

lemma eq_map_of_mapM_key
    (h : members.mapM (fun member => member.1.map (·, member.2)) = some fields) :
    members = fields.map fun field => (some field.1, field.2) := by
  induction members generalizing fields with
  | nil =>
    obtain rfl := Option.some.inj h
    rfl
  | cons member members ih =>
    rw [List.mapM_cons] at h
    obtain ⟨field, hfield, h⟩ := Option.bind_eq_some_iff.mp h
    obtain ⟨others, hothers, h⟩ := Option.bind_eq_some_iff.mp h
    obtain rfl := Option.some.inj h
    obtain ⟨name, hname, rfl⟩ := Option.map_eq_some_iff.mp hfield
    rw [List.map_cons, ← ih hothers, ← hname]

lemma lookup_filter_mem (h : key ∈ names) :
    (fields.filter fun field => field.1 ∈ names).lookup key = fields.lookup key := by
  induction fields with
  | nil => rfl
  | cons field fields ih =>
    by_cases hmem : field.1 ∈ names
    · rw [List.filter_cons_of_pos (by simpa using hmem), List.lookup_cons, List.lookup_cons, ih]
    · have hne : (key == field.1) = false := beq_eq_false_iff_ne.mpr fun heq => hmem (heq ▸ h)
      rw [List.filter_cons_of_neg (by simpa using hmem), List.lookup_cons, hne, ih]

/-- The fields of an object are members of it, and those that are asked for are found. -/
lemma exists_members_of_record? (h : (Written.object members).record? names = some fields) :
    ∃ listed : List (String × Written),
      members = listed.map (fun field => (some field.1, field.2)) ∧
        ∀ key ∈ names, fields.lookup key = listed.lookup key := by
  obtain ⟨listed, hlisted, h⟩ := Option.bind_eq_some_iff.mp h
  dsimp only at h
  split_ifs at h
  obtain rfl := Option.some.inj h
  exact ⟨listed, eq_map_of_mapM_key hlisted, fun key hkey => lookup_filter_mem hkey⟩

lemma childrenAt?_eq (position : Nat) (items : List Written) :
    childrenAt? position items = items[position]?.bind forestOfWritten? := by
  induction items generalizing position with
  | nil => cases position <;> rfl
  | cons item items ih =>
    cases position with
    | zero => rfl
    | succ position => rw [childrenAt?, ih, List.getElem?_cons_succ]

/-- The children of a rule are read from its field. -/
lemma ofWritten?_eq {written : Written} (h : written.record? NodeKind.rule.fields = some fields) :
    ofWritten? written =
      ofFields? written ((fields.lookup "children").bind forestOfWritten?) := by
  cases written with
  | object members =>
    obtain ⟨listed, rfl, hlookup⟩ := exists_members_of_record? h
    rw [ofWritten?, childrenAmong?_members, hlookup "children" (by simp [NodeKind.fields])]
  | array items =>
    rw [Written.record?] at h
    split_ifs at h
    obtain rfl := Option.some.inj h
    rw [ofWritten?, childrenAt?_eq]
    rcases items with _ | ⟨kind, _ | ⟨lhs, _ | ⟨rhs, _ | ⟨children, rest⟩⟩⟩⟩ <;> rfl
  | null | bool | number | string => cases h

/-- A record has no other fields than those asked for. -/
lemma mem_of_record? {written : Written} (h : written.record? names = some fields) :
    ∀ field ∈ fields, field.1 ∈ names := by
  intro field hfield
  cases written with
  | object members =>
    obtain ⟨listed, -, h⟩ := Option.bind_eq_some_iff.mp h
    dsimp only at h
    split_ifs at h
    obtain rfl := Option.some.inj h
    simpa using (List.mem_filter.mp hfield).2
  | array items =>
    rw [Written.record?] at h
    split_ifs at h
    obtain rfl := Option.some.inj h
    exact (List.of_mem_zip hfield).1
  | null | bool | number | string => cases h

end Fields

/-! ### What a tree is read from -/

/-- A node is read from its fields, its span among them, and its children from those below. -/
lemma exists_fields_of_ofWritten? {written : Written} {tree : Derivation}
    (h : ofWritten? written = some tree) :
    ∃ fields, fields? written = some fields ∧ spanAmong? fields = some tree.span ∧
      treesOfWritten? (writtenChildren written) = some tree.children := by
  obtain ⟨children?, hnode⟩ : ∃ children?, ofFields? written children? = some tree := by
    cases written with
    | object | array => exact ⟨_, h⟩
    | null | bool | number | string => cases h
  obtain ⟨value, hvalue, hnode⟩ := Option.bind_eq_some_iff.mp hnode
  obtain ⟨kind, hkind, hnode⟩ := Option.bind_eq_some_iff.mp hnode
  obtain ⟨fields, hrecord, hnode⟩ := Option.bind_eq_some_iff.mp hnode
  obtain ⟨span, hspan, hnode⟩ := Option.bind_eq_some_iff.mp hnode
  have hfields : fields? written = some fields := by
    simp only [fields?, hvalue, hkind, hrecord, Option.bind_eq_bind, Option.bind_some]
  cases kind with
  | leaf =>
    obtain ⟨_, -, hnode⟩ := Option.bind_eq_some_iff.mp hnode
    obtain ⟨category, -, hnode⟩ := Option.bind_eq_some_iff.mp hnode
    obtain ⟨_, -, hnode⟩ := Option.bind_eq_some_iff.mp hnode
    obtain ⟨word, -, hnode⟩ := Option.bind_eq_some_iff.mp hnode
    obtain rfl := Option.some.inj hnode
    have hnone : fields.lookup "children" = none := by
      rw [List.lookup_eq_none_iff]
      intro field hfield
      have hname := mem_of_record? hrecord field hfield
      exact bne_iff_ne.mpr fun heq => absurd (heq.symm ▸ hname) (by decide)
    refine ⟨fields, hfields, hspan, ?_⟩
    rw [writtenChildren, hfields, Option.bind_some, hnone]
    rfl
  | rule =>
    rw [ofWritten?_eq hrecord] at h
    simp only [ofFields?, hvalue, hkind, hrecord, hspan, Option.bind_eq_bind,
      Option.bind_some] at h
    obtain ⟨_, -, h⟩ := Option.bind_eq_some_iff.mp h
    obtain ⟨lhs, -, h⟩ := Option.bind_eq_some_iff.mp h
    obtain ⟨_, -, h⟩ := Option.bind_eq_some_iff.mp h
    obtain ⟨rhs, -, h⟩ := Option.bind_eq_some_iff.mp h
    obtain ⟨children, hchildren, h⟩ := Option.bind_eq_some_iff.mp h
    obtain rfl := Option.some.inj h
    obtain ⟨below, hbelow, hchildren⟩ := Option.bind_eq_some_iff.mp hchildren
    refine ⟨fields, hfields, hspan, ?_⟩
    rw [writtenChildren, hfields, Option.bind_some, hbelow]
    cases below with
    | array items => exact hchildren
    | null | bool | number | string | object => cases hchildren

lemma map_ofWritten?_of_treesOfWritten? {items : List Written} {trees : List Derivation}
    (h : treesOfWritten? items = some trees) : items.map ofWritten? = trees.map some := by
  induction items generalizing trees with
  | nil =>
    obtain rfl := Option.some.inj h
    rfl
  | cons item items ih =>
    obtain ⟨tree, htree, h⟩ := Option.bind_eq_some_iff.mp h
    obtain ⟨others, hothers, h⟩ := Option.bind_eq_some_iff.mp h
    obtain rfl := Option.some.inj h
    rw [List.map_cons, List.map_cons, htree, ih hothers]

/-- The node at the end of a path is read from the node written there, and there is none if none
is written. -/
theorem map_ofWritten?_writtenAt? {written : Written} {tree : Derivation}
    (h : ofWritten? written = some tree) (path : List Nat) :
    (writtenAt? written path).map ofWritten? = (tree.nodeAt? path).map some := by
  induction path generalizing written tree with
  | nil => rw [writtenAt?, nodeAt?, Option.map_some, Option.map_some, h]
  | cons position path ih =>
    obtain ⟨-, -, -, hchildren⟩ := exists_fields_of_ofWritten? h
    have hposition : (writtenChildren written)[position]?.map ofWritten? =
        tree.children[position]?.map some := by
      rw [← List.getElem?_map, ← List.getElem?_map, map_ofWritten?_of_treesOfWritten? hchildren]
    rw [writtenAt?, nodeAt?]
    cases hitem : (writtenChildren written)[position]? with
    | none =>
      rw [hitem] at hposition
      rw [Option.map_eq_none_iff.mp hposition.symm]
      rfl
    | some item =>
      rw [hitem] at hposition
      obtain ⟨child, hchild, hread⟩ := Option.map_eq_some_iff.mp hposition.symm
      rw [hchild]
      exact ih hread.symm

/-! ### Reading -/

/-- A JSON tree is read from what is written, and its spans may be counted out. -/
theorem exists_of_read_document {text : String} {tree : Derivation}
    (hbrace : (Text.trimStart text.toList).head? = some '{') (h : read text = .ok tree) :
    ∃ written original,
      Written.read? (String.ofList (Text.trimStart text.toList)) = some written ∧
        ofWritten? written = some original ∧ tree = original.withSpans := by
  rw [read, if_pos hbrace] at h
  cases hdocument : readDocument (Text.trimStart text.toList) with
  | error cause =>
    rw [hdocument] at h
    cases h
  | ok original =>
    rw [hdocument] at h
    rw [readDocument] at hdocument
    dsimp only at hdocument
    split at hdocument
    · cases hdocument
    · next written hwritten =>
      obtain ⟨hread, -⟩ := Option.filter_eq_some_iff.mp hwritten
      split at hdocument
      · cases hdocument
      · split_ifs at hdocument
        split at hdocument
        · next tree htree =>
          cases hdocument
          exact ⟨written, original, hread, htree, (Except.ok.inj h).symm⟩
        · cases hdocument

/-! ### Counting out spans -/

lemma reindexed_reindexed (tree : Derivation) : tree.reindexed.reindexed = tree.reindexed :=
  congrArg Prod.fst (reindexFrom_reindexFrom 0 tree)

lemma forestWords_append (trees more : List Derivation) :
    forestWords (trees ++ more) = forestWords trees ++ forestWords more := by
  induction trees with
  | nil => rfl
  | cons tree rest ih => rw [List.cons_append, forestWords, forestWords, ih, List.append_assoc]

/-- A node comes out as if the counting had begun with it, at the number of the words to its
left. -/
theorem nodeAt?_reindexFrom (next : Nat) (tree : Derivation) (path : List Nat) :
    (reindexFrom next tree).1.nodeAt? path = (tree.nodeAt? path).map fun node =>
      (reindexFrom (next + (forestWords (tree.leftOf path)).length) node).1 := by
  induction path generalizing next tree with
  | nil => rfl
  | cons position path ih =>
    have hchildren : (reindexFrom next tree).1.children[position]? =
        tree.children[position]?.map fun child => (reindexFrom
          (next + (forestWords (tree.children.take position)).length) child).1 := by
      cases tree with
      | leaf => rfl
      | node lhs rhs trees span => exact getElem?_reindexForest next trees position
    rw [nodeAt?, nodeAt?, leftOf, hchildren]
    cases tree.children[position]? with
    | none => rfl
    | some child =>
      rw [Option.map_some, Option.bind_some, Option.bind_some, ih, Option.elim_some,
        forestWords_append, List.length_append, Nat.add_assoc]

end PhraseScript.Derivation
