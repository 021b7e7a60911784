import Mathlib.Data.List.Basic
import Mathlib.Data.List.Induction
import PhraseScript.Proofs.Lookups
import PhraseScript.Proofs.MachineRuns

/-!
# Directories of a machine

On a machine whose files lie in directories, with names that files can have (`Machine.Orderly`),
paths lead where their names tell: the path of a directory, joined with the names from there to a
file, leads to this file (`Machine.locate_foldl_join`).

The tree files inside a directory are listed by `Machine.treeFiles`, each with its path from there
and its text.  They are just what the search for trees finds (`Machine.filter_filesInside`), and
each can be read with the path that it is listed with (`Machine.readText_of_mem_treeFiles`).
-/

namespace PhraseScript.CommandLine

/-! ### Paths -/

/-- A name that a file or directory can have. -/
structure IsName (name : String) : Prop where
  ne_empty : name ≠ ""
  ne_dot : name ≠ "."
  ne_dots : name ≠ ".."
  slash_not_mem : '/' ∉ name.toList
  null_not_mem : '\x00' ∉ name.toList
  size_le : name.utf8ByteSize ≤ Machine.maxNameSize

instance (name : String) : Decidable (IsName name) :=
  decidable_of_iff (name ≠ "" ∧ name ≠ "." ∧ name ≠ ".." ∧ '/' ∉ name.toList ∧
      '\x00' ∉ name.toList ∧ name.utf8ByteSize ≤ Machine.maxNameSize)
    ⟨fun ⟨h₁, h₂, h₃, h₄, h₅, h₆⟩ => ⟨h₁, h₂, h₃, h₄, h₅, h₆⟩,
      fun ⟨h₁, h₂, h₃, h₄, h₅, h₆⟩ => ⟨h₁, h₂, h₃, h₄, h₅, h₆⟩⟩

namespace Path

variable {directory name path : String} {names : List String}

lemma splitSlashes_ne_nil (chars : List Char) : splitSlashes chars ≠ [] := by
  cases chars with
  | nil => simp [splitSlashes]
  | cons c rest =>
    rw [splitSlashes]
    split
    · simp
    · split <;> simp

lemma splitSlashes_append (chars more : List Char) :
    splitSlashes (chars ++ '/' :: more) = splitSlashes chars ++ splitSlashes more := by
  induction chars with
  | nil => simp [splitSlashes]
  | cons c rest ih =>
    rw [List.cons_append, splitSlashes, splitSlashes, ih]
    split
    · rfl
    · cases hrest : splitSlashes rest with
      | nil => exact absurd hrest (splitSlashes_ne_nil rest)
      | cons part parts => rfl

lemma splitSlashes_of_not_mem {chars : List Char} (h : '/' ∉ chars) :
    splitSlashes chars = [chars] := by
  induction chars with
  | nil => rfl
  | cons c rest ih =>
    rw [List.mem_cons, not_or] at h
    rw [splitSlashes, if_neg (Ne.symm h.1), ih h.2]

lemma parts_of_isName (h : IsName name) : parts name = [name] := by
  rw [parts, splitSlashes_of_not_mem h.slash_not_mem, List.map_singleton, String.ofList_toList]

lemma parts_append (directory path : String) :
    parts (directory ++ "/" ++ path) = parts directory ++ parts path := by
  have hslash : "/".toList = ['/'] := rfl
  rw [parts, parts, parts, ← List.map_append, ← splitSlashes_append, String.toList_append,
    String.toList_append, hslash, List.append_assoc, List.singleton_append]

/-- How a path begins tells whether it is absolute. -/
lemma isAbsolute_append (h : path ≠ "") (more : String) :
    isAbsolute (path ++ more) = isAbsolute path := by
  have hchars : path.toList ≠ [] := fun hnil => h (String.toList_eq_nil_iff.mp hnil)
  obtain ⟨first, rest, hpath⟩ := List.exists_cons_of_ne_nil hchars
  rw [isAbsolute, isAbsolute, String.toList_append, hpath]
  rfl

lemma not_isAbsolute_of_isName (h : IsName name) : isAbsolute name = false := by
  rw [isAbsolute, decide_eq_false_iff_not]
  exact fun hhead => h.slash_not_mem (List.mem_of_mem_head? hhead)

lemma join_of_not_isAbsolute (h : isAbsolute path = false) :
    join directory path =
      if directory.toList.getLast? = some '/' then directory ++ path
      else directory ++ "/" ++ path := by
  rw [join, h, if_neg Bool.false_ne_true]

/-- A path that leads into a directory either ends in a slash or can be followed by one. -/
lemma join_eq (directory : String) (h : isAbsolute path = false) :
    (∃ front, directory = front ++ "/" ∧ join directory path = front ++ "/" ++ path) ∨
      join directory path = directory ++ "/" ++ path := by
  rw [join_of_not_isAbsolute h]
  split
  · next hlast =>
    obtain ⟨front, hfront⟩ := List.getLast?_eq_some_iff.mp hlast
    obtain rfl : directory = String.ofList front ++ "/" := by
      rw [← String.toList_inj, hfront, String.toList_append, String.toList_ofList]
      rfl
    exact .inl ⟨_, rfl, rfl⟩
  · exact .inr rfl

/-- Joined with a name, a path has this name as its last part.  Of the parts before it only an
empty one can have gone. -/
lemma parts_join (directory : String) (h : IsName name) :
    ∃ front, parts (join directory name) = front ++ [name] ∧
    (parts directory = front ∨ parts directory = front ++ [""]) := by
  rcases join_eq directory (not_isAbsolute_of_isName h) with
    ⟨front, rfl, hjoin⟩ | hjoin
  · refine ⟨parts front, by rw [hjoin, parts_append, parts_of_isName h], .inr ?_⟩
    have hempty : front ++ "/" = front ++ "/" ++ "" := by rw [String.append_empty]
    rw [hempty, parts_append]
    rfl
  · exact ⟨parts directory, by rw [hjoin, parts_append, parts_of_isName h], .inl rfl⟩

lemma isAbsolute_join (hdirectory : directory ≠ "") (h : isAbsolute path = false) :
    isAbsolute (join directory path) = isAbsolute directory := by
  rcases join_eq directory h with ⟨front, rfl, hjoin⟩ | hjoin
  · rw [hjoin, isAbsolute_append hdirectory]
  · rw [hjoin, String.append_assoc, isAbsolute_append hdirectory]

lemma size_le_size_join (directory : String) (h : isAbsolute path = false) :
    directory.utf8ByteSize ≤ (join directory path).utf8ByteSize := by
  rcases join_eq directory h with ⟨front, rfl, hjoin⟩ | hjoin <;>
    rw [hjoin] <;> simp only [String.utf8ByteSize_append] <;> omega

lemma null_not_mem_join (hdirectory : '\x00' ∉ directory.toList) (h : IsName name) :
    '\x00' ∉ (join directory name).toList := by
  have hname := h.null_not_mem
  rcases join_eq directory (not_isAbsolute_of_isName h) with
    ⟨front, rfl, hjoin⟩ | hjoin <;>
    rw [hjoin] <;> simp_all

/-- After a name, a path goes on with a slash. -/
lemma join_join (h : IsName name) (hpath : isAbsolute path = false) :
    join directory (name ++ "/" ++ path) = join (join directory name) path := by
  have hlong : isAbsolute (name ++ "/" ++ path) = false := by
    rw [String.append_assoc, isAbsolute_append h.ne_empty]
    exact not_isAbsolute_of_isName h
  have hchars : name.toList ≠ [] := fun hnil => h.ne_empty (String.toList_eq_nil_iff.mp hnil)
  have hlast (front : String) : (front ++ name).toList.getLast? ≠ some '/' := by
    rw [String.toList_append, List.getLast?_append_of_ne_nil _ hchars]
    exact fun hslash => h.slash_not_mem (List.mem_of_mem_getLast? hslash)
  have hnext (front : String) : join (front ++ name) path = front ++ name ++ "/" ++ path := by
    rw [join_of_not_isAbsolute hpath, if_neg (hlast front)]
  rw [join_of_not_isAbsolute hlong, join_of_not_isAbsolute (not_isAbsolute_of_isName h)]
  split_ifs <;> rw [hnext] <;> simp only [String.append_assoc]

lemma not_isAbsolute_intercalate (h : ∀ name ∈ names, IsName name) :
    isAbsolute ("/".intercalate names) = false := by
  cases names with
  | nil => rfl
  | cons name rest =>
    have hname := h name List.mem_cons_self
    cases rest with
    | nil =>
      rw [String.intercalate_singleton]
      exact not_isAbsolute_of_isName hname
    | cons other rest =>
      rw [String.intercalate_cons_cons, String.append_assoc, isAbsolute_append hname.ne_empty]
      exact not_isAbsolute_of_isName hname

/-- Names with slashes between them lead where the names lead one after another. -/
lemma join_intercalate (hne : names ≠ []) (h : ∀ name ∈ names, IsName name)
    (directory : String) :
    join directory ("/".intercalate names) = names.foldl join directory := by
  induction names generalizing directory with
  | nil => exact absurd rfl hne
  | cons name rest ih =>
    obtain ⟨hname, hrest⟩ := List.forall_mem_cons.mp h
    cases rest with
    | nil => rw [String.intercalate_singleton, List.foldl_cons, List.foldl_nil]
    | cons other rest =>
      rw [String.intercalate_cons_cons, join_join hname (not_isAbsolute_intercalate hrest),
        List.foldl_cons, ih (List.cons_ne_nil _ _) hrest]

/-- Names can be told from the path that they make. -/
lemma parts_intercalate (hne : names ≠ []) (h : ∀ name ∈ names, IsName name) :
    parts ("/".intercalate names) = names := by
  induction names with
  | nil => exact absurd rfl hne
  | cons name rest ih =>
    obtain ⟨hname, hrest⟩ := List.forall_mem_cons.mp h
    cases rest with
    | nil => rw [String.intercalate_singleton, parts_of_isName hname]
    | cons other rest =>
      rw [String.intercalate_cons_cons, parts_append, parts_of_isName hname,
        ih (List.cons_ne_nil _ _) hrest, List.singleton_append]

end Path

namespace Machine

variable {machine : Machine} {here location : Location} {entry : Entry}
  {directory name path : String} {names : List String}

/-! ### What names lead to -/

/-- Every file and directory of the machine is listed once, in a directory, with a name that it
can have. -/
structure Orderly (machine : Machine) : Prop where
  nodup : (machine.entries.map Prod.fst).Nodup
  ne_root : ∀ item ∈ machine.entries, item.1 ≠ []
  isName : ∀ item ∈ machine.entries, ∀ name ∈ item.1, IsName name
  parent : ∀ item ∈ machine.entries, machine.entry? item.1.dropLast = some .directory

instance (machine : Machine) : Decidable machine.Orderly :=
  decidable_of_iff ((machine.entries.map Prod.fst).Nodup ∧
      (∀ item ∈ machine.entries, item.1 ≠ []) ∧
      (∀ item ∈ machine.entries, ∀ name ∈ item.1, IsName name) ∧
      ∀ item ∈ machine.entries, machine.entry? item.1.dropLast = some .directory)
    ⟨fun ⟨h₁, h₂, h₃, h₄⟩ => ⟨h₁, h₂, h₃, h₄⟩, fun ⟨h₁, h₂, h₃, h₄⟩ => ⟨h₁, h₂, h₃, h₄⟩⟩

namespace Orderly

/-- What is listed is there. -/
lemma entry?_of_mem (h : machine.Orderly) (hmem : (location, entry) ∈ machine.entries) :
    machine.entry? location = some entry := by
  rw [entry?_eq_lookup (h.ne_root _ hmem)]
  exact lookup_of_mem h.nodup hmem

/-- What is there at the end of a name has this name, and is in a directory. -/
lemma of_entry? (h : machine.Orderly) (hentry : machine.entry? (here ++ [name]) = some entry) :
    IsName name ∧ machine.entry? here = some .directory := by
  rw [entry?_eq_lookup (by simp)] at hentry
  have hmem := mem_of_lookup hentry
  have hparent := h.parent _ hmem
  rw [List.dropLast_concat] at hparent
  exact ⟨h.isName _ hmem name (by simp), hparent⟩

end Orderly

lemma checkPath_eq_ok_iff : checkPath path = .ok () ↔
    path ≠ "" ∧ '\x00' ∉ path.toList ∧ path.utf8ByteSize ≤ maxPathSize := by
  rw [checkPath]
  split_ifs <;> simp_all

lemma follow_append (front rest : List String) :
    machine.follow here (front ++ rest) =
      match machine.follow here front with
      | .ok there => machine.follow there rest
      | .error reason => .error reason := by
  induction front generalizing here with
  | nil => rfl
  | cons name front ih =>
    rw [List.cons_append, follow, follow]
    split
    · rfl
    · split_ifs
      · exact ih
      · exact ih
      · exact ih
      · rfl
    · rfl

/-- A name leads from a directory to what has this name there. -/
lemma locate_join (hlocate : machine.locate directory = .ok here)
    (hhere : machine.entry? here = some .directory) (hname : IsName name)
    (hsize : (Path.join directory name).utf8ByteSize ≤ maxPathSize) :
    machine.locate (Path.join directory name) = .ok (here ++ [name]) := by
  have hrelative := Path.not_isAbsolute_of_isName hname
  rw [locate] at hlocate ⊢
  split at hlocate
  · cases hlocate
  next hcheck =>
    obtain ⟨hempty, hnull, -⟩ := checkPath_eq_ok_iff.mp hcheck
    have hjoin : checkPath (Path.join directory name) = .ok () := by
      refine checkPath_eq_ok_iff.mpr ⟨?_, Path.null_not_mem_join hnull hname, hsize⟩
      intro hjoin
      have hle := Path.size_le_size_join directory hrelative
      rw [hjoin] at hle
      exact hempty (String.utf8ByteSize_eq_zero_iff.mp (Nat.le_zero.mp hle))
    have hstep : machine.follow here [name] = .ok (here ++ [name]) := by
      rw [follow, hhere]
      simp only [hname.ne_empty, hname.ne_dot, hname.ne_dots, hname.size_le, or_false, if_false,
        if_true]
      rfl
    have horigin : machine.origin (Path.join directory name) = machine.origin directory := by
      rw [origin, origin, Path.isAbsolute_join hempty hrelative]
    obtain ⟨front, hparts, hfront⟩ := Path.parts_join directory hname
    have hfollow : machine.follow (machine.origin directory) front = .ok here := by
      rcases hfront with hfront | hfront
      · rwa [hfront] at hlocate
      · -- the slash at the end of the directory's path adds an idle part
        rw [hfront, follow_append] at hlocate
        split at hlocate
        · next there hthere =>
          rw [follow] at hlocate
          split at hlocate
          · cases hlocate
          · rw [if_pos (.inl rfl)] at hlocate
            rwa [← hlocate]
          · cases hlocate
        · cases hlocate
    rw [hjoin, horigin, hparts, follow_append, hfollow]
    exact hstep

/-- From a directory, names lead to what is there at their end. -/
lemma locate_foldl_join (h : machine.Orderly) (hlocate : machine.locate directory = .ok here)
    (hentry : machine.entry? (here ++ names) = some entry)
    (hsize : (names.foldl Path.join directory).utf8ByteSize ≤ maxPathSize) :
    machine.locate (names.foldl Path.join directory) = .ok (here ++ names) := by
  -- what is there is in a directory, to which the names before the last one lead
  induction names using List.reverseRecOn generalizing entry with
  | nil => rwa [List.append_nil]
  | append_singleton front name ih =>
    rw [← List.append_assoc] at hentry
    obtain ⟨hname, hdirectory⟩ := h.of_entry? hentry
    rw [List.foldl_concat] at hsize ⊢
    have hfront : (front.foldl Path.join directory).utf8ByteSize ≤ maxPathSize :=
      Nat.le_trans (Path.size_le_size_join _ (Path.not_isAbsolute_of_isName hname)) hsize
    rw [← List.append_assoc]
    exact locate_join (ih hdirectory hfront) hdirectory hname hsize

/-! ### Tree files -/

/-- A tree file at or below a location: its path from there, and its text. -/
def treeFile? (location : Location) : Location × Entry → Option (String × String)
  | (inner, .file (some text)) =>
    let path := "/".intercalate (inner.drop location.length)
    if location.isPrefixOf inner && isTreeName path then some (path, text) else none
  | _ => none

/-- The tree files at and below a location. -/
def treeFiles (machine : Machine) (location : Location) : List (String × String) :=
  machine.entries.filterMap (treeFile? location)

/-- A path leads to the directory at a location, and the tree files in it can be read: they are
text, and their paths are not too long. -/
structure TreeDirectory (machine : Machine) (directory : String) (location : Location) : Prop where
  locate_eq : machine.locate directory = .ok location
  entry?_eq : machine.entry? location = some .directory
  readable : ∀ names contents, (location ++ names, Entry.file contents) ∈ machine.entries →
    isTreeName ("/".intercalate names) →
    contents.isSome ∧ (names.foldl Path.join directory).utf8ByteSize ≤ maxPathSize

lemma ne_nil_of_isTreeName (h : isTreeName ("/".intercalate names)) : names ≠ [] := by
  rintro rfl
  exact absurd h (by decide)

lemma treeFile?_eq_some_iff {item : Location × Entry} {text : String} :
    treeFile? location item = some (path, text) ↔
      ∃ names, item = (location ++ names, .file (some text)) ∧
        "/".intercalate names = path ∧ isTreeName path := by
  constructor
  · intro hfile
    rw [treeFile?.eq_def] at hfile
    split at hfile
    · dsimp only at hfile
      split_ifs at hfile with hinside
      rw [Bool.and_eq_true, List.isPrefixOf_iff_prefix] at hinside
      obtain ⟨⟨names, rfl⟩, htree⟩ := hinside
      rw [List.drop_left] at hfile htree
      obtain ⟨rfl, rfl⟩ := Prod.mk.inj (Option.some.inj hfile)
      exact ⟨names, rfl, rfl, htree⟩
    · cases hfile
  · rintro ⟨names, rfl, rfl, htree⟩
    simp [treeFile?, htree]

/-- The tree files are the files at and below the location whose path is that of a tree. -/
lemma mem_treeFiles_iff {text : String} :
    (path, text) ∈ machine.treeFiles location ↔
      ∃ names, (location ++ names, .file (some text)) ∈ machine.entries ∧
        "/".intercalate names = path ∧ isTreeName path := by
  simp only [treeFiles, List.mem_filterMap, treeFile?_eq_some_iff]
  constructor
  · rintro ⟨_, hmem, names, rfl, hfile⟩
    exact ⟨names, hmem, hfile⟩
  · rintro ⟨names, hmem, hfile⟩
    exact ⟨_, hmem, names, rfl, hfile⟩

/-- A tree file is where its path tells. -/
lemma Orderly.eq_of_treeFile? (h : machine.Orderly) {item : Location × Entry}
    {file : String × String} (hitem : item ∈ machine.entries)
    (hfile : treeFile? location item = some file) : item.1 = location ++ Path.parts file.1 := by
  obtain ⟨names, rfl, hpath, htree⟩ := treeFile?_eq_some_iff.mp hfile
  rw [← hpath, Path.parts_intercalate (ne_nil_of_isTreeName (hpath ▸ htree))]
  exact fun name hname => h.isName _ hitem name (List.mem_append_right _ hname)

/-- No two tree files have the same path. -/
lemma Orderly.nodup_treeFiles (h : machine.Orderly) (location : Location) :
    ((machine.treeFiles location).map Prod.fst).Nodup := by
  have hnodup : machine.entries.Pairwise fun item other => item.1 ≠ other.1 :=
    List.pairwise_map.mp h.nodup
  refine List.pairwise_map.mpr (List.pairwise_filterMap.mpr (hnodup.imp_of_mem ?_))
  intro item other hitem hother hne file hfile file' hfile' heq
  rw [h.eq_of_treeFile? hitem hfile, h.eq_of_treeFile? hother hfile', heq] at hne
  exact hne rfl

section TreeDirectory

variable (h : machine.Orderly) (hdirectory : machine.TreeDirectory directory location)

include h hdirectory

/-- A tree file is read with the path that it is listed with. -/
lemma readText_of_mem_treeFiles {text : String}
    (hfile : (path, text) ∈ machine.treeFiles location) :
    machine.readText (Path.join directory path) = .ok text := by
  obtain ⟨names, hmem, rfl, htree⟩ := mem_treeFiles_iff.mp hfile
  obtain ⟨-, hsize⟩ := hdirectory.readable _ _ hmem htree
  have hnames : ∀ name ∈ names, IsName name := fun name hname =>
    h.isName _ hmem name (List.mem_append_right _ hname)
  have hentry := h.entry?_of_mem hmem
  rw [Path.join_intercalate (ne_nil_of_isTreeName htree) hnames, readText,
    locate_foldl_join h hdirectory.locate_eq hentry hsize]
  simp only [hentry]

/-- The search for trees finds the tree files. -/
lemma filter_filesInside :
    (machine.filesInside directory).filter isTreeName =
      (machine.treeFiles location).map Prod.fst := by
  rw [filesInside, hdirectory.locate_eq, treeFiles]
  dsimp only
  rw [List.filter_filterMap, List.map_filterMap]
  refine List.filterMap_congr fun item hmem => ?_
  obtain ⟨inner, _ | contents | _⟩ := item
  · rfl
  · by_cases hinside : location.isPrefixOf inner
    · obtain ⟨names, rfl⟩ := List.isPrefixOf_iff_prefix.mp hinside
      dsimp only
      rw [List.drop_left]
      by_cases htree : isTreeName ("/".intercalate names)
      · obtain ⟨hcontents, hsize⟩ := hdirectory.readable _ _ hmem htree
        obtain ⟨text, rfl⟩ := Option.isSome_iff_exists.mp hcontents
        have hne := ne_nil_of_isTreeName htree
        have hlast := h.isName _ hmem (names.getLast hne)
          (List.mem_append_right _ (List.getLast_mem hne))
        have hparent : (names.dropLast.foldl Path.join directory).utf8ByteSize ≤ maxPathSize := by
          rw [← List.dropLast_append_getLast hne, List.foldl_concat] at hsize
          exact Nat.le_trans (Path.size_le_size_join _ (Path.not_isAbsolute_of_isName hlast)) hsize
        simp [treeFile?, htree, hparent]
      · cases contents <;> simp [treeFile?, htree]
    · cases contents <;> simp [treeFile?, hinside]
  · rfl

end TreeDirectory

end Machine

end PhraseScript.CommandLine
