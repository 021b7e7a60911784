import Mathlib.Data.List.Dedup
import Mathlib.Data.List.Perm.Basic
import PhraseScript.Proofs.Batches
import PhraseScript.Proofs.Directories
import PhraseScript.Proofs.FileSystems

/-!
# The sources of a batch

A batch takes its sources from the tree files of a directory.  A source is named after the path of
its file, with slashes for backslashes, and of several files whose paths agree then only one
becomes a source.  So the sources are the tree files just when no two of these agree
(`sources_of_treeFiles`), as is so when no path has a backslash in it; and where backslashes are
letters of names, there are directories in which two do (`agreeing_hides_a_treeFile`).
-/

namespace PhraseScript

namespace Dictionary

variable {α : Type} {key : String} {value : α} {entries : List (String × α)}

lemma ofList_concat (entries : List (String × α)) (entry : String × α) :
    ofList (entries ++ [entry]) = (ofList entries).insert entry.1 entry.2 :=
  List.foldl_concat _ _ _ _

lemma nodup_keys (d : Dictionary α) : d.keys.Nodup :=
  List.Pairwise.imp (fun hlt => String.ne_of_lt hlt) d.keys_sorted

/-- Every value has been put in under its key. -/
lemma mem_of_get?_ofList (h : (ofList entries).get? key = some value) :
    (key, value) ∈ entries := by
  induction entries using List.reverseRecOn with
  | nil => cases h
  | append_singleton front last ih =>
    rw [ofList_concat, get?_insert] at h
    split_ifs at h with hkey
    · obtain rfl := Option.some.inj h
      simp [hkey]
    · exact List.mem_append_left _ (ih h)

lemma mem_keys_ofList : key ∈ (ofList entries).keys ↔ key ∈ entries.map Prod.fst := by
  rw [← contains_iff_mem_keys]
  induction entries using List.reverseRecOn with
  | nil => simp [ofList, empty, contains, get?, valueAt?]
  | append_singleton front last ih =>
    rw [ofList_concat, contains_insert, Bool.or_eq_true, ih]
    simp [or_comm]

/-- There are as many entries as different keys have been put in. -/
lemma length_ofList (entries : List (String × α)) :
    (ofList entries).entries.length = (entries.map Prod.fst).dedup.length := by
  have hperm : (ofList entries).keys.Perm (entries.map Prod.fst).dedup :=
    (List.perm_ext_iff_of_nodup (nodup_keys _) (List.nodup_dedup _)).mpr fun key => by
      rw [mem_keys_ofList, List.mem_dedup]
  rw [← hperm.length_eq, keys, List.length_map]

/-- A value that is put in under a key of its own stays. -/
lemma get?_ofList_of_forall_eq (hmem : (key, value) ∈ entries)
    (halone : ∀ entry ∈ entries, entry.1 = key → entry.2 = value) :
    (ofList entries).get? key = some value := by
  have hkey : key ∈ (ofList entries).keys := mem_keys_ofList.mpr (List.mem_map_of_mem hmem)
  obtain ⟨found, hfound⟩ := Option.isSome_iff_exists.mp ((contains_iff_mem_keys _ _).mpr hkey)
  have heq : found = value := halone _ (mem_of_get?_ofList hfound) rfl
  rw [hfound, heq]

/-- The entries are those that have been put in, just when no two had the same key. -/
lemma perm_ofList_iff :
    (ofList entries).entries.Perm entries ↔ (entries.map Prod.fst).Nodup := by
  constructor
  · exact fun hperm => (hperm.map Prod.fst).nodup_iff.mp (nodup_keys _)
  · intro hnodup
    refine (List.perm_ext_iff_of_nodup (.of_map _ (nodup_keys _)) (.of_map _ hnodup)).mpr ?_
    rintro ⟨key, value⟩
    rw [← get?_eq_some_iff]
    refine ⟨mem_of_get?_ofList, fun hmem => get?_ofList_of_forall_eq hmem ?_⟩
    intro entry hentry hkey
    exact congrArg Prod.snd (List.inj_on_of_nodup_map hnodup hentry hmem hkey)

end Dictionary

namespace CommandLine

/-! ### Reading sources -/

/-- The path that a path stands for, wherever the machine works. -/
def Machine.absolute (machine : Machine) (path : String) : String :=
  if Path.isAbsolute path then path
  else Path.join ("/" ++ "/".intercalate machine.workingDirectory) path

/-- The source that a file gives. -/
def sourceOf (file : String × String) : String × String := (sourceName file.1, file.2)

lemma sourceName_eq_self {path : String} (h : '\\' ∉ path.toList) : sourceName path = path := by
  have hchars : path.toList.map (fun c => if c = '\\' then '/' else c) = path.toList := by
    refine (List.map_congr_left fun c hc => ?_).trans (List.map_id _)
    have hne : c ≠ '\\' := by
      rintro rfl
      exact h hc
    exact if_neg hne
  rw [← String.toList_inj, sourceName, String.toList_map, hchars]

section Reading

variable {machine : Machine} {directory path : String} {location : Location}
  {files : List (String × String)}

lemma ran_absolute (machine : Machine) (path : String) :
    ran (absolute path) machine = (.ok (machine.absolute path), machine) := by
  rw [absolute, Machine.absolute]
  split_ifs <;> rfl

lemma ran_readSources
    (h : ∀ file ∈ files, machine.readText (Path.join directory file.1) = .ok file.2) :
    ran (readSources directory (files.map Prod.fst)) machine =
      (.ok (files.map sourceOf), machine) := by
  induction files with
  | nil => rfl
  | cons file rest ih =>
    obtain ⟨hfile, hrest⟩ := List.forall_mem_cons.mp h
    rw [List.map_cons, readSources, ran_bind_ok (ran_readText hfile _), ran_bind_ok (ih hrest)]
    rfl

/-- The sources are those that the tree files give. -/
lemma ran_readTrees (h : machine.Orderly) (hdirectory : machine.TreeDirectory directory location)
    (hfiles : machine.treeFiles location ≠ []) :
    ran (readTrees directory) machine =
      (.ok (.ofList ((machine.treeFiles location).map sourceOf)), machine) := by
  have hat : machine.at? directory = some .directory := by
    rw [Machine.at?, hdirectory.locate_eq]
    exact hdirectory.entry?_eq
  have hexists : ran (liftM (Host.pathExists directory : StateM Machine Bool)) machine =
      (.ok true, machine) := by
    rw [ran_lift]
    exact congrArg (fun found => (Except.ok found.isSome, machine)) hat
  have hisDirectory : ran (liftM (Host.isDirectory directory : StateM Machine Bool)) machine =
      (.ok true, machine) := by
    rw [ran_lift]
    exact congrArg (fun found => (Except.ok (decide (found = some .directory)), machine)) hat
  have hinside : ran (liftM (Host.filesInside directory : StateM Machine (List String))) machine =
      (.ok (machine.filesInside directory), machine) := rfl
  have hpaths : (machine.treeFiles location).map Prod.fst ≠ [] :=
    fun hnil => hfiles (List.map_eq_nil_iff.mp hnil)
  have htexts : ∀ file ∈ machine.treeFiles location,
      machine.readText (Path.join directory file.1) = .ok file.2 :=
    fun _ hfile => Machine.readText_of_mem_treeFiles h hdirectory hfile
  have hread := ran_readSources htexts
  refine (ran_bind_ok hexists).trans ?_
  refine (ran_bind_ok hisDirectory).trans ?_
  refine (ran_bind_ok hinside).trans ?_
  dsimp only
  rw [Machine.filter_filesInside h hdirectory, if_neg hpaths]
  exact ran_bind_ok hread

end Reading

/-! ### What a batch prints -/

/-- The lines of scripts, each after its source. -/
def scriptLines (scripts : List (String × Script)) : List String :=
  scripts.flatMap fun (source, script) =>
    ["SOURCE:" ++ source, "SCRIPT_JSON:" ++ script.document.compact]

/-- The lines of a batch: the directory, the script of each source, and how many sources there
are. -/
def batchLines (directory : String) (sources : List String) (scripts : List Script) :
    List String :=
  ["RESULT:OK", "TREES_DIR:" ++ directory] ++ scriptLines (sources.zip scripts) ++
    ["SOURCES:" ++ toString sources.length]

/-- Nothing is printed. -/
def Machine.Quiet (before after : Machine) : Prop := after.printed = before.printed

instance : Std.Refl Machine.Quiet := ⟨fun _ => rfl⟩

instance : IsTrans Machine Machine.Quiet := ⟨fun _ _ _ h h' => Eq.trans h' h⟩

lemma moves_saveSession_quiet (session : Session) (stateOut : Option String) :
    Moves Machine.Quiet (saveSession session stateOut) := by
  cases stateOut with
  | none => exact relates_pure ()
  | some path =>
    have hmake (machine : Machine) :
        machine.Quiet (machine.makeDirectories (Path.parent path)).1 := by
      rw [Machine.makeDirectories]
      split
      · exact rfl
      · exact (Machine.keeps_makeDirectoriesFrom _ _ _).1
    have hwrite (machine : Machine) :
        machine.Quiet (machine.writeText path session.savedText).1 := by
      rw [Machine.writeText]
      split
      · exact rfl
      · split <;> exact rfl
    exact relates_bind (relates_orFault _ hmake _) fun _ => relates_orFault _ hwrite _

section Batches

variable {machine after : Machine} {sources : Dictionary String} {treesDir : String}
  {stateOut : Option String} {sounds : List String}

lemma ran_printScripts {scripts : List (String × Script)}
    (h : ∀ item ∈ scripts, item.2.write = .ok item.2.document.compact) (machine : Machine) :
    ran (printScripts scripts) machine = (.ok (), machine.printing (scriptLines scripts)) := by
  induction scripts generalizing machine with
  | nil =>
    rw [scriptLines, List.flatMap_nil, Machine.printing_nil]
    rfl
  | cons item rest ih =>
    obtain ⟨hitem, hrest⟩ := List.forall_mem_cons.mp h
    have hscript (before : Machine) : ran (printScript item.2) before =
        (.ok (), before.printing ["SCRIPT_JSON:" ++ item.2.document.compact]) := by
      rw [printScript, hitem, ran_print]
    rw [printScripts, ran_bind_ok (ran_print _ _), ran_bind_ok (hscript _), ih hrest]
    simp [scriptLines]

/-- Every script of a chain has a text. -/
lemma write_of_chain {first : Session} {entries : List (String × String)} {outcomes : List Outcome}
    (h : (languageWith sounds).Chain first entries outcomes) :
    ∀ outcome ∈ outcomes, outcome.script.write = .ok outcome.script.document.compact := by
  intro outcome hmem
  obtain ⟨i, hi, rfl⟩ := List.getElem_of_mem hmem
  exact write_of_translateText (h.step i (h.length_eq ▸ hi) hi)

/-- What a batch prints after its outcomes are found. -/
lemma ran_printBatch (directory : String) {first : Session} {outcomes : List Outcome}
    (h : (languageWith sounds).Chain first sources.entries outcomes) (machine : Machine) :
    ran (do
      print "RESULT:OK"
      print ("TREES_DIR:" ++ directory)
      printScripts (sources.keys.zip (outcomes.map Outcome.script))
      print ("SOURCES:" ++ toString (sources.keys.zip (outcomes.map Outcome.script)).length))
        machine =
      (.ok (), machine.printing
        (batchLines directory sources.keys (outcomes.map Outcome.script))) := by
  have hscripts : ∀ item ∈ sources.keys.zip (outcomes.map Outcome.script),
      item.2.write = .ok item.2.document.compact := by
    intro item hitem
    obtain ⟨outcome, hmem, houtcome⟩ := List.mem_map.mp (List.of_mem_zip hitem).2
    rw [← houtcome]
    exact write_of_chain h outcome hmem
  have hlength : (sources.keys.zip (outcomes.map Outcome.script)).length = sources.keys.length := by
    simp [Dictionary.keys, h.length_eq]
  rw [ran_bind_ok (ran_print _ _), ran_bind_ok (ran_print _ _),
    ran_bind_ok (ran_printScripts hscripts _), ran_print, hlength]
  simp [batchLines]

/-- A batch succeeds when its sources have outcomes one after another, and the session that these
lead to can be saved. -/
lemma ran_batch_eq_ok_iff
    (hsources : ran (readTrees (machine.absolute treesDir)) machine = (.ok sources, machine)) :
    ran (batch treesDir stateOut sounds) machine = (.ok (), after) ↔
      ∃ outcomes saved, (languageWith sounds).Chain {} sources.entries outcomes ∧
        ran (saveSession (sessionAfter {} outcomes) stateOut) machine = (.ok (), saved) ∧
        after = saved.printing (batchLines (machine.absolute treesDir) sources.keys
          (outcomes.map Outcome.script)) := by
  rw [batch, ran_bind_ok (ran_absolute machine treesDir), ran_bind_ok hsources,
    Language.translateBatch]
  constructor
  · intro h
    split at h
    · cases h
    · next result hresult =>
      obtain ⟨outcomes, hchain, hscripts, hsession⟩ :=
        Language.translateInTurn_eq_ok_iff.mp hresult
      obtain ⟨_, saved, hsave, hprint⟩ := ran_bind_eq_ok.mp h
      have hlines := ran_printBatch (machine.absolute treesDir) hchain saved
      rw [hscripts] at hprint
      rw [hsession] at hsave
      exact ⟨outcomes, saved, hchain, hsave, congrArg Prod.snd (hprint.symm.trans hlines)⟩
  · rintro ⟨outcomes, saved, hchain, hsave, rfl⟩
    have hresult : (languageWith sounds).translateInTurn {} sources.entries =
        .ok ⟨sources.keys.zip (outcomes.map Outcome.script), sessionAfter {} outcomes⟩ :=
      Language.translateInTurn_eq_ok_iff.mpr ⟨outcomes, hchain, rfl, rfl⟩
    rw [hresult]
    exact (ran_bind_ok hsave).trans (ran_printBatch _ hchain saved)

/-- The sources of a batch are the tree files of its directory, unless two of them agree.

They are found whatever tree files there are, and there are as many as the tree files have
different names with slashes for backslashes.  Each source has the text of a tree file with its
name, and a tree file whose name no other one has gives its text to the source.  So the sources are
the tree files, each once and with its text, just when no two of these agree; in particular where
no path has a backslash in it.  A batch that succeeds has an outcome for each source, in the order
of their names, and prints all of their scripts and how many sources there are. -/
theorem sources_of_treeFiles (h : machine.Orderly) {directory : String} {location : Location}
    (hdirectory : machine.TreeDirectory directory location)
    (hfiles : machine.treeFiles location ≠ []) :
    ∃ sources : Dictionary String, ran (readTrees directory) machine = (.ok sources, machine) ∧
      sources.entries.length =
        ((machine.treeFiles location).map fun file => sourceName file.1).dedup.length ∧
      (∀ name text, sources.get? name = some text →
        ∃ path, (path, text) ∈ machine.treeFiles location ∧ sourceName path = name) ∧
      (∀ file ∈ machine.treeFiles location,
        (∀ other ∈ machine.treeFiles location,
          sourceName other.1 = sourceName file.1 → other = file) →
        sources.get? (sourceName file.1) = some file.2) ∧
      (sources.entries.Perm ((machine.treeFiles location).map sourceOf) ↔
        ((machine.treeFiles location).map fun file => sourceName file.1).Nodup) ∧
      ((∀ file ∈ machine.treeFiles location, '\\' ∉ file.1.toList) →
        sources.entries.Perm (machine.treeFiles location)) ∧
      ∀ arguments treesDir stateOut sounds after,
        Command.read? arguments = some (.batch treesDir stateOut sounds) →
        machine.absolute treesDir = directory →
        (run arguments : StateM Machine ExitCode).run machine = (.success, after) →
        ∃ outcomes, (languageWith sounds).Chain {} sources.entries outcomes ∧
          after.printed = machine.printed ++
            batchLines directory sources.keys (outcomes.map Outcome.script) := by
  have hnames : ((machine.treeFiles location).map sourceOf).map Prod.fst =
      (machine.treeFiles location).map fun file => sourceName file.1 := List.map_map ..
  refine ⟨.ofList ((machine.treeFiles location).map sourceOf), ran_readTrees h hdirectory hfiles,
    by rw [Dictionary.length_ofList, hnames], fun name text hsource => ?_,
    fun file hfile halone => ?_, by rw [Dictionary.perm_ofList_iff, hnames], fun hslashes => ?_,
    fun arguments treesDir stateOut sounds after harguments htreesDir hrun => ?_⟩
  · obtain ⟨file, hfile, heq⟩ := List.mem_map.mp (Dictionary.mem_of_get?_ofList hsource)
    obtain ⟨rfl, rfl⟩ := Prod.mk.inj heq
    exact ⟨file.1, hfile, rfl⟩
  · refine Dictionary.get?_ofList_of_forall_eq (List.mem_map.mpr ⟨file, hfile, rfl⟩) ?_
    intro entry hentry hname
    obtain ⟨other, hother, rfl⟩ := List.mem_map.mp hentry
    rw [← halone other hother hname]
    rfl
  · have hself : (machine.treeFiles location).map sourceOf = machine.treeFiles location := by
      refine (List.map_congr_left fun file hfile => ?_).trans (List.map_id _)
      exact Prod.ext (sourceName_eq_self (hslashes file hfile)) rfl
    rw [hself]
    exact Dictionary.perm_ofList_iff.mpr (h.nodup_treeFiles location)
  · subst htreesDir
    have hbatch : ran (batch treesDir stateOut sounds) machine = (.ok (), after) :=
      (run_eq_success_iff harguments).mp hrun
    obtain ⟨outcomes, saved, hchain, hsave, rfl⟩ :=
      (ran_batch_eq_ok_iff (ran_readTrees h hdirectory hfiles)).mp hbatch
    have hquiet : saved.printed = machine.printed := by
      have hmoves := moves_saveSession_quiet (sessionAfter {} outcomes) stateOut machine
      rwa [hsave] at hmoves
    exact ⟨outcomes, hchain, by rw [Machine.printing, hquiet]⟩

end Batches

/-- The texts of "make x" and "set x to x" are the sources of the directory that they are in, and a
batch prints both of their scripts. -/
theorem sources_of_treeFiles_making_and_setting :
    ∃ (sources : Dictionary String) (after : Machine) (outcomes : List Outcome),
      ran (readTrees "/") (treesWith 0) = (.ok sources, treesWith 0) ∧
      sources.entries.Perm [("make.tree", Bracketed.treeText .making),
        ("set.tree", Bracketed.treeText (.setting 0))] ∧
      (run ["batch", "--trees-dir", "/"] : StateM Machine ExitCode).run (treesWith 0) =
        (.success, after) ∧
      (languageWith []).Chain {} sources.entries outcomes ∧
      after.printed = batchLines "/" sources.keys (outcomes.map Outcome.script) := by
  have horderly : (treesWith 0).Orderly := by decide +kernel
  have hmake : isTreeName "make.tree" = true := by decide +kernel
  have hset : isTreeName "set.tree" = true := by decide +kernel
  have hfiles : (treesWith 0).treeFiles [] = [("make.tree", Bracketed.treeText .making),
      ("set.tree", Bracketed.treeText (.setting 0))] := by
    simp [Machine.treeFiles, treesWith, Machine.treeFile?, hmake, hset]
  have hdirectory : (treesWith 0).TreeDirectory "/" [] := by
    refine ⟨rfl, rfl, fun names contents hmem htree => ?_⟩
    have hnames : (names = ["make.tree"] ∧ contents = some (Bracketed.treeText .making)) ∨
        (names = ["set.tree"] ∧ contents = some (Bracketed.treeText (.setting 0))) := by
      simpa [treesWith] using hmem
    rcases hnames with ⟨rfl, rfl⟩ | ⟨rfl, rfl⟩
    · exact ⟨rfl, by decide +kernel⟩
    · exact ⟨rfl, by decide +kernel⟩
  obtain ⟨sources, hread, -, -, -, -, hsources, hbatch⟩ :=
    sources_of_treeFiles horderly hdirectory (by rw [hfiles]; exact List.cons_ne_nil _ _)
  have hperm := hsources (by rw [hfiles]; decide +kernel)
  rw [hfiles] at hperm
  have hentries : sources.entries = [("make.tree", Bracketed.treeText .making),
      ("set.tree", Bracketed.treeText (.setting 0))] := by
    refine hperm.eq_of_pairwise (fun file other _ _ hlt hgt => ?_) sources.sorted
      (List.pairwise_pair.mpr (by decide +kernel))
    exact absurd hgt (String.lt_asymm hlt)
  obtain ⟨outcomes, hchain⟩ : ∃ outcomes, (languageWith []).Chain {} sources.entries outcomes := by
    rw [hentries]
    exact ⟨_, Language.chain_cons_iff.mpr ⟨_, _, Language.translateText_making,
      Language.chain_cons_iff.mpr ⟨_, _, Language.translateText_setting 0, Language.chain_nil,
        rfl⟩, rfl⟩⟩
  have harguments : Command.read? ["batch", "--trees-dir", "/"] = some (.batch "/" none []) := by
    decide
  have habsolute : (treesWith 0).absolute "/" = "/" := rfl
  have hbatch' : ran (batch "/" none []) (treesWith 0) = (.ok (), (treesWith 0).printing
      (batchLines ((treesWith 0).absolute "/") sources.keys (outcomes.map Outcome.script))) :=
    (ran_batch_eq_ok_iff (by rw [habsolute, hread])).mpr
      ⟨outcomes, treesWith 0, hchain, rfl, rfl⟩
  have hrun := (run_eq_success_iff harguments).mpr hbatch'
  obtain ⟨found, hfound, hprinted⟩ := hbatch _ "/" none [] _ harguments habsolute hrun
  exact ⟨sources, _, found, hread, hperm, hrun, hfound, hprinted⟩

/-- A machine with the file `b.tree` in the directory `a` of `t`, and another file in `t` in whose
name there is a backslash instead of the slash between these names. -/
def agreeing : Machine where
  entries := [
    (["t"], .directory),
    (["t", "a"], .directory),
    (["t", "a", "b.tree"], .file (some "(Start (S (AL (AP (SoundCommand (Stop stop))))))")),
    (["t", "a\\b.tree"],
      .file (some "(Start (S (AL (AP (SoundCommand (Stop terminate))))))"))]

/-- Of two tree files that agree, one is no source. -/
theorem agreeing_hides_a_treeFile :
    agreeing.Orderly ∧ agreeing.TreeDirectory "/t" ["t"] ∧
      agreeing.treeFiles ["t"] =
        [("a/b.tree", "(Start (S (AL (AP (SoundCommand (Stop stop))))))"),
          ("a\\b.tree", "(Start (S (AL (AP (SoundCommand (Stop terminate))))))")] ∧
      ∃ sources : Dictionary String,
        ran (readTrees "/t") agreeing = (.ok sources, agreeing) ∧
        sources.entries =
          [("a/b.tree", "(Start (S (AL (AP (SoundCommand (Stop terminate))))))")] := by
  have horderly : agreeing.Orderly := by decide +kernel
  have hdirectory : agreeing.TreeDirectory "/t" ["t"] := by
    refine ⟨rfl, rfl, fun names contents hmem htree => ?_⟩
    have hnames :
        (names = ["a", "b.tree"] ∧
          contents = some "(Start (S (AL (AP (SoundCommand (Stop stop))))))") ∨
        (names = ["a\\b.tree"] ∧
          contents = some "(Start (S (AL (AP (SoundCommand (Stop terminate))))))") := by
      simpa [agreeing] using hmem
    rcases hnames with ⟨rfl, rfl⟩ | ⟨rfl, rfl⟩
    · exact ⟨rfl, by decide +kernel⟩
    · exact ⟨rfl, by decide +kernel⟩
  have hfiles : agreeing.treeFiles ["t"] =
      [("a/b.tree", "(Start (S (AL (AP (SoundCommand (Stop stop))))))"),
        ("a\\b.tree", "(Start (S (AL (AP (SoundCommand (Stop terminate))))))")] := by
    decide +kernel
  have hread := ran_readTrees horderly hdirectory (by rw [hfiles]; exact List.cons_ne_nil _ _)
  refine ⟨horderly, hdirectory, hfiles, _, hread, ?_⟩
  rw [hfiles]
  decide +kernel

end CommandLine

end PhraseScript
