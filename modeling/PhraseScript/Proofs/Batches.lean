import PhraseScript.Batch
import PhraseScript.Proofs.Bytes
import PhraseScript.Proofs.Runs

/-!
# Batches are chains

A batch carries a session through its sources.  Here is what that comes to: the outcomes of the
sources form a *chain* (`Language.Chain`), in which each is found in the session that those before
it leave, and a batch that stops does so at the first source that has no outcome.

The order is that of the names.  They are compared by their characters; `utf8Bytes_lt` shows that
this is the order of their bytes.
-/

namespace PhraseScript

namespace Dictionary

variable {α : Type} {name : String} {value : α} {earlier later : List (String × α)}

/-- The entries whose keys come before a key. -/
def below (d : Dictionary α) (name : String) : List (String × α) :=
  d.entries.filter fun entry => entry.1 < name

lemma valueAt?_below (d : Dictionary α) (name key : String) :
    valueAt? key (d.below name) = if key < name then d.get? key else none := by
  rw [below, get?]
  induction d.entries with
  | nil => simp [valueAt?]
  | cons head rest ih =>
    obtain ⟨other, old⟩ := head
    by_cases hother : other < name
    · rw [List.filter_cons_of_pos (by simpa using hother), valueAt?, valueAt?, ih]
      by_cases hkey : key = other
      · simp [hkey, hother]
      · simp [hkey]
    · rw [List.filter_cons_of_neg (by simpa using hother), valueAt?, ih]
      by_cases hkey : key = other
      · simp [hkey, hother]
      · simp [hkey]

/-- What comes before a key is determined by what is under the keys before it. -/
lemma below_congr {d e : Dictionary α} (h : ∀ key, key < name → d.get? key = e.get? key) :
    d.below name = e.below name := by
  refine SortedKeys.ext (d.sorted.filter _) (e.sorted.filter _) fun key => ?_
  show valueAt? key (d.below name) = valueAt? key (e.below name)
  rw [valueAt?_below, valueAt?_below]
  by_cases hkey : key < name
  · rw [if_pos hkey, if_pos hkey, h key hkey]
  · rw [if_neg hkey, if_neg hkey]

/-- What is under a key is an entry, and each entry is under its key. -/
lemma get?_eq_some_iff (d : Dictionary α) :
    d.get? name = some value ↔ (name, value) ∈ d.entries := by
  obtain ⟨entries, sorted⟩ := d
  show valueAt? name entries = some value ↔ (name, value) ∈ entries
  induction entries with
  | nil => simp [valueAt?]
  | cons head rest ih =>
    obtain ⟨other, old⟩ := head
    obtain ⟨hhead, hrest⟩ := List.pairwise_cons.mp sorted
    by_cases hname : name = other
    · have hnot : (name, value) ∉ rest := fun hmem =>
        String.lt_irrefl other (hname ▸ hhead _ hmem)
      simp [valueAt?, hname, hname ▸ hnot, eq_comm]
    · rw [valueAt?, if_neg hname, ih hrest]
      simp [hname]

/-- The entries before one of them are those below its key. -/
lemma below_eq_of_entries_eq {d : Dictionary α}
    (h : d.entries = earlier ++ (name, value) :: later) : d.below name = earlier := by
  have hsorted : SortedKeys (earlier ++ (name, value) :: later) := h ▸ d.sorted
  obtain ⟨-, hlater, hearlier⟩ := List.pairwise_append.mp hsorted
  have hbefore : ∀ entry ∈ earlier, entry.1 < name := fun entry hentry =>
    hearlier entry hentry _ (List.mem_cons_self ..)
  have hafter : ∀ entry ∈ (name, value) :: later, ¬entry.1 < name := by
    intro entry hentry
    rcases List.mem_cons.mp hentry with rfl | hentry
    · exact String.lt_irrefl _
    · exact String.lt_asymm ((List.pairwise_cons.mp hlater).1 entry hentry)
  rw [below, h, List.filter_append, List.filter_eq_self.mpr (by simpa using hbefore),
    List.filter_eq_nil_iff.mpr (by simpa using hafter), List.append_nil]

/-- The entries around what is under a key. -/
lemma exists_entries_eq_iff {d : Dictionary α} :
    (∃ later, d.entries = earlier ++ (name, value) :: later) ↔
      d.get? name = some value ∧ d.below name = earlier := by
  constructor
  · rintro ⟨later, h⟩
    exact ⟨d.get?_eq_some_iff.mpr (by simp [h]), below_eq_of_entries_eq h⟩
  · rintro ⟨hvalue, rfl⟩
    obtain ⟨earlier, later, h⟩ := List.append_of_mem (d.get?_eq_some_iff.mp hvalue)
    exact ⟨later, by rw [below_eq_of_entries_eq h, h]⟩

end Dictionary

/-! ### Chains -/

/-- The session that outcomes lead to, one after another: that of the last of them. -/
def sessionAfter (first : Session) (outcomes : List Outcome) : Session :=
  (outcomes.getLast?.map Outcome.session).getD first

@[simp] lemma sessionAfter_nil (first : Session) : sessionAfter first [] = first := rfl

@[simp] lemma sessionAfter_cons (first : Session) (outcome : Outcome) (outcomes : List Outcome) :
    sessionAfter first (outcome :: outcomes) = sessionAfter outcome.session outcomes := by
  cases outcomes with
  | nil => rfl
  | cons other rest =>
    rw [sessionAfter, sessionAfter, List.getLast?_cons_cons, List.getLast?_cons]
    rfl

namespace Language

variable {language : Language} {first : Session} {source : String × String}
  {sources earlier later : List (String × String)} {outcomes others : List Outcome}
  {outcome : Outcome} {batch : Batch} {name text : String} {failure : Failure}

/-- The sources have these outcomes: each has its own in the session that the outcomes before it
lead to. -/
structure Chain (language : Language) (first : Session) (sources : List (String × String))
    (outcomes : List Outcome) : Prop where
  length_eq : outcomes.length = sources.length
  step : ∀ i (hsource : i < sources.length) (houtcome : i < outcomes.length),
    language.translateText sources[i].2 (sessionAfter first (outcomes.take i)) =
      .ok outcomes[i]

lemma chain_nil : language.Chain first [] [] where
  length_eq := rfl
  step i hsource := absurd hsource (Nat.not_lt_zero i)

lemma chain_cons_iff :
    language.Chain first (source :: sources) outcomes ↔
      ∃ outcome others, language.translateText source.2 first = .ok outcome ∧
        language.Chain outcome.session sources others ∧ outcomes = outcome :: others := by
  constructor
  · rintro ⟨hlength, hstep⟩
    cases outcomes with
    | nil => cases hlength
    | cons outcome others =>
      refine ⟨outcome, others, hstep 0 (by simp) (by simp), ⟨Nat.succ.inj hlength, ?_⟩, rfl⟩
      intro i hsource houtcome
      have hnext := hstep (i + 1) (by simpa using hsource) (by simpa using houtcome)
      rwa [List.take_succ_cons, sessionAfter_cons] at hnext
  · rintro ⟨outcome, others, hfirst, ⟨hlength, hstep⟩, rfl⟩
    refine ⟨congrArg Nat.succ hlength, fun i hsource houtcome => ?_⟩
    cases i with
    | zero => exact hfirst
    | succ i =>
      rw [List.take_succ_cons, sessionAfter_cons]
      exact hstep i (by simpa using hsource) (by simpa using houtcome)

/-! ### Sources in turn -/

/-- A batch that succeeds gives the scripts of a chain, and the session that it leads to. -/
lemma translateInTurn_eq_ok_iff :
    language.translateInTurn first sources = .ok batch ↔
      ∃ outcomes, language.Chain first sources outcomes ∧
        batch.scripts = (sources.map Prod.fst).zip (outcomes.map Outcome.script) ∧
        batch.session = sessionAfter first outcomes := by
  induction sources generalizing first batch with
  | nil =>
    constructor
    · intro h
      obtain rfl := Except.ok.inj h
      exact ⟨[], chain_nil, rfl, rfl⟩
    · rintro ⟨outcomes, hchain, hscripts, hsession⟩
      obtain rfl := List.length_eq_zero_iff.mp hchain.length_eq
      obtain ⟨scripts, session⟩ := batch
      obtain rfl : scripts = [] := hscripts
      obtain rfl : session = first := hsession
      rfl
  | cons source rest ih =>
    obtain ⟨name, text⟩ := source
    simp only [chain_cons_iff, translateInTurn]
    constructor
    · intro h
      split at h
      · cases h
      · next outcome houtcome =>
        obtain ⟨others, hothers, hbatch⟩ := bind_eq_ok_iff.mp h
        obtain rfl := Except.ok.inj hbatch
        obtain ⟨outcomes, hchain, hscripts, hsession⟩ := ih.mp hothers
        refine ⟨_, ⟨outcome, outcomes, houtcome, hchain, rfl⟩, ?_, ?_⟩
        · simp [hscripts]
        · rw [sessionAfter_cons]
          exact hsession
    · rintro ⟨_, ⟨outcome, others, houtcome, hchain, rfl⟩, hscripts, hsession⟩
      rw [sessionAfter_cons] at hsession
      have hrest : language.translateInTurn outcome.session rest = .ok ⟨_, batch.session⟩ :=
        ih.mpr ⟨others, hchain, rfl, hsession⟩
      rw [houtcome]
      refine bind_eq_ok_iff.mpr ⟨_, hrest, ?_⟩
      obtain ⟨scripts, session⟩ := batch
      obtain rfl : scripts = _ := hscripts
      rfl

/-- A batch that stops does so at the first source that has no outcome in the session that those
before it lead to. -/
lemma translateInTurn_eq_error_iff :
    language.translateInTurn first sources = .error ⟨name, failure⟩ ↔
      ∃ earlier text later outcomes, sources = earlier ++ (name, text) :: later ∧
        language.Chain first earlier outcomes ∧
        language.translateText text (sessionAfter first outcomes) = .error failure := by
  induction sources generalizing first with
  | nil => simp [translateInTurn]
  | cons source rest ih =>
    obtain ⟨head, headText⟩ := source
    simp only [translateInTurn]
    constructor
    · intro h
      split at h
      · next hfailure =>
        cases h
        exact ⟨[], headText, rest, [], rfl, chain_nil, hfailure⟩
      · next outcome houtcome =>
        cases hrest : language.translateInTurn outcome.session rest with
        | ok others => rw [hrest] at h; cases h
        | error stop =>
          rw [hrest] at h
          obtain rfl : stop = ⟨name, failure⟩ := Except.error.inj h
          obtain ⟨earlier, text, later, outcomes, rfl, hchain, hfailure⟩ := ih.mp hrest
          refine ⟨(head, headText) :: earlier, text, later, outcome :: outcomes, rfl, ?_, ?_⟩
          · exact chain_cons_iff.mpr ⟨outcome, outcomes, houtcome, hchain, rfl⟩
          · rwa [sessionAfter_cons]
    · rintro ⟨earlier, text, later, outcomes, hsources, hchain, hfailure⟩
      cases earlier with
      | nil =>
        obtain ⟨hhead, rfl⟩ := List.cons.inj hsources
        obtain ⟨rfl, rfl⟩ := Prod.mk.inj hhead
        obtain rfl := List.length_eq_zero_iff.mp hchain.length_eq
        rw [sessionAfter_nil] at hfailure
        rw [hfailure]
      | cons source earlier =>
        obtain ⟨rfl, rfl⟩ := List.cons.inj hsources
        obtain ⟨outcome, others, houtcome, hothers, rfl⟩ := chain_cons_iff.mp hchain
        rw [sessionAfter_cons] at hfailure
        have hrest := ih.mpr ⟨earlier, text, later, others, rfl, hothers, hfailure⟩
        simp only [houtcome, hrest]
        rfl

/-- In a chain, each source has the script that it has after those before it. -/
lemma Chain.mem_scripts_iff (h : language.Chain first sources outcomes) {script : Script} :
    (name, script) ∈ (sources.map Prod.fst).zip (outcomes.map Outcome.script) ↔
      ∃ earlier text later before outcome, sources = earlier ++ (name, text) :: later ∧
        language.Chain first earlier before ∧
        language.translateText text (sessionAfter first before) = .ok outcome ∧
        script = outcome.script := by
  induction sources generalizing first outcomes with
  | nil => simp
  | cons source rest ih =>
    obtain ⟨outcome, others, houtcome, hothers, rfl⟩ := chain_cons_iff.mp h
    rw [List.map_cons, List.map_cons, List.zip_cons_cons, List.mem_cons, ih hothers]
    constructor
    · rintro (hhead | ⟨earlier, text, later, before, last, rfl, hbefore, hlast, rfl⟩)
      · obtain ⟨rfl, rfl⟩ := Prod.mk.inj hhead
        exact ⟨[], source.2, rest, [], outcome, rfl, chain_nil, houtcome, rfl⟩
      · refine ⟨source :: earlier, text, later, outcome :: before, last, rfl, ?_, ?_, rfl⟩
        · exact chain_cons_iff.mpr ⟨outcome, before, houtcome, hbefore, rfl⟩
        · rwa [sessionAfter_cons]
    · rintro ⟨earlier, text, later, before, last, hsources, hbefore, hlast, rfl⟩
      cases earlier with
      | nil =>
        obtain ⟨rfl, rfl⟩ := List.cons.inj hsources
        obtain rfl := List.length_eq_zero_iff.mp hbefore.length_eq
        obtain rfl := Except.ok.inj (houtcome.symm.trans hlast)
        exact .inl rfl
      | cons first' earlier =>
        obtain ⟨rfl, rfl⟩ := List.cons.inj hsources
        obtain ⟨outcome', before', houtcome', hbefore', rfl⟩ := chain_cons_iff.mp hbefore
        obtain rfl := Except.ok.inj (houtcome.symm.trans houtcome')
        rw [sessionAfter_cons] at hlast
        exact .inr ⟨earlier, text, later, before', last, rfl, hbefore', hlast, rfl⟩

/-- The script of an outcome shows the environment of its session. -/
lemma environment_of_translateText {session : Session}
    (h : language.translateText text session = .ok outcome) :
    outcome.script.environment = outcome.session.environment := by
  rw [translateText] at h
  split at h
  · cases h
  · obtain ⟨-, -, -, henvironment⟩ := translate_eq_ok_iff.mp h
    exact henvironment

/-! ### Batches -/

variable {d : Dictionary String}

/-- A batch fails at a source that has no outcome, after all those with smaller names had theirs.
-/
lemma translateBatch_eq_error_iff :
    language.translateBatch d first = .error ⟨name, failure⟩ ↔
      ∃ text outcomes, d.get? name = some text ∧ language.Chain first (d.below name) outcomes ∧
        language.translateText text (sessionAfter first outcomes) = .error failure := by
  rw [translateBatch, translateInTurn_eq_error_iff]
  constructor
  · rintro ⟨earlier, text, later, outcomes, hentries, hchain, hfailure⟩
    obtain ⟨htext, rfl⟩ := Dictionary.exists_entries_eq_iff.mp ⟨later, hentries⟩
    exact ⟨text, outcomes, htext, hchain, hfailure⟩
  · rintro ⟨text, outcomes, htext, hchain, hfailure⟩
    obtain ⟨later, hentries⟩ := Dictionary.exists_entries_eq_iff.mpr ⟨htext, rfl⟩
    exact ⟨_, text, later, outcomes, hentries, hchain, hfailure⟩

/-- In a batch that succeeds, each source has the script that it has after those with smaller
names. -/
lemma mem_scripts_iff (h : language.translateBatch d first = .ok batch) {script : Script} :
    (name, script) ∈ batch.scripts ↔
      ∃ text outcomes outcome, d.get? name = some text ∧
        language.Chain first (d.below name) outcomes ∧
        language.translateText text (sessionAfter first outcomes) = .ok outcome ∧
        script = outcome.script := by
  obtain ⟨outcomes, hchain, hscripts, -⟩ := translateInTurn_eq_ok_iff.mp h
  rw [hscripts, hchain.mem_scripts_iff]
  constructor
  · rintro ⟨earlier, text, later, before, outcome, hentries, hbefore, houtcome, rfl⟩
    obtain ⟨htext, rfl⟩ := Dictionary.exists_entries_eq_iff.mp ⟨later, hentries⟩
    exact ⟨text, before, outcome, htext, hbefore, houtcome, rfl⟩
  · rintro ⟨text, before, outcome, htext, hbefore, houtcome, rfl⟩
    obtain ⟨later, hentries⟩ := Dictionary.exists_entries_eq_iff.mpr ⟨htext, rfl⟩
    exact ⟨_, text, later, before, outcome, hentries, hbefore, houtcome, rfl⟩

lemma scripts_names (h : language.translateBatch d first = .ok batch) :
    batch.scripts.map Prod.fst = d.keys := by
  obtain ⟨outcomes, hchain, hscripts, -⟩ := translateInTurn_eq_ok_iff.mp h
  rw [hscripts, List.map_fst_zip (by simp [hchain.length_eq])]
  rfl

/-- A batch is the chain of its sources in the order of the bytes of their names.

It succeeds just when there is a chain, with its scripts and the session that it leads to; the
names of the scripts are those of the sources, and each script is the one that its source has
after the sources with smaller names, and shows the environment after it.  It fails at a source
just when those with smaller names form a chain and this one has no outcome after them.  Sources
with larger names have no part in a failure, or in the script of a source. -/
theorem translateBatch_iff_chain (language : Language) (sources : Dictionary String)
    (start : Option Session) :
    (sources.keys.Pairwise fun name later => utf8Bytes name < utf8Bytes later) ∧
    (∀ batch, language.translateBatch sources (start.getD {}) = .ok batch ↔
      ∃ outcomes, language.Chain (start.getD {}) sources.entries outcomes ∧
        batch.scripts = sources.keys.zip (outcomes.map Outcome.script) ∧
        batch.session = sessionAfter (start.getD {}) outcomes) ∧
    (∀ batch, language.translateBatch sources (start.getD {}) = .ok batch →
      batch.scripts.map Prod.fst = sources.keys ∧
      ∀ name script, (name, script) ∈ batch.scripts →
        ∃ text outcomes outcome, sources.get? name = some text ∧
          language.Chain (start.getD {}) (sources.below name) outcomes ∧
          language.translateText text (sessionAfter (start.getD {}) outcomes) = .ok outcome ∧
          script = outcome.script ∧ script.environment = outcome.session.environment) ∧
    (∀ name failure, language.translateBatch sources (start.getD {}) = .error ⟨name, failure⟩ ↔
      ∃ text outcomes, sources.get? name = some text ∧
        language.Chain (start.getD {}) (sources.below name) outcomes ∧
        language.translateText text (sessionAfter (start.getD {}) outcomes) = .error failure) ∧
    ∀ (others : Dictionary String) (name : String),
      (∀ key, ¬name < key → others.get? key = sources.get? key) →
      (∀ failure, language.translateBatch others (start.getD {}) = .error ⟨name, failure⟩ ↔
        language.translateBatch sources (start.getD {}) = .error ⟨name, failure⟩) ∧
      ∀ batch batch', language.translateBatch sources (start.getD {}) = .ok batch →
        language.translateBatch others (start.getD {}) = .ok batch' →
        ∀ script, (name, script) ∈ batch'.scripts ↔ (name, script) ∈ batch.scripts := by
  refine ⟨?_, fun batch => translateInTurn_eq_ok_iff, fun batch h => ⟨scripts_names h, ?_⟩,
    fun name failure => translateBatch_eq_error_iff, fun others name hothers => ?_⟩
  · exact sources.keys_sorted.imp utf8Bytes_lt
  · intro name script hscript
    obtain ⟨text, outcomes, outcome, htext, hchain, houtcome, rfl⟩ :=
      (mem_scripts_iff h).mp hscript
    exact ⟨text, outcomes, outcome, htext, hchain, houtcome, rfl,
      environment_of_translateText houtcome⟩
  · have hname : others.get? name = sources.get? name := hothers name (String.lt_irrefl _)
    have hbelow : others.below name = sources.below name :=
      Dictionary.below_congr fun key hkey => hothers key (String.lt_asymm hkey)
    refine ⟨fun failure => ?_, fun batch batch' hbatch hbatch' script => ?_⟩
    · rw [translateBatch_eq_error_iff, translateBatch_eq_error_iff, hname, hbelow]
    · rw [mem_scripts_iff hbatch, mem_scripts_iff hbatch', hname, hbelow]

end Language

end PhraseScript
