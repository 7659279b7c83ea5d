import ContractDocs.Proofs.JsonRecords
import ContractDocs.Proofs.LoadFailure
import Mathlib.Data.List.Forall2
import Mathlib.Data.List.ReduceOption

/-! What loading a directory gives. Each artifact there is refused, or gives a contract, or gives
nothing because it has no syntax tree. The first one that is refused decides; if there is none, all
contracts that are given are returned, sorted by their names. -/

namespace ContractDocs

/-- The text is an artifact whose syntax tree is left out or `null`. -/
def Artifact.Treeless (text : String) : Prop :=
  ∃ v field, Json.parseAs RecordKind.layout (.record .artifact) text = .ok v ∧
    Json.values? (RecordKind.layout .artifact) v = some field ∧ field "ast" = none

theorem Artifact.parse_eq_ok {text : String} {a : Artifact} (h : parse text = .ok a) :
    ∃ v, Json.parseAs RecordKind.layout (.record .artifact) text = .ok v ∧ ofJson? v = some a := by
  unfold parse at h
  cases hparse : Json.parseAs RecordKind.layout (.record .artifact) text with
  | error fault => rw [hparse] at h; cases h
  | ok v =>
    rw [hparse] at h
    cases hv : ofJson? v with
    | none => simp [bind, Except.bind, hv, throw, throwThe, MonadExceptOf.throw] at h
    | some b =>
      have hb : b = a := by simpa [bind, Except.bind, hv, pure, Except.pure] using h
      exact ⟨v, rfl, hb ▸ hv⟩

theorem Artifact.ast_eq_none_iff {text : String} {a : Artifact} (h : parse text = .ok a) :
    a.ast = none ↔ Treeless text := by
  obtain ⟨v, hv, ha⟩ := parse_eq_ok h
  unfold ofJson? at ha
  simp only [bind, Option.bind_eq_some_iff, pure, Option.some.injEq] at ha
  obtain ⟨field, hfield, name, -, ast, hast, rfl⟩ := ha
  rw [Json.optional?_eq Node.ofJson? fun _ => rfl] at hast
  have hvalues : Json.values? (RecordKind.layout .artifact) v =
      some fun name => Json.nonNull ((field name).map (·.val)) := by
    have hopen : Json.open? (RecordKind.layout .artifact) v = some field := hfield
    rw [Json.values?, hopen]
    rfl
  have hsame : ast = none ↔ Json.nonNull ((field "ast").map (·.val)) = none := by
    cases hvalue : Json.nonNull ((field "ast").map (·.val)) with
    | none =>
      rw [hvalue] at hast
      have hnone : none = ast := Option.some.inj hast
      simp [← hnone]
    | some w =>
      rw [hvalue] at hast
      obtain ⟨n, -, rfl⟩ := Option.map_eq_some_iff.mp hast
      simp
  rw [hsame]
  constructor
  · exact fun hnone => ⟨v, _, hv, hvalues, hnone⟩
  · rintro ⟨w, other, hw, hother, hnone⟩
    obtain rfl : v = w := Except.ok.inj (hv.symm.trans hw)
    obtain rfl := Option.some.inj (hvalues.symm.trans hother)
    exact hnone

namespace FileTree

variable {t : FileTree} {dir path : Path}

/-- A file directly inside a directory, or a link there that leads to a file. -/
def IsFileIn (t : FileTree) (dir path : Path) : Prop :=
  ∃ l name e, t.find dir = .ok (l, .directory) ∧ (name, e) ∈ t.childrenOf l ∧
    path = dir.join ⟨name⟩ ∧
    ((∃ bytes, e = .file bytes) ∨
      (∃ dest, e = .link dest) ∧ ∃ place bytes, t.find path = .ok (place, .file bytes))

/-- What an artifact gives: a contract, or nothing if it has no syntax tree. -/
inductive Gives (t : FileTree) (path : Path) : Option Contract → Prop where
  | contract {text : String} {a : Artifact} {ast : Node} : t.readText path = .ok text →
      Artifact.parse text = .ok a → a.ast = some ast →
      Gives t path (some { contractName := a.nameAt path, ast, abi := a.abi })
  | nothing {text : String} {a : Artifact} : t.readText path = .ok text →
      Artifact.parse text = .ok a → Artifact.Treeless text → Gives t path none

/-- Why an artifact is refused: its file cannot be read as text, or the text is no artifact. -/
inductive Refuses (t : FileTree) (path : Path) : Failure → Prop where
  | unreadable {cause : FileError} : t.readText path = .error cause →
      Refuses t path (.file path cause)
  | malformed {text : String} {fault : Json.Fault} : t.readText path = .ok text →
      Artifact.parse text = .error fault → Refuses t path (.artifact path fault)

theorem scanEntry_eq_file_iff {l : Location} {name : String} {e : Entry} :
    t.scanEntry dir l name e = .file path ↔ path = dir.join ⟨name⟩ ∧
      ((∃ bytes, e = .file bytes) ∨
        (∃ dest, e = .link dest) ∧ ∃ place bytes, t.find path = .ok (place, .file bytes)) := by
  unfold scanEntry
  cases e with
  | file bytes => simp [eq_comm]
  | directory => simp
  | link dest =>
    simp only [reduceCtorEq, exists_false, false_or, Entry.link.injEq, exists_eq', true_and]
    constructor
    · intro h
      split at h
      · split at h <;> cases h
      · rename_i place bytes hfind
        cases h
        exact ⟨rfl, place, bytes, hfind⟩
      · cases h
      · cases h
    · rintro ⟨rfl, place, bytes, hfind⟩
      rw [hfind]

theorem mem_artifactPaths_iff_file {entries : List Scanned} :
    path ∈ artifactPaths entries ↔ .file path ∈ entries ∧ path.extension? = some "json" := by
  unfold artifactPaths
  rw [List.mem_filterMap]
  constructor
  · rintro ⟨entry, hentry, hpath⟩
    cases entry with
    | file other =>
      obtain ⟨hjson, hsame⟩ := Option.ite_none_right_eq_some.mp hpath
      obtain rfl := Option.some.inj hsame
      exact ⟨hentry, beq_iff_eq.mp hjson⟩
    | other => cases hpath
    | unreadable => cases hpath
  · rintro ⟨hentry, hjson⟩
    refine ⟨.file path, hentry, ?_⟩
    simp [isArtifactPath, hjson]

theorem mem_artifactPaths_scan_iff :
    path ∈ artifactPaths (t.scan dir) ↔
      t.IsFileIn dir path ∧ path.extension? = some "json" := by
  rw [mem_artifactPaths_iff_file]
  refine and_congr_left' ?_
  unfold scan IsFileIn
  rcases t.find dir with e | ⟨l, bytes | dest | -⟩
  · simp
  · simp
  · simp
  · simp only [List.mem_map, scanEntry_eq_file_iff]
    constructor
    · rintro ⟨⟨name, e⟩, hmem, hfile⟩
      exact ⟨l, name, e, rfl, hmem, hfile⟩
    · rintro ⟨k, name, e, hk, hmem, hfile⟩
      obtain rfl : l = k := by simpa using hk
      exact ⟨⟨name, e⟩, hmem, hfile⟩

theorem artifactAt_of_gives {c : Option Contract} (h : t.Gives path c) :
    t.artifactAt path = .ok c := by
  cases h with
  | contract hread hparse hast =>
    rw [artifactAt, hread]
    change Contract.ofArtifact _ _ = _
    rw [Contract.ofArtifact, hparse]
    simp [Artifact.contractAt?, hast]
  | nothing hread hparse hnone =>
    rw [artifactAt, hread]
    change Contract.ofArtifact _ _ = _
    rw [Contract.ofArtifact, hparse]
    simp [Artifact.contractAt?, (Artifact.ast_eq_none_iff hparse).mpr hnone]

theorem artifactAt_of_refuses {e : Failure} (h : t.Refuses path e) :
    t.artifactAt path = .error e := by
  cases h with
  | unreadable hread => rw [artifactAt, hread]; rfl
  | malformed hread hparse =>
    rw [artifactAt, hread]
    change Contract.ofArtifact _ _ = _
    rw [Contract.ofArtifact, hparse]

theorem gives_or_refuses (t : FileTree) (path : Path) :
    (∃ c, t.Gives path c) ∨ ∃ e, t.Refuses path e := by
  cases hread : t.readText path with
  | error cause => exact .inr ⟨_, .unreadable hread⟩
  | ok text =>
    cases hparse : Artifact.parse text with
    | error fault => exact .inr ⟨_, .malformed hread hparse⟩
    | ok a =>
      cases hast : a.ast with
      | none => exact .inl ⟨_, .nothing hread hparse ((Artifact.ast_eq_none_iff hparse).mp hast)⟩
      | some ast => exact .inl ⟨_, .contract hread hparse hast⟩

theorem isOk_of_not_refuses (h : ∀ e, ¬ t.Refuses path e) : (t.artifactAt path).isOk = true := by
  rcases t.gives_or_refuses path with ⟨c, hc⟩ | ⟨e, he⟩
  · rw [artifactAt_of_gives hc]
    rfl
  · exact absurd he (h e)

theorem not_refuses_of_isOk (h : (t.artifactAt path).isOk = true) (e : Failure) :
    ¬ t.Refuses path e := by
  intro he
  rw [artifactAt_of_refuses he] at h
  cases h

theorem exists_given {paths : List Path} (h : ∀ path ∈ paths, ∀ e, ¬ t.Refuses path e) :
    ∃ given, List.Forall₂ t.Gives paths given := by
  induction paths with
  | nil => exact ⟨[], .nil⟩
  | cons path more ih =>
    obtain ⟨given, hgiven⟩ := ih fun p hp => h p (List.mem_cons_of_mem _ hp)
    rcases t.gives_or_refuses path with ⟨c, hc⟩ | ⟨e, he⟩
    · exact ⟨c :: given, .cons hc hgiven⟩
    · exact absurd he (h path List.mem_cons_self e)

theorem contractsAt_of_gives {paths : List Path} {given : List (Option Contract)}
    (h : List.Forall₂ t.Gives paths given) : t.contractsAt paths = given.reduceOption := by
  induction h with
  | nil => rfl
  | @cons path c paths given hc _ ih =>
    rw [contractsAt_cons (artifactAt_of_gives hc), ih]
    cases c <;> simp

theorem exists_gives_of_mem {paths : List Path} {given : List (Option Contract)}
    (h : List.Forall₂ t.Gives paths given) {c : Option Contract} (hc : c ∈ given) :
    ∃ path ∈ paths, t.Gives path c := by
  induction h with
  | nil => cases hc
  | @cons path c' paths given hfirst _ ih =>
    rcases List.mem_cons.mp hc with rfl | hc
    · exact ⟨path, List.mem_cons_self, hfirst⟩
    · obtain ⟨other, hother, hgives⟩ := ih hc
      exact ⟨other, List.mem_cons_of_mem _ hother, hgives⟩

/-- `e` says why the first one of some artifacts that is refused is refused. -/
def FirstRefused (t : FileTree) (paths : List Path) (e : Failure) : Prop :=
  ∃ before path after, paths = before ++ path :: after ∧
    (∀ p ∈ before, ∀ e', ¬ t.Refuses p e') ∧ t.Refuses path e

theorem exists_firstRefused {paths : List Path} (h : ∃ path ∈ paths, ∃ e, t.Refuses path e) :
    ∃ e, t.FirstRefused paths e := by
  induction paths with
  | nil =>
    obtain ⟨path, hpath, -⟩ := h
    cases hpath
  | cons path more ih =>
    by_cases hfirst : ∃ e, t.Refuses path e
    · obtain ⟨e, he⟩ := hfirst
      exact ⟨e, [], path, more, rfl, by simp, he⟩
    · obtain ⟨other, hother, hrefused⟩ := h
      have hmore : other ∈ more := by
        rcases List.mem_cons.mp hother with rfl | hmore
        · exact absurd hrefused hfirst
        · exact hmore
      obtain ⟨e, before, broken, after, rfl, hbefore, he⟩ := ih ⟨other, hmore, hrefused⟩
      refine ⟨e, path :: before, broken, after, rfl, ?_, he⟩
      exact List.forall_mem_cons.mpr ⟨fun e' he' => hfirst ⟨e', he'⟩, hbefore⟩

end FileTree

theorem Path.splitName_ne_empty {name extension : String}
    (h : (splitName name).2 = some extension) : (splitName name).1 ≠ "" := by
  revert h
  unfold splitName
  split
  · simp
  · split
    · dsimp only
      split
      · simp
      · simp_all
    · simp

theorem Path.stem_of_extension {path : Path} {extension : String}
    (h : path.extension? = some extension) : ∃ stem, path.stem? = some stem ∧ stem ≠ "" := by
  obtain ⟨name, hname, hsplit⟩ := Option.bind_eq_some_iff.mp h
  exact ⟨(splitName name).1, by rw [stem?, hname]; rfl, splitName_ne_empty hsplit⟩

theorem Artifact.nameAt_ne_empty (a : Artifact) {path : Path} {extension : String}
    (h : path.extension? = some extension) : a.nameAt path ≠ "" := by
  obtain ⟨stem, hstem, hne⟩ := Path.stem_of_extension h
  unfold nameAt
  cases hname : a.contractName.filter (!·.isEmpty) with
  | none => simpa [hstem] using hne
  | some name => simpa using (Option.filter_eq_some_iff.mp hname).2

theorem FileTree.contractName_ne_empty {t : FileTree} {dir : Path}
    {given : List (Option Contract)}
    (h : List.Forall₂ t.Gives (artifactPaths (t.scan dir)) given) {c : Contract}
    (hc : c ∈ given.reduceOption) : c.contractName ≠ "" := by
  obtain ⟨path, hpath, hgives⟩ := exists_gives_of_mem h (List.reduceOption_mem_iff.mp hc)
  cases hgives with
  | @contract text a => exact a.nameAt_ne_empty (mem_artifactPaths_scan_iff.mp hpath).2

section

variable {s : Memory} {dir : Path}

theorem run_loadContracts_of_missing (h : s.files.isDirectory dir = false) :
    ((loadContracts dir : Memory.Run (List Contract)).run s).1 =
      .error (.missingDirectory dir) := by
  rw [(Memory.FailsContracts.missing h).run]

theorem run_loadContracts_of_fine
    (hlog : ∀ path ∈ artifactPaths (s.files.scan dir), s.LogLeaves path)
    (hdir : s.files.isDirectory dir = true)
    (hfine : ∀ path ∈ artifactPaths (s.files.scan dir), ∀ e, ¬ s.files.Refuses path e) :
    ∃ given, List.Forall₂ s.files.Gives (artifactPaths (s.files.scan dir)) given ∧
      ((loadContracts dir : Memory.Run (List Contract)).run s).1 =
        .ok (sortByName given.reduceOption) := by
  obtain ⟨given, hgiven⟩ := FileTree.exists_given hfine
  refine ⟨given, hgiven, ?_⟩
  rw [← FileTree.contractsAt_of_gives hgiven]
  exact run_loadContracts hdir fun path hpath =>
    ⟨FileTree.isOk_of_not_refuses (hfine path hpath), hlog path hpath⟩

theorem run_loadContracts_of_refused {e : Failure}
    (hlog : ∀ path ∈ artifactPaths (s.files.scan dir), s.LogLeaves path)
    (hdir : s.files.isDirectory dir = true)
    (h : s.files.FirstRefused (artifactPaths (s.files.scan dir)) e) :
    ((loadContracts dir : Memory.Run (List Contract)).run s).1 = .error e := by
  obtain ⟨before, path, after, hpaths, hbefore, he⟩ := h
  rw [hpaths] at hlog
  obtain ⟨s', hload⟩ := Memory.exists_loadsEach
    (fun p hp => ⟨FileTree.isOk_of_not_refuses (hbefore p hp), hlog p (List.mem_append_left _ hp)⟩)
    (s.onlyLogs_logAll (scanLog (s.files.scan dir)))
  have hlogs : s.OnlyLogs s' := (s.onlyLogs_logAll _).trans hload.onlyLogs
  have hpath : s'.files.artifactAt path = .error e := by
    rw [(hlog path (by simp)).artifactAt_eq hlogs, FileTree.artifactAt_of_refuses he]
  rw [(Memory.FailsContracts.artifact hdir hpaths hload hpath).run]

theorem run_loadContracts_eq_error_iff
    (hlog : ∀ path ∈ artifactPaths (s.files.scan dir), s.LogLeaves path) (e : Failure) :
    ((loadContracts dir : Memory.Run (List Contract)).run s).1 = .error e ↔
      s.files.isDirectory dir = false ∧ e = .missingDirectory dir ∨
      s.files.isDirectory dir = true ∧
        s.files.FirstRefused (artifactPaths (s.files.scan dir)) e := by
  cases hdir : s.files.isDirectory dir with
  | false => simp [run_loadContracts_of_missing hdir, eq_comm]
  | true =>
    simp only [Bool.true_eq_false, false_and, false_or, true_and]
    refine ⟨fun herror => ?_, run_loadContracts_of_refused hlog hdir⟩
    by_cases hrefused : ∃ path ∈ artifactPaths (s.files.scan dir), ∃ e, s.files.Refuses path e
    · obtain ⟨first, hfirst⟩ := FileTree.exists_firstRefused hrefused
      rw [run_loadContracts_of_refused hlog hdir hfirst] at herror
      exact Except.error.inj herror ▸ hfirst
    · obtain ⟨given, -, hload⟩ := run_loadContracts_of_fine hlog hdir fun path hpath e he =>
        hrefused ⟨path, hpath, e, he⟩
      rw [hload] at herror
      cases herror

/-- As long as the log leaves its artifacts alone, a directory is loaded unless it is missing or one
of them is refused, and then the first of these says why. The artifacts are the files in it, also
behind links, with names that end in `.json`. What is loaded is all that they give, sorted by
names, of which none is empty. -/
theorem loadContracts_fails_or_sorts
    (hlog : ∀ path ∈ artifactPaths (s.files.scan dir), s.LogLeaves path) :
    (∀ path, path ∈ artifactPaths (s.files.scan dir) ↔
      s.files.IsFileIn dir path ∧ path.extension? = some "json") ∧
    ((∃ e, ((loadContracts dir : Memory.Run (List Contract)).run s).1 = .error e) ↔
      s.files.isDirectory dir = false ∨
        ∃ path ∈ artifactPaths (s.files.scan dir), ∃ e, s.files.Refuses path e) ∧
    (∀ e, ((loadContracts dir : Memory.Run (List Contract)).run s).1 = .error e ↔
      s.files.isDirectory dir = false ∧ e = .missingDirectory dir ∨
      s.files.isDirectory dir = true ∧
        s.files.FirstRefused (artifactPaths (s.files.scan dir)) e) ∧
    (s.files.isDirectory dir = true →
      (∀ path ∈ artifactPaths (s.files.scan dir), ∀ e, ¬ s.files.Refuses path e) →
      ∃ contracts given,
        ((loadContracts dir : Memory.Run (List Contract)).run s).1 = .ok contracts ∧
        List.Forall₂ s.files.Gives (artifactPaths (s.files.scan dir)) given ∧
        contracts.Perm given.reduceOption ∧
        contracts.Pairwise (fun a b => a.contractName ≤ b.contractName) ∧
        ∀ c ∈ contracts, c.contractName ≠ "") := by
  have herror := run_loadContracts_eq_error_iff hlog
  refine ⟨fun path => FileTree.mem_artifactPaths_scan_iff, ⟨?_, ?_⟩, herror, ?_⟩
  · rintro ⟨e, he⟩
    rcases (herror e).mp he with ⟨hdir, -⟩ | ⟨-, before, path, after, hpaths, -, hrefuses⟩
    · exact .inl hdir
    · exact .inr ⟨path, by simp [hpaths], e, hrefuses⟩
  · intro h
    cases hdir : s.files.isDirectory dir with
    | false => exact ⟨_, run_loadContracts_of_missing hdir⟩
    | true =>
      obtain ⟨e, he⟩ := FileTree.exists_firstRefused (h.resolve_left (by simp [hdir]))
      exact ⟨e, run_loadContracts_of_refused hlog hdir he⟩
  · intro hdir hfine
    obtain ⟨given, hgiven, hload⟩ := run_loadContracts_of_fine hlog hdir hfine
    have hperm : (sortByName given.reduceOption).Perm given.reduceOption :=
      List.mergeSort_perm _ _
    exact ⟨_, given, hload, hgiven, hperm, pairwise_sortByName _, fun c hc =>
      FileTree.contractName_ne_empty hgiven (hperm.mem_iff.mp hc)⟩

end

theorem logLeaves_of_readable {s : Memory} {dir : Path}
    (h : ∀ path ∈ artifactPaths (s.files.scan dir),
      (s.files.readText path).isOk = true ∧ s.LogApart path) :
    ∀ path ∈ artifactPaths (s.files.scan dir), s.LogLeaves path := by
  intro path hpath
  obtain ⟨hread, hlog⟩ := h path hpath
  exact Memory.logLeaves_of_logApart hread hlog

def loggedBroken : Memory :=
  { brokenBuild with logFile := some ⟨"run.log"⟩ }

theorem loggedBroken_firstRefused :
    loggedBroken.files.FirstRefused (artifactPaths (loggedBroken.files.scan ⟨"build"⟩))
      (.artifact ⟨"build/B.json"⟩ .ended) := by
  refine ⟨[⟨"build/A.json"⟩], ⟨"build/B.json"⟩, [], by decide +kernel, ?_, ?_⟩
  · intro p hp
    obtain rfl := List.mem_singleton.mp hp
    exact FileTree.not_refuses_of_isOk (by decide +kernel)
  · have hread : loggedBroken.files.readText ⟨"build/B.json"⟩ = .ok "\x7b" := by decide +kernel
    have hparse : (Artifact.parse "\x7b").map (fun _ => ()) = .error .ended := by decide +kernel
    refine .malformed hread ?_
    cases hartifact : Artifact.parse "\x7b" with
    | error fault => rw [hartifact] at hparse; exact congrArg _ (Except.error.inj hparse)
    | ok a => rw [hartifact] at hparse; cases hparse

/-- The first directory has a broken artifact behind a good one, the second has two good ones. -/
theorem loadContracts_fails_or_sorts_builds :
    (∀ path ∈ artifactPaths (loggedBroken.files.scan ⟨"build"⟩), loggedBroken.LogLeaves path) ∧
    ((loadContracts ⟨"build"⟩ : Memory.Run (List Contract)).run loggedBroken).1 =
      .error (.artifact ⟨"build/B.json"⟩ .ended) ∧
    (∀ path ∈ artifactPaths (loggedBuild.files.scan ⟨"build"⟩), loggedBuild.LogLeaves path) ∧
    ∃ contracts given,
      ((loadContracts ⟨"build"⟩ : Memory.Run (List Contract)).run loggedBuild).1 = .ok contracts ∧
      List.Forall₂ loggedBuild.files.Gives [⟨"build/A.json"⟩, ⟨"build/Token.json"⟩] given ∧
      contracts.Perm given.reduceOption ∧ ∀ c ∈ contracts, c.contractName ≠ "" := by
  have hbroken := @logLeaves_of_readable loggedBroken ⟨"build"⟩ (by decide +kernel)
  have hgood := @logLeaves_of_readable loggedBuild ⟨"build"⟩ (by decide +kernel)
  have hpaths : artifactPaths (loggedBuild.files.scan ⟨"build"⟩) =
      [⟨"build/A.json"⟩, ⟨"build/Token.json"⟩] := by decide +kernel
  have hfine : ∀ path ∈ artifactPaths (loggedBuild.files.scan ⟨"build"⟩), ∀ e,
      ¬ loggedBuild.files.Refuses path e := by
    have hok : ∀ path ∈ artifactPaths (loggedBuild.files.scan ⟨"build"⟩),
        (loggedBuild.files.artifactAt path).isOk = true := by decide +kernel
    exact fun path hpath => FileTree.not_refuses_of_isOk (hok path hpath)
  have hfails := ((loadContracts_fails_or_sorts hbroken).2.2.1 _).mpr
    (.inr ⟨by decide +kernel, loggedBroken_firstRefused⟩)
  obtain ⟨contracts, given, hload, hgiven, hperm, -, hnames⟩ :=
    (loadContracts_fails_or_sorts hgood).2.2.2 (by decide +kernel) hfine
  exact ⟨hbroken, hfails, hgood, contracts, given, hload, hpaths ▸ hgiven, hperm, hnames⟩

end ContractDocs
