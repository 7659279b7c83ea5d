import ContractDocs.Build
import ContractDocs.Proofs.FileChanges

/-! Loading the contracts of a directory, artifact by artifact. A run logs about each one before it
reads the next, so what it loads can depend on where the log goes. -/

namespace ContractDocs

theorem exists_ok_of_isOk {ε α : Type} {result : Except ε α} (h : result.isOk = true) :
    ∃ a, result = .ok a := by
  cases result with
  | error e => cases h
  | ok a => exact ⟨a, rfl⟩

namespace FileTree

/-- The contract in an artifact. -/
def artifactAt (t : FileTree) (path : Path) : Except Failure (Option Contract) := do
  Contract.ofArtifact (← Failure.onFile path (t.readText path)) path

def contractsAt (t : FileTree) (paths : List Path) : List Contract :=
  paths.filterMap fun path => (t.artifactAt path).toOption.join

/-- The contracts in the artifacts of a directory, in the order of its entries. -/
def contractsIn (t : FileTree) (dir : Path) : List Contract :=
  t.contractsAt (artifactPaths (t.scan dir))

theorem contractsAt_cons {t : FileTree} {path : Path} {c : Option Contract}
    (h : t.artifactAt path = .ok c) (more : List Path) :
    t.contractsAt (path :: more) = c.toList ++ t.contractsAt more := by
  rw [contractsAt, contractsAt, List.filterMap_cons, h]
  cases c <;> rfl

theorem readText_of_artifactAt {t : FileTree} {path : Path} {c : Option Contract}
    (h : t.artifactAt path = .ok c) :
    ∃ text, t.readText path = .ok text ∧ Contract.ofArtifact text path = .ok c := by
  unfold artifactAt at h
  cases hread : t.readText path with
  | error e => rw [hread] at h; cases h
  | ok text => rw [hread] at h; exact ⟨text, rfl, h⟩

end FileTree

namespace Memory

/-- Lines were logged and nothing else was done. -/
structure OnlyLogs (s s' : Memory) : Prop where
  lines : ∃ lines : List LogLine, s' = lines.foldl log s
  changes : ∀ l, s'.files.entryAt? l ≠ s.files.entryAt? l →
    ∃ q ∈ s.logFile, s'.files.place? q = some l
  unlogged : s.logFile = none → s'.files = s.files

theorem files_logAll_of_unlogged {s : Memory} (h : s.logFile = none) (lines : List LogLine) :
    (lines.foldl log s).files = s.files := by
  induction lines generalizing s with
  | nil => rfl
  | cons line lines ih =>
    obtain ⟨hfile, hsame | ⟨q, hq, -⟩⟩ := s.log_eq line
    · rw [List.foldl_cons, ih (hfile.trans h), hsame]
    · rw [h] at hq
      cases hq

theorem onlyLogs_logAll (s : Memory) (lines : List LogLine) :
    s.OnlyLogs (lines.foldl log s) where
  lines := ⟨lines, rfl⟩
  changes := (s.puts_logAll lines).changes
  unlogged h := files_logAll_of_unlogged h lines

theorem OnlyLogs.refl (s : Memory) : s.OnlyLogs s :=
  s.onlyLogs_logAll []

theorem OnlyLogs.trans {s s₁ s' : Memory} (h : s.OnlyLogs s₁) (h' : s₁.OnlyLogs s') :
    s.OnlyLogs s' := by
  obtain ⟨first, rfl⟩ := h.lines
  obtain ⟨second, rfl⟩ := h'.lines
  rw [← List.foldl_append]
  exact s.onlyLogs_logAll _

/-- Whatever is logged, the same is read at the path. -/
def LogLeaves (s : Memory) (path : Path) : Prop :=
  ∀ lines : List LogLine, (lines.foldl log s).files.readText path = s.files.readText path

theorem LogLeaves.artifactAt_eq {s s' : Memory} {path : Path} (h : s.LogLeaves path)
    (hlogs : s.OnlyLogs s') : s'.files.artifactAt path = s.files.artifactAt path := by
  obtain ⟨lines, rfl⟩ := hlogs.lines
  rw [FileTree.artifactAt, FileTree.artifactAt, h lines]

/-- A file that can be read stays as it is if the log goes elsewhere. -/
theorem logLeaves_of_logApart {s : Memory} {path : Path}
    (hread : (s.files.readText path).isOk = true) (hlog : s.LogApart path) : s.LogLeaves path := by
  intro lines
  obtain ⟨text, htext⟩ := exists_ok_of_isOk hread
  rw [htext]
  clear hread
  induction lines generalizing s with
  | nil => exact htext
  | cons line lines ih =>
    obtain ⟨hafter, hapart⟩ := readText_log line htext hlog
    exact ih hapart hafter

theorem logLeaves_of_artifactAt {s : Memory} {path : Path}
    (h : (s.files.artifactAt path).isOk = true) (hlog : s.LogApart path) : s.LogLeaves path := by
  obtain ⟨c, hc⟩ := exists_ok_of_isOk h
  obtain ⟨text, hread, -⟩ := FileTree.readText_of_artifactAt hc
  exact logLeaves_of_logApart (by rw [hread]; rfl) hlog

end Memory

/-- What is logged about an artifact that is loaded. -/
def artifactLog (path : Path) : Option Contract → List LogLine
  | some c => [⟨.debug, "Loaded " ++ c.contractName ++ " from " ++ path.text⟩]
  | none => Contract.skippedLog path

theorem run_loadArtifact {s : Memory} {path : Path} {c : Option Contract}
    (h : s.files.artifactAt path = .ok c) :
    (loadArtifact path : Memory.Run (Option Contract)).run s =
      (.ok c, (artifactLog path c).foldl Memory.log s) := by
  obtain ⟨text, hread, hparse⟩ := FileTree.readText_of_artifactAt h
  have hfirst : (ExceptT.mk (Failure.onFile path <$> Host.readText path) :
      Memory.Run String).run s = (.ok text, s) := by
    rw [run_readText, hread]
    rfl
  have hsecond : (ExceptT.mk (pure (Contract.ofArtifact text path)) :
      Memory.Run (Option Contract)).run s = (.ok c, s) := by
    rw [hparse]
    rfl
  unfold loadArtifact
  rw [run_bind_of_ok hfirst, run_bind_of_ok hsecond]
  cases c with
  | some c => exact run_bind_of_ok (run_logAll _ _)
  | none => exact run_bind_of_ok (run_logAll _ _)

theorem run_loadArtifact_of_error {s : Memory} {path : Path} {e : Failure}
    (h : s.files.artifactAt path = .error e) :
    (loadArtifact path : Memory.Run (Option Contract)).run s = (.error e, s) := by
  unfold FileTree.artifactAt at h
  have hfirst := run_readText path s
  cases hread : Failure.onFile path (s.files.readText path) with
  | error e' =>
    rw [hread] at h hfirst
    cases h
    exact run_bind_of_error hfirst
  | ok text =>
    rw [hread] at h hfirst
    have hsecond : (ExceptT.mk (pure (Contract.ofArtifact text path)) :
        Memory.Run (Option Contract)).run s = (.error e, s) :=
      congrArg (·, s) h
    exact (run_bind_of_ok hfirst).trans (run_bind_of_error hsecond)

namespace Memory

/-- Artifacts are loaded one after the other, each from the files as they are at its turn. -/
inductive LoadsEach : Memory → List Path → List Contract → Memory → Prop where
  | nil {s : Memory} : LoadsEach s [] [] s
  -- The log may go to an artifact, so a later one is read after the lines about the earlier ones.
  | cons {s s' : Memory} {path : Path} {more : List Path} {c : Option Contract}
      {contracts : List Contract} : s.files.artifactAt path = .ok c →
      LoadsEach ((artifactLog path c).foldl log s) more contracts s' →
      LoadsEach s (path :: more) (c.toList ++ contracts) s'

end Memory

namespace Memory.LoadsEach

variable {s s' : Memory} {paths : List Path} {contracts : List Contract}

theorem onlyLogs (h : s.LoadsEach paths contracts s') : s.OnlyLogs s' := by
  induction h with
  | nil => exact .refl _
  | cons _ _ ih => exact (onlyLogs_logAll _ _).trans ih

theorem run (h : s.LoadsEach paths contracts s') :
    (loadArtifacts paths : Memory.Run (List Contract)).run s = (.ok contracts, s') := by
  induction h with
  | nil => rfl
  | cons hfirst _ ih =>
    rw [loadArtifacts, run_bind_of_ok (run_loadArtifact hfirst), run_bind_of_ok ih]
    rfl

theorem run_of_error (h : s.LoadsEach paths contracts s') {path : Path} {e : Failure}
    (he : s'.files.artifactAt path = .error e) (after : List Path) :
    (loadArtifacts (paths ++ path :: after) : Memory.Run (List Contract)).run s =
      (.error e, s') := by
  induction h with
  | nil => exact run_bind_of_error (run_loadArtifact_of_error he)
  | cons hfirst _ ih =>
    rw [List.cons_append, loadArtifacts, run_bind_of_ok (run_loadArtifact hfirst),
      run_bind_of_error (ih he)]

end Memory.LoadsEach

theorem Memory.loadsEach_or_error (s : Memory) (paths : List Path) :
    (∃ contracts s', s.LoadsEach paths contracts s') ∨
      ∃ before path after contracts s' e, paths = before ++ path :: after ∧
        s.LoadsEach before contracts s' ∧ s'.files.artifactAt path = .error e := by
  induction paths generalizing s with
  | nil => exact .inl ⟨[], s, .nil⟩
  | cons path more ih =>
    cases hfirst : s.files.artifactAt path with
    | error e => exact .inr ⟨[], path, more, [], s, e, rfl, .nil, hfirst⟩
    | ok c =>
      rcases ih ((artifactLog path c).foldl log s) with
        ⟨contracts, s', hmore⟩ | ⟨before, broken, after, contracts, s', e, rfl, hbefore, he⟩
      · exact .inl ⟨_, s', .cons hfirst hmore⟩
      · exact .inr ⟨path :: before, broken, after, _, s', e, rfl, .cons hfirst hbefore, he⟩

/-- Artifacts that can all be loaded, and that the log leaves alone, are loaded as they are before
the first line is logged. -/
theorem Memory.exists_loadsEach {s s₁ : Memory} {paths : List Path}
    (h : ∀ path ∈ paths, (s.files.artifactAt path).isOk = true ∧ s.LogLeaves path)
    (hlogs : s.OnlyLogs s₁) : ∃ s', s₁.LoadsEach paths (s.files.contractsAt paths) s' := by
  induction paths generalizing s₁ with
  | nil => exact ⟨s₁, .nil⟩
  | cons path more ih =>
    obtain ⟨⟨hok, hleaves⟩, hmore⟩ := List.forall_mem_cons.mp h
    obtain ⟨c, hc⟩ := exists_ok_of_isOk hok
    obtain ⟨s', hrest⟩ := ih hmore (hlogs.trans (s₁.onlyLogs_logAll (artifactLog path c)))
    refine ⟨s', ?_⟩
    rw [FileTree.contractsAt_cons hc]
    exact .cons ((hleaves.artifactAt_eq hlogs).trans hc) hrest

namespace Memory

def loadedLine (dir : Path) (contracts : List Contract) : LogLine :=
  ⟨.info, "Loaded " ++ toString contracts.length ++ " contracts from " ++ dir.text⟩

/-- The machine after the entries of a directory are looked through. -/
def scanned (s : Memory) (dir : Path) : Memory :=
  (scanLog (s.files.scan dir)).foldl log s

inductive LoadsContracts (s : Memory) (dir : Path) : List Contract → Memory → Prop where
  | all {contracts : List Contract} {s' : Memory} : s.files.isDirectory dir = true →
      (s.scanned dir).LoadsEach (artifactPaths (s.files.scan dir)) contracts s' →
      LoadsContracts s dir (sortByName contracts)
        (s'.log (loadedLine dir (sortByName contracts)))

/-- The first failure while the contracts of a directory are loaded. -/
inductive FailsContracts (s : Memory) (dir : Path) : Failure → Memory → Prop where
  | missing : s.files.isDirectory dir = false → FailsContracts s dir (.missingDirectory dir) s
  | artifact {before after : List Path} {path : Path} {contracts : List Contract} {e : Failure}
      {s' : Memory} : s.files.isDirectory dir = true →
      artifactPaths (s.files.scan dir) = before ++ path :: after →
      (s.scanned dir).LoadsEach before contracts s' → s'.files.artifactAt path = .error e →
      FailsContracts s dir e s'

variable {s s' : Memory} {dir : Path} {contracts : List Contract} {e : Failure}

theorem LoadsContracts.onlyLogs (h : s.LoadsContracts dir contracts s') : s.OnlyLogs s' := by
  cases h with
  | all _ hload =>
    exact ((s.onlyLogs_logAll _).trans hload.onlyLogs).trans (onlyLogs_logAll _ [_])

theorem FailsContracts.onlyLogs (h : s.FailsContracts dir e s') : s.OnlyLogs s' := by
  cases h with
  | missing => exact .refl s
  | artifact _ _ hload => exact (s.onlyLogs_logAll _).trans hload.onlyLogs

theorem LoadsContracts.run (h : s.LoadsContracts dir contracts s') :
    (loadContracts dir : Memory.Run (List Contract)).run s = (.ok contracts, s') := by
  cases h with
  | all hdir hload =>
    unfold loadContracts
    rw [run_bind_of_ok (run_isDirectory dir s), hdir]
    simp only [if_true]
    rw [run_bind_of_ok (run_scan dir s), run_bind_of_ok (run_logAll _ _)]
    refine (run_bind_of_ok hload.run).trans ?_
    exact run_bind_of_ok (run_logAll _ _)

theorem FailsContracts.run (h : s.FailsContracts dir e s') :
    (loadContracts dir : Memory.Run (List Contract)).run s = (.error e, s') := by
  unfold loadContracts
  rw [run_bind_of_ok (run_isDirectory dir s)]
  cases h with
  | missing hdir => rw [hdir]; rfl
  | artifact hdir hpaths hload he =>
    rw [hdir]
    simp only [if_true]
    rw [run_bind_of_ok (run_scan dir s), run_bind_of_ok (run_logAll _ _), hpaths]
    exact run_bind_of_error (hload.run_of_error he _)

theorem loads_or_fails_contracts (s : Memory) (dir : Path) :
    (∃ contracts s', s.LoadsContracts dir contracts s') ∨ ∃ e s', s.FailsContracts dir e s' := by
  cases hdir : s.files.isDirectory dir with
  | false => exact .inr ⟨_, s, .missing hdir⟩
  | true =>
    rcases (s.scanned dir).loadsEach_or_error (artifactPaths (s.files.scan dir)) with
      ⟨contracts, s', hload⟩ | ⟨before, path, after, contracts, s', e, hpaths, hload, he⟩
    · exact .inl ⟨_, _, .all hdir hload⟩
    · exact .inr ⟨e, s', .artifact hdir hpaths hload he⟩

end Memory

/-- The contracts are loaded when all artifacts can be. -/
theorem run_loadContracts {s : Memory} {dir : Path} (hdir : s.files.isDirectory dir = true)
    (h : ∀ path ∈ artifactPaths (s.files.scan dir),
      (s.files.artifactAt path).isOk = true ∧ s.LogLeaves path) :
    ((loadContracts dir : Memory.Run (List Contract)).run s).1 =
      .ok (sortByName (s.files.contractsIn dir)) := by
  obtain ⟨s', hload⟩ := Memory.exists_loadsEach h (s.onlyLogs_logAll _)
  rw [(Memory.LoadsContracts.all hdir hload).run]
  rfl

theorem run_loadContracts_of_logApart {s : Memory} {dir : Path}
    (hdir : s.files.isDirectory dir = true)
    (h : ∀ path ∈ artifactPaths (s.files.scan dir),
      (s.files.artifactAt path).isOk = true ∧ s.LogApart path) :
    ((loadContracts dir : Memory.Run (List Contract)).run s).1 =
      .ok (sortByName (s.files.contractsIn dir)) :=
  run_loadContracts hdir fun path hpath =>
    (h path hpath).imp_right (Memory.logLeaves_of_artifactAt (h path hpath).1)

end ContractDocs
