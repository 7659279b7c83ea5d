import ContractDocs.Command
import ContractDocs.Proofs.LoadOrder

/-! What a run does before it writes its pages. Everything is loaded first, in a fixed order; the
first failure ends the run, and until then no file is changed but the one the log goes to. -/

namespace ContractDocs

/-- The template to use, or why there is none. -/
def FileTree.templateAt (t : FileTree) : Option Path → Except Failure String
  | none => .ok defaultTemplate
  | some path => do checkTemplate path (← Failure.onFile path (t.readText path))

theorem run_loadTemplate (path : Option Path) (s : Memory) :
    (loadTemplate path : Memory.Run String).run s = (s.files.templateAt path, s) := by
  cases path with
  | none => rfl
  | some path =>
    rw [loadTemplate, FileTree.templateAt]
    have hfirst := run_readText path s
    cases hread : Failure.onFile path (s.files.readText path) with
    | error e =>
      rw [hread] at hfirst
      exact run_bind_of_error hfirst
    | ok text =>
      rw [hread] at hfirst
      exact run_bind_of_ok hfirst

namespace Arguments

/-- Where the artifacts are. -/
def artifactDir (arguments : Arguments) (settings : Settings) : Path :=
  arguments.buildDir.getD (settings.buildDir arguments.projectRoot)

def template? (arguments : Arguments) (settings : Settings) : Option Path :=
  settings.output.template.map arguments.projectRoot.join

variable (arguments : Arguments) (settings : Settings)

/-- Everything for the pages is loaded. -/
inductive LoadsSite (s : Memory) : Site → Memory → Prop where
  | all {contracts : List Contract} {template : String} {s' : Memory} :
      s.files.isDirectory arguments.projectRoot = true →
      s.LoadsContracts (arguments.artifactDir settings) contracts s' →
      s'.files.templateAt (arguments.template? settings) = .ok template →
      LoadsSite s { contracts, settings, template } s'

/-- The first thing that cannot be loaded: the project, its contracts or the template. -/
inductive FailsSite (s : Memory) : Failure → Memory → Prop where
  | root : s.files.isDirectory arguments.projectRoot = false →
      FailsSite s (.missingDirectory arguments.projectRoot) s
  | contracts {e : Failure} {s' : Memory} :
      s.files.isDirectory arguments.projectRoot = true →
      s.FailsContracts (arguments.artifactDir settings) e s' → FailsSite s e s'
  | template {contracts : List Contract} {e : Failure} {s' : Memory} :
      s.files.isDirectory arguments.projectRoot = true →
      s.LoadsContracts (arguments.artifactDir settings) contracts s' →
      s'.files.templateAt (arguments.template? settings) = .error e → FailsSite s e s'

variable {arguments settings} {s s' : Memory}

theorem FailsSite.onlyLogs {e : Failure} (h : FailsSite arguments settings s e s') :
    s.OnlyLogs s' := by
  cases h with
  | root => exact .refl s
  | contracts _ hfails => exact hfails.onlyLogs
  | template _ hload => exact hload.onlyLogs

theorem LoadsSite.onlyLogs {site : Site} (h : LoadsSite arguments settings s site s') :
    s.OnlyLogs s' := by
  cases h with
  | all _ hload => exact hload.onlyLogs

theorem FailsSite.run {e : Failure} (h : FailsSite arguments settings s e s') :
    (document arguments settings : Memory.Run Nat).run s = (.error e, s') := by
  unfold document
  rw [run_bind_of_ok (run_isDirectory _ s)]
  cases h with
  | root hroot => rw [hroot]; rfl
  | contracts hroot hfails =>
    rw [hroot]
    simp only [if_true]
    exact run_bind_of_error hfails.run
  | template hroot hload he =>
    rw [hroot]
    simp only [if_true]
    refine (run_bind_of_ok hload.run).trans (run_bind_of_error ?_)
    rw [run_loadTemplate]
    exact congrArg (·, s') he

theorem LoadsSite.run {site : Site} (h : LoadsSite arguments settings s site s') :
    (document arguments settings : Memory.Run Nat).run s =
      (site.write arguments.output : Memory.Run Nat).run s' := by
  cases h with
  | all hroot hload htemplate =>
    unfold document
    rw [run_bind_of_ok (run_isDirectory _ s), hroot]
    simp only [if_true]
    refine (run_bind_of_ok hload.run).trans (run_bind_of_ok ?_)
    rw [run_loadTemplate]
    exact congrArg (·, s') htemplate

theorem loads_or_fails_site (s : Memory) :
    (∃ site s', LoadsSite arguments settings s site s') ∨
      ∃ e s', FailsSite arguments settings s e s' := by
  cases hroot : s.files.isDirectory arguments.projectRoot with
  | false => exact .inr ⟨_, s, .root hroot⟩
  | true =>
    rcases s.loads_or_fails_contracts (arguments.artifactDir settings) with
      ⟨contracts, s', hload⟩ | ⟨e, s', hfails⟩
    · cases htemplate : s'.files.templateAt (arguments.template? settings) with
      | error e => exact .inr ⟨e, s', .template hroot hload htemplate⟩
      | ok template => exact .inl ⟨_, s', .all hroot hload htemplate⟩
    · exact .inr ⟨e, s', .contracts hroot hfails⟩

end Arguments

/-- Either something cannot be loaded, and the first such failure ends the run after nothing but log
lines; or all is loaded, with nothing but log lines, and the run goes on as the writing of the
pages does. -/
theorem document_loads_before_writing (arguments : Arguments) (settings : Settings) (s : Memory) :
    (∀ e s', arguments.FailsSite settings s e s' →
      (document arguments settings : Memory.Run Nat).run s = (.error e, s') ∧ s.OnlyLogs s') ∧
    (∀ site s₁, arguments.LoadsSite settings s site s₁ →
      (document arguments settings : Memory.Run Nat).run s =
        (site.write arguments.output : Memory.Run Nat).run s₁ ∧ s.OnlyLogs s₁) ∧
    ((∃ site s₁, arguments.LoadsSite settings s site s₁) ∨
      ∃ e s', arguments.FailsSite settings s e s') :=
  ⟨fun _ _ h => ⟨h.run, h.onlyLogs⟩, fun _ _ h => ⟨h.run, h.onlyLogs⟩,
    Arguments.loads_or_fails_site s⟩

def buildArguments : Arguments :=
  { projectRoot := ⟨"."⟩, output := ⟨"docs"⟩, buildDir := some ⟨"build"⟩ }

def brokenBuild : Memory :=
  { files := builds vaultArtifact ("B.json", "\x7b") }

theorem brokenBuild_fails :
    ∃ s', brokenBuild.FailsContracts ⟨"build"⟩ (.artifact ⟨"build/B.json"⟩ .ended) s' := by
  have hpaths : artifactPaths (brokenBuild.files.scan ⟨"build"⟩) =
      [⟨"build/A.json"⟩] ++ [⟨"build/B.json"⟩] := by decide +kernel
  have hscan : brokenBuild.scanned ⟨"build"⟩ = brokenBuild := by
    have hlog : scanLog (brokenBuild.files.scan ⟨"build"⟩) = [] := by decide +kernel
    rw [Memory.scanned, hlog, List.foldl_nil]
  have hgood : (brokenBuild.files.artifactAt ⟨"build/A.json"⟩).isOk = true := by decide +kernel
  obtain ⟨c, hc⟩ := exists_ok_of_isOk hgood
  obtain ⟨s', hfirst⟩ : ∃ s', brokenBuild.LoadsEach [⟨"build/A.json"⟩] (c.toList ++ []) s' :=
    ⟨_, .cons hc .nil⟩
  have hsecond : brokenBuild.files.artifactAt ⟨"build/B.json"⟩ =
      .error (.artifact ⟨"build/B.json"⟩ .ended) := by
    have hunit : (brokenBuild.files.artifactAt ⟨"build/B.json"⟩).map (fun _ => ()) =
        .error (.artifact ⟨"build/B.json"⟩ .ended) := by decide +kernel
    generalize brokenBuild.files.artifactAt ⟨"build/B.json"⟩ = loaded at hunit ⊢
    cases loaded with
    | ok => cases hunit
    | error => exact congrArg _ (Except.error.inj hunit)
  refine ⟨s', .artifact (by decide +kernel) hpaths (hscan.symm ▸ hfirst) ?_⟩
  rw [hfirst.onlyLogs.unlogged rfl, hsecond]

theorem document_stops_at_broken_artifact :
    let stopped := (document buildArguments {} : Memory.Run Nat).run brokenBuild
    stopped.1 = .error (.artifact ⟨"build/B.json"⟩ .ended) ∧
      stopped.2.files = brokenBuild.files := by
  obtain ⟨s', hfails⟩ := brokenBuild_fails
  obtain ⟨hrun, hlogs⟩ := (document_loads_before_writing buildArguments {} brokenBuild).1 _ s'
    (.contracts (by decide +kernel) hfails)
  intro stopped
  rw [show stopped = _ from hrun]
  exact ⟨rfl, hlogs.unlogged rfl⟩

def missingTemplate : Memory :=
  { files := { entries := [(["build"], .directory)] } }

/-- A run that fails leaves its lines in the log file, which was empty when it began. -/
theorem document_logs_before_failing :
    let opened := missingTemplate.openLog .info (some ⟨"run.log"⟩)
    let stopped := (document buildArguments { output := { template := some ⟨"t.md"⟩ } } :
      Memory.Run Nat).run opened.2
    opened.1 = .ok () ∧ opened.2.files.readText ⟨"run.log"⟩ = .ok "" ∧
      stopped.1 = .error (.file ⟨"./t.md"⟩ .notFound) ∧
      stopped.2.files.readText ⟨"run.log"⟩ = .ok "INFO Loaded 0 contracts from build\n" := by
  decide +kernel

end ContractDocs
