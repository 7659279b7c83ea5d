import ContractDocs.Arguments
import ContractDocs.Build
import ContractDocs.Settings.Load
import ContractDocs.Site

/-! The command: it loads the contracts of a project and writes their pages. -/

namespace ContractDocs

def version : String := "0.1.0"

def usage : String :=
  "Usage: solidoc [OPTIONS] <PROJECT_ROOT> <OUTPUT>\n\n" ++
  "Options:\n" ++
  "      --config <CONFIG>        Config file; defaults to `solidoc.toml` in the project root\n" ++
  "      --build-dir <BUILD_DIR>  Artifact directory, overriding `output.buildDir`\n" ++
  "  -v, --verbose\n" ++
  "      --log-file <LOG_FILE>\n" ++
  "  -h, --help                   Print help\n" ++
  "  -V, --version                Print version\n"

/-- What a run of the command leaves behind besides files and log lines. -/
structure Outcome where
  exitCode : Nat
  output : String := ""
  /-- What is said about arguments that cannot be used. -/
  complaint : String := ""
deriving DecidableEq, Repr

/-- The file that a log path means. A path that does not end in a name gets one. -/
def logFileAt (path : Path) : Path :=
  (path.parent?.getD ⟨"."⟩).join ⟨path.fileName?.getD "solidoc.log"⟩

variable {m : Type → Type} [Monad m] [Host m]

/-- Makes the documentation and returns the number of its files. Nothing is written before
everything has been loaded. -/
def document (arguments : Arguments) (settings : Settings) : ExceptT Failure m Nat := do
  unless ← Host.isDirectory (m := m) arguments.projectRoot do
    throw (.missingDirectory arguments.projectRoot)
  let contracts ← loadContracts (arguments.buildDir.getD (settings.buildDir arguments.projectRoot))
  let template ← loadTemplate (settings.output.template.map arguments.projectRoot.join)
  Site.write { contracts, settings, template } arguments.output

/-- Makes the documentation with the settings as far as they could be loaded. -/
def documentWith (arguments : Arguments) (loaded : Except Failure LoadedSettings) :
    ExceptT Failure m Nat := do
  let loaded ← ExceptT.mk (pure loaded)
  Host.logAll (m := m) loaded.log
  document arguments loaded.settings

/-- The last line of a run and its exit code. -/
def conclusion (output : Path) : Except Failure Nat → LogLine × Nat
  | .ok pages =>
    (⟨.info, "Documentation generated (" ++ toString pages ++ " files) in " ++ output.text⟩, 0)
  | .error failure => (⟨.error, failure.message⟩, 1)

/-- Runs the command. The settings choose what is logged, so they are loaded before the
first line. -/
def run (arguments : Arguments) : m Outcome := do
  let loaded ← (Settings.load arguments.projectRoot arguments.config).run
  let logging := (loaded.toOption.getD {}).settings.logging
  let logFile := (logging.logFile? arguments.logFile arguments.projectRoot).map logFileAt
  match ← Host.openLog (logging.verbosity arguments.verbose) logFile with
  | .error e =>
    return { exitCode := 101, complaint := "the log file cannot be opened: " ++ e.text ++ "\n" }
  | .ok () =>
    Host.logAll [⟨.info, "Starting solidoc v" ++ version⟩]
    let (line, exitCode) := conclusion arguments.output (← (documentWith arguments loaded).run)
    Host.logAll [line]
    return { exitCode }

/-- Does what the arguments ask for. -/
def execute (arguments : List String) : m Outcome :=
  match Request.ofArguments arguments with
  | .run arguments => run arguments
  | .showVersion => return { exitCode := 0, output := "solidoc " ++ version ++ "\n" }
  | .showHelp => return { exitCode := 0, output := usage }
  | .refused => return { exitCode := 2, complaint := usage }

end ContractDocs
