import ContractDocs.Log
import ContractDocs.Lookup
import ContractDocs.Path
import ContractDocs.Text.Replace

/-! Settings of a project, their defaults, and what follows from them. -/

namespace ContractDocs

/-- What a message template is filled in at. -/
def messagePlaceholder : String := "\x7b0\x7d"

/-- Fills a value into a message template. -/
def fillMessage (template value : String) : String :=
  Text.replace template messagePlaceholder value

/-- Texts that stand on the pages. -/
structure MessageSettings where
  overridden : String := "Overridden Implementation(s): \x7b0\x7d"
  /-- Stands in front of the overrides of a function. -/
  overriddenMarker : String := "⤿ "
  extending : String := "Extends: \x7b0\x7d"
  derivedContracts : String := "Derived Contracts: \x7b0\x7d"
  /-- Stands between the overrides of a function. -/
  referenceSeparator : String := ","
  /-- Stands between the names of contracts. -/
  listSeparator : String := ", "
deriving DecidableEq, Repr, Inhabited

def defaultBuildDir : Path := ⟨"build/contracts"⟩

structure OutputSettings where
  /-- Where the artifacts are, relative to the project. -/
  buildDir : Path := defaultBuildDir
  /-- A page template to use instead of the built-in one. -/
  template : Option Path := none
  includeAbi : Bool := true
  writeIndex : Bool := true
deriving DecidableEq, Repr, Inhabited

structure LoggingSettings where
  level : LogLevel := .info
  /-- A log file, relative to the project. -/
  file : Option Path := none
deriving DecidableEq, Repr, Inhabited

structure Settings where
  lookupMode : LookupMode := .exhaustive
  messages : MessageSettings := {}
  output : OutputSettings := {}
  logging : LoggingSettings := {}
deriving DecidableEq, Repr, Inhabited

namespace LoggingSettings

/-- The level to log at. A verbose run shows at least debug lines. -/
def verbosity (l : LoggingSettings) (verbose : Bool) : LogLevel :=
  if verbose then l.level.max .debug else l.level

/-- The verbosity as a filter for this program's lines. -/
def logFilter (l : LoggingSettings) (verbose : Bool) : String :=
  "solidoc=" ++ (l.verbosity verbose).name

/-- The log file: the one given for this run, or else the configured one in the project. -/
def logFile? (l : LoggingSettings) (given : Option Path) (projectRoot : Path) : Option Path :=
  given <|> l.file.map projectRoot.join

end LoggingSettings

namespace Settings

/-- The directory of the artifacts. -/
def buildDir (s : Settings) (projectRoot : Path) : Path :=
  projectRoot.join s.output.buildDir

/-- Whether two settings agree, where paths are compared by their components. -/
def same (a b : Settings) : Bool :=
  let samePath (p q : Option Path) := p.map Path.components == q.map Path.components
  a.lookupMode == b.lookupMode && a.messages == b.messages &&
    a.output.buildDir.same b.output.buildDir && samePath a.output.template b.output.template &&
    a.output.includeAbi == b.output.includeAbi && a.output.writeIndex == b.output.writeIndex &&
    a.logging.level == b.logging.level && samePath a.logging.file b.logging.file

end Settings

end ContractDocs
