import ContractDocs.Settings.Basic
import ContractDocs.Toml.Marker
import ContractDocs.Toml.Reader

/-! Settings from a TOML document. Keys that no setting has are reported, not refused,
unless a table behind them is marked as a date and is none. A value that would make no
sense is replaced by the default. -/

namespace ContractDocs

open Toml

def configFileName : String := "solidoc.toml"

/-- Settings together with where they were read and which keys were ignored. -/
structure LoadedSettings where
  settings : Settings := {}
  source : Option Path := none
  ignoredKeys : List String := []
deriving Inhabited

namespace Settings

/-- The members of a section. A date has its text as the only one. -/
def section? : Value → Option Members
  | .table _ members => some members
  | .datetime text => some [(dateMarker, .string text)]
  | _ => none

def text? : Value → Option String
  | .string s => some s
  | _ => none

def flag? : Value → Option Bool
  | .boolean b => some b
  | _ => none

/-- A choice is its name, or a table with that name as its only key and an empty table or
array as its value. -/
def choiceName? : Value → Option String
  | .string s => some s
  | .table _ [(name, .table _ [])] => some name
  | .table _ [(name, .array [])] => some name
  | _ => none

def lookupMode? (v : Value) : Option LookupMode := do
  match ← choiceName? v with
  | "exhaustive" => some .exhaustive
  | "firstBranch" => some .firstBranch
  | _ => none

def logLevel? (v : Value) : Option LogLevel := do
  match ← choiceName? v with
  | "error" => some .error
  | "warn" => some .warn
  | "warning" => some .warn
  | "info" => some .info
  | "debug" => some .debug
  | "trace" => some .trace
  | _ => none

/-- Decodes the value of a key, if the key is there. -/
def setting? {α : Type} (decode : Value → Option α) (members : Members) (key : String) :
    Option (Option α) :=
  match members.lookup key with
  | none => some none
  | some v => (decode v).map some

/-- A message template, or the default if there is none or if nothing can be filled in. -/
def templateOr (default : String) : Option String → String
  | none => default
  | some template => if Text.contains template messagePlaceholder then template else default

def path? (text : Option String) : Option Path :=
  (text.filter (!·.isEmpty)).map Path.mk

def resolveKeys : List String := ["lookupMode"]

def messageKeys : List String :=
  ["overridden", "overriddenMarker", "extends", "derivedContracts", "referenceSeparator",
    "listSeparator"]

def outputKeys : List String := ["buildDir", "template", "includeAbi", "writeIndex"]

def loggingKeys : List String := ["level", "file"]

/-- The sections with the keys of their settings. -/
def sections : List (String × List String) :=
  [("resolve", resolveKeys), ("messages", messageKeys), ("output", outputKeys),
    ("logging", loggingKeys)]

def messages? (m : Members) : Option MessageSettings := do
  let default : MessageSettings := {}
  return {
    overridden := templateOr default.overridden (← setting? text? m "overridden")
    overriddenMarker := (← setting? text? m "overriddenMarker").getD default.overriddenMarker
    extending := templateOr default.extending (← setting? text? m "extends")
    derivedContracts := templateOr default.derivedContracts (← setting? text? m "derivedContracts")
    referenceSeparator := (← setting? text? m "referenceSeparator").getD default.referenceSeparator
    listSeparator := (← setting? text? m "listSeparator").getD default.listSeparator }

def output? (m : Members) : Option OutputSettings := do
  let default : OutputSettings := {}
  return {
    buildDir := (path? (← setting? text? m "buildDir")).getD default.buildDir
    template := path? (← setting? text? m "template")
    includeAbi := (← setting? flag? m "includeAbi").getD default.includeAbi
    writeIndex := (← setting? flag? m "writeIndex").getD default.writeIndex }

def logging? (m : Members) : Option LoggingSettings := do
  let default : LoggingSettings := {}
  return {
    level := (← setting? logLevel? m "level").getD default.level
    file := path? (← setting? text? m "file") }

/-- The members of a section by its name; a section that is left out has none. -/
def sectionOf? (document : Members) (name : String) : Option Members :=
  (setting? section? document name).map (·.getD [])

/-- Members of a section that belong to no setting. -/
def ignoredIn (members : Members) (known : List String) : Members :=
  members.filter fun (key, _) => !known.contains key

/-- All members that belong to no setting. A key inside a section is written behind the
name of the section. -/
def ignored (document : Members) : Members :=
  ignoredIn document (sections.map (·.1)) ++ sections.flatMap fun (name, known) =>
    (ignoredIn ((sectionOf? document name).getD []) known).map fun (key, v) =>
      (name ++ "." ++ key, v)

/-- The keys that belong to no setting, in the order of code points. -/
def ignoredKeys (document : Members) : List String :=
  ((ignored document).map (·.1)).mergeSort fun a b => !(decide (b < a))

def ofDocument? (document : Members) : Option Settings := do
  return {
    lookupMode := (← setting? lookupMode? (← sectionOf? document "resolve") "lookupMode").getD
      .exhaustive
    messages := ← messages? (← sectionOf? document "messages")
    output := ← output? (← sectionOf? document "output")
    logging := ← logging? (← sectionOf? document "logging") }

/-- Settings from the text of a configuration file. -/
def ofToml? (text : String) (path : Path) : Option LoadedSettings := do
  let document ← Toml.parse text
  guard ((ignored document).all (·.2.marksDates))
  return {
    settings := ← ofDocument? document
    source := some path
    ignoredKeys := ignoredKeys document }

end Settings

/-- What is logged about settings: where they come from, and the ignored keys. -/
def LoadedSettings.log (l : LoadedSettings) : List LogLine :=
  let source : LogLine :=
    match l.source with
    | some path => ⟨.debug, "Loaded settings from " ++ path.text⟩
    | none => ⟨.debug, "No " ++ configFileName ++ " found, using defaults"⟩
  let place := (l.source.map fun path => " in " ++ path.text).getD ""
  source :: l.ignoredKeys.map fun key =>
    ⟨.warn, "Ignoring unknown config key `" ++ key ++ "`" ++ place⟩

end ContractDocs
