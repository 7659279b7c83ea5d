import ContractDocs.Path

/-! The arguments of the command. They are read from left to right, and what decides first
wins. -/

namespace ContractDocs

structure Arguments where
  /-- The project whose artifacts are documented. -/
  projectRoot : Path
  /-- Where the pages are written. -/
  output : Path
  config : Option Path := none
  buildDir : Option Path := none
  logFile : Option Path := none
  verbose : Bool := false
deriving DecidableEq, Repr

/-- What the arguments ask for. -/
inductive Request where
  | run (arguments : Arguments)
  | showVersion
  | showHelp
  | refused
deriving DecidableEq, Repr

/-- Options that take a path. -/
inductive PathOption where
  | config
  | buildDir
  | logFile
deriving DecidableEq, Repr

/-- Options that take nothing. -/
inductive Flag where
  | verbose
  | version
  | help
deriving DecidableEq, Repr

def PathOption.ofName? : String → Option PathOption
  | "config" => some .config
  | "build-dir" => some .buildDir
  | "log-file" => some .logFile
  | _ => none

def Flag.ofName? : String → Option Flag
  | "verbose" => some .verbose
  | "version" => some .version
  | "help" => some .help
  | _ => none

def Flag.ofLetter? : Char → Option Flag
  | 'v' => some .verbose
  | 'V' => some .version
  | 'h' => some .help
  | _ => none

/-- An argument by its form. A dash alone is a value. -/
inductive Argument where
  | separator
  | long (name : String) (value : Option String)
  | letters (letters : List Char)
  | value (text : String)
deriving DecidableEq, Repr

def Argument.ofText (text : String) : Argument :=
  match text.toList with
  | ['-', '-'] => .separator
  | '-' :: '-' :: more =>
    let name := String.ofList (more.takeWhile (· ≠ '='))
    match more.dropWhile (· ≠ '=') with
    | [] => .long name none
    | _ :: given => .long name (some (String.ofList given))
  | ['-'] => .value text
  | '-' :: cluster => .letters cluster
  | _ => .value text

/-- The arguments read so far. -/
structure ArgumentDraft where
  values : List String := []
  config : Option Path := none
  buildDir : Option Path := none
  logFile : Option Path := none
  verbose : Bool := false

namespace ArgumentDraft

/-- Adds a value; there are two at most, and they are not empty. -/
def addValue? (d : ArgumentDraft) (text : String) : Option ArgumentDraft :=
  if text.isEmpty || 2 ≤ d.values.length then none
  else some { d with values := d.values ++ [text] }

/-- Sets an option; it is given once at most, and its value is not empty. -/
def setPath? (d : ArgumentDraft) (option : PathOption) (text : String) : Option ArgumentDraft :=
  if text.isEmpty then none
  else
    match option with
    | .config => if d.config.isSome then none else some { d with config := some ⟨text⟩ }
    | .buildDir => if d.buildDir.isSome then none else some { d with buildDir := some ⟨text⟩ }
    | .logFile => if d.logFile.isSome then none else some { d with logFile := some ⟨text⟩ }

/-- Sets a flag, or gives the request that it decides. -/
def setFlag (d : ArgumentDraft) : Flag → Except Request ArgumentDraft
  | .verbose => if d.verbose then .error .refused else .ok { d with verbose := true }
  | .version => .error .showVersion
  | .help => .error .showHelp

def setLetters (d : ArgumentDraft) : List Char → Except Request ArgumentDraft
  | [] => .ok d
  | c :: more =>
    match Flag.ofLetter? c with
    | none => .error .refused
    | some flag => do (← d.setFlag flag).setLetters more

def finish (d : ArgumentDraft) : Request :=
  match d.values with
  | [projectRoot, output] => .run {
    projectRoot := ⟨projectRoot⟩
    output := ⟨output⟩
    config := d.config
    buildDir := d.buildDir
    logFile := d.logFile
    verbose := d.verbose }
  | _ => .refused

/-- Adds values behind the separator, where nothing is an option. -/
def finishValues (d : ArgumentDraft) : List String → Request
  | [] => d.finish
  | text :: more =>
    match d.addValue? text with
    | some d => d.finishValues more
    | none => .refused

def read (d : ArgumentDraft) : List String → Request
  | [] => d.finish
  | text :: more =>
    match Argument.ofText text with
    | .separator => d.finishValues more
    | .letters letters =>
      match d.setLetters letters with
      | .ok d => d.read more
      | .error request => request
    | .value text =>
      match d.addValue? text with
      | some d => d.read more
      | none => .refused
    | .long name value =>
      match PathOption.ofName? name, Flag.ofName? name, value, more with
      | some option, _, some text, more =>
        match d.setPath? option text with
        | some d => d.read more
        | none => .refused
      | some option, _, none, text :: more =>
        match Argument.ofText text with
        | .value text =>
          match d.setPath? option text with
          | some d => d.read more
          | none => .refused
        | _ => .refused
      | none, some flag, none, more =>
        match d.setFlag flag with
        | .ok d => d.read more
        | .error request => request
      | _, _, _, _ => .refused

end ArgumentDraft

/-- What a list of arguments asks for. -/
def Request.ofArguments (arguments : List String) : Request :=
  ArgumentDraft.read {} arguments

end ContractDocs
