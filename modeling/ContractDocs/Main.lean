import ContractDocs.Command

/-! The command on the machine it is run on. -/

namespace ContractDocs

/-- Where log lines go. -/
structure LogSink where
  verbosity : LogLevel := .info
  file : Option Path := none

abbrev Shell := StateT LogSink IO

namespace Shell

/-- The number of a system error; some are given as negative ones in 32 bits. -/
def errorNumber? : IO.Error → Option Nat
  | .noFileOrDirectory _ code _ => some code.toNat
  | .alreadyExists _ code _ => some code.toNat
  | .inappropriateType _ code _ => some code.toNat
  | .invalidArgument _ code _ => some code.toNat
  | .permissionDenied _ code _ => some code.toNat
  | .resourceExhausted _ code _ => some code.toNat
  | .otherError code _ => some code.toNat
  | _ => none

def fileError (e : IO.Error) : FileError :=
  let positive (code : Nat) := if code < Nat.pow 2 31 then code else Nat.pow 2 32 - code
  match (errorNumber? e).map positive with
  | some 2 => .notFound
  | some 17 => .alreadyExists
  | some 20 => .notDirectory
  | some 21 => .isDirectory
  | some 36 => .nameTooLong
  | some 40 => .tooManyLinks
  | some 13 => .other "Permission denied (os error 13)"
  | some 28 => .other "No space left on device (os error 28)"
  | some 30 => .other "Read-only file system (os error 30)"
  | _ => .other (toString e)

def attempt {α : Type} (action : IO α) : IO (Except FileError α) := do
  try
    return .ok (← action)
  catch e =>
    return .error (fileError e)

/-- What a path leads to when links are followed. -/
def fileType (path : Path) : IO (Except FileError IO.FS.FileType) := do
  if path.text.toList.contains '\x00' then return .error .zeroInName
  if path.text.isEmpty then return .error .notFound
  attempt do
    let here ← IO.FS.realPath "."
    return (← (here / path.text).metadata).type

def isDirectory (path : Path) : IO Bool := do
  match ← fileType path with
  | .ok .dir => return true
  | _ => return false

def readText (path : Path) : IO (Except FileError String) := do
  match ← fileType path with
  | .error e => return .error e
  | .ok _ =>
    match ← attempt (IO.FS.readBinFile path.text) with
    | .error e => return .error e
    | .ok bytes =>
      match String.fromUTF8? bytes with
      | some text => return .ok text
      | none => return .error .notText

def scanEntry (dir : Path) (name : String) : IO Scanned := do
  let path := dir.join ⟨name⟩
  match ← fileType path with
  | .error e => return .unreadable path (.failed e)
  | .ok .file => return .file path
  | .ok .dir =>
    if (← IO.FS.realPath path.text) == (← IO.FS.realPath dir.text) then
      return .unreadable path (.loop dir)
    else return .other path
  | .ok _ => return .other path

def scan (dir : Path) : IO (List Scanned) := do
  match ← fileType dir with
  | .error e => return [.unreadable dir (.failed e)]
  | .ok .dir =>
    match ← attempt do return (← (← IO.FS.realPath dir.text).readDir).toList with
    | .ok entries => entries.mapM fun entry => scanEntry dir entry.fileName
    | .error e => return [.unreadable dir (.failed e)]
  | .ok _ => return []

/-- Makes a directory, unless its name is none. -/
def makeDirectory (path : Path) : IO (Except FileError Unit) := do
  if path.text.toList.contains '\x00' then return .error .zeroInName
  attempt (IO.FS.createDir path.text)

/-- Makes the first of some paths a directory, and those above it if they are needed. -/
def makeAlong : List Path → IO (Except FileError Unit)
  | [] => return .ok ()
  | path :: above => do
    if path.text.isEmpty then return .ok ()
    let unlessThere (e : FileError) : IO (Except FileError Unit) := do
      return if ← isDirectory path then .ok () else .error e
    match ← makeDirectory path with
    | .ok () => return .ok ()
    | .error .notFound =>
      match ← makeAlong above with
      | .ok () =>
        match ← makeDirectory path with
        | .ok () => return .ok ()
        | .error e => unlessThere e
      | failed => return failed
    | .error e => unlessThere e

def makeDirectories (path : Path) : IO (Except FileError Unit) :=
  makeAlong path.ancestors

def write (path : Path) (text : String) : IO (Except FileError Unit) := do
  if path.text.toList.contains '\x00' then return .error .zeroInName
  attempt (IO.FS.writeFile path.text text)

def writeAll (pages : List (Path × String)) : IO (List (Except FileError Unit)) := do
  let tasks ← pages.mapM fun (path, text) => IO.asTask (write path text)
  tasks.mapM fun task => do IO.ofExcept (← IO.wait task)

def append (path : Path) (text : String) : IO Unit := do
  let handle ← IO.FS.Handle.mk path.text .append
  handle.putStr text

/-- Creates the log file if it is not there, and the directory for it if need be. -/
def createLog (path : Path) : IO (Except FileError Unit) := do
  match ← attempt (append path "") with
  | .ok () => return .ok ()
  | .error e =>
    match path.parent? with
    | none => return .error e
    | some parent =>
      match ← makeDirectories parent with
      | .ok () => attempt (append path "")
      | failed => return failed

def openLog (verbosity : LogLevel) (file : Option Path) : Shell (Except FileError Unit) := do
  set ({ verbosity, file } : LogSink)
  match file with
  | none => return .ok ()
  | some path => createLog path

def log (line : LogLine) : Shell Unit := do
  let sink ← get
  if line.shownAt sink.verbosity then
    IO.eprintln line.text
    if let some path := sink.file then
      let _ ← attempt (append path (line.text ++ "\n"))

end Shell

instance : Host Shell where
  isDirectory path := Shell.isDirectory path
  isPresent path := do return (← Shell.fileType path).toOption.isSome
  readText path := Shell.readText path
  scan path := Shell.scan path
  makeDirectories path := Shell.makeDirectories path
  writeAll pages := Shell.writeAll pages
  openLog := Shell.openLog
  log := Shell.log

end ContractDocs

def main (arguments : List String) : IO UInt32 := do
  let run : ContractDocs.Shell ContractDocs.Outcome := ContractDocs.execute arguments
  let (outcome, _) ← run.run {}
  IO.print outcome.output
  IO.eprint outcome.complaint
  return outcome.exitCode.toUInt32
