import ContractDocs.Host.Basic

/-! A machine in memory: a tree of files and the lines that were shown. -/

namespace ContractDocs

structure Memory where
  files : FileTree := {}
  verbosity : LogLevel := .debug
  logFile : Option Path := none
  lines : List LogLine := []

namespace Memory

/-- Writes a file, or leaves the files as they are if that fails. -/
def write (s : Memory) (path : Path) (text : String) : Except FileError Unit × Memory :=
  match s.files.writeText path text with
  | .ok files => (.ok (), { s with files })
  | .error e => (.error e, s)

def writeEach (s : Memory) : List (Path × String) → List (Except FileError Unit) × Memory
  | [] => ([], s)
  | (path, text) :: more =>
    let (outcome, s) := s.write path text
    let (outcomes, s) := s.writeEach more
    (outcome :: outcomes, s)

def makeDirectories (s : Memory) (path : Path) : Except FileError Unit × Memory :=
  let (outcome, files) := s.files.makeDirectories path
  (outcome, { s with files })

/-- Creates the log file if it is not there, and the directory for it if need be. -/
def createLog (s : Memory) (path : Path) : Except FileError Unit × Memory :=
  match s.files.appendText path "" with
  | .ok files => (.ok (), { s with files })
  | .error e =>
    match path.parent? with
    | none => (.error e, s)
    | some parent =>
      match s.makeDirectories parent with
      | (.ok (), s) =>
        match s.files.appendText path "" with
        | .ok files => (.ok (), { s with files })
        | .error e => (.error e, s)
      | failed => failed

def openLog (s : Memory) (verbosity : LogLevel) (file : Option Path) :
    Except FileError Unit × Memory :=
  let s := { s with verbosity, logFile := file }
  match file with
  | none => (.ok (), s)
  | some path => s.createLog path

/-- Shows a line, unless it is too detailed. -/
def log (s : Memory) (line : LogLine) : Memory :=
  if line.shownAt s.verbosity then
    let appended := s.logFile.bind fun path =>
      (s.files.appendText path (line.text ++ "\n")).toOption
    { s with files := appended.getD s.files, lines := s.lines ++ [line] }
  else s

end Memory

instance : Host (StateM Memory) where
  isDirectory path s := (s.files.isDirectory path, s)
  isPresent path s := (s.files.isPresent path, s)
  readText path s := (s.files.readText path, s)
  scan path s := (s.files.scan path, s)
  makeDirectories path s := s.makeDirectories path
  writeAll pages s := s.writeEach pages
  openLog verbosity file s := s.openLog verbosity file
  log line s := ((), s.log line)

end ContractDocs
