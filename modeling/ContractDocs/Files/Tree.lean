import ContractDocs.Files.Error
import ContractDocs.Path

/-! A tree of files, links and directories, and what paths mean in it. -/

namespace ContractDocs

/-- The names from an entry up to the root, which is the empty list. -/
abbrev Location := List String

inductive Entry where
  | file (bytes : ByteArray)
  | link (target : Path)
  | directory

structure FileTree where
  entries : List (Location × Entry) := []
  /-- Where relative paths start. -/
  workingDir : Location := []

namespace FileTree

def entryAt? (t : FileTree) (l : Location) : Option Entry :=
  if l = [] then some .directory else t.entries.lookup l

def put (t : FileTree) (l : Location) (e : Entry) : FileTree :=
  { t with entries := t.entries.filter (·.1 ≠ l) ++ [(l, e)] }

def erase (t : FileTree) (l : Location) : FileTree :=
  { t with entries := t.entries.filter (·.1 ≠ l) }

/-- The entries of a directory with their names. -/
def childrenOf (t : FileTree) (l : Location) : List (String × Entry) :=
  t.entries.filterMap fun (place, e) =>
    match place with
    | name :: parent => if parent = l then some (name, e) else none
    | [] => none

/-- All entries inside a directory, with the names that lead to them from there. -/
def below (t : FileTree) (l : Location) : List (List String × Entry) :=
  t.entries.filterMap fun (place, e) =>
    if l.isSuffixOf place ∧ place ≠ l then
      some ((place.take (place.length - l.length)).reverse, e)
    else none

/-- Where a path leads. -/
inductive Target where
  | found (place : Location) (entry : Entry)
  /-- Nothing is there, but something can be put there. -/
  | missing (place : Location)

/-- The number of links that one path may lead through. -/
def maxLinks : Nat := 40

/-- The number of bytes that a name may have. -/
def maxName : Nat := 255

/-- The number of bytes from which on a path is too long. -/
def pathLimit : Nat := 4096

/-- What a path is followed for. -/
inductive Purpose where
  /-- What is there. Links are followed to their ends, and a slash at the end asks for a
  directory. -/
  | look
  /-- A file that is there or is to be made. Links are followed to their ends, and a slash
  at the end rules out a file. -/
  | file
  /-- The entry itself, which may be a link. A slash at the end does not matter. -/
  | entry
deriving DecidableEq, Repr

/-- Goes through names from a place; `slash` tells whether one stands behind the last name.
A link in the middle is always followed, and `follow` goes through the names it stands for. -/
def walkWith (t : FileTree) (purpose : Purpose) (slash : Bool)
    (follow : Bool → Location → List String → Except FileError Target) :
    Location → List String → Except FileError Target
  | place, [] =>
    match t.entryAt? place with
    | some .directory => .ok (.found place .directory)
    | some e => if slash && purpose ≠ .entry then .error .notDirectory else .ok (.found place e)
    | none => .error .notFound
  | place, name :: rest =>
    match t.entryAt? place with
    | some .directory =>
      if name = "." then t.walkWith purpose slash follow place rest
      else if name = ".." then t.walkWith purpose slash follow place.tail rest
      else if rest.isEmpty && slash && purpose = .file then .error .isDirectory
      else if maxName < name.utf8ByteSize then .error .nameTooLong
      else
        match t.entryAt? (name :: place) with
        | none => if rest.isEmpty then .ok (.missing (name :: place)) else .error .notFound
        | some (.link target) =>
          if rest.isEmpty && purpose = .entry then .ok (.found (name :: place) (.link target))
          else
            follow (slash || rest.isEmpty && target.endsInSlash)
              (if target.isAbsolute then [] else place) (target.pieces ++ rest)
        | some _ => t.walkWith purpose slash follow (name :: place) rest
    | some _ => .error .notDirectory
    | none => .error .notFound

/-- Goes through names from a place, and through so many links at most. -/
def walk (t : FileTree) (purpose : Purpose) (slash : Bool) :
    Nat → Location → List String → Except FileError Target
  | 0 => t.walkWith purpose slash fun _ _ _ => .error .tooManyLinks
  | links + 1 => t.walkWith purpose slash fun slash => t.walk purpose slash links

/-- Where a path leads. Texts that cannot be paths are refused. -/
def locate (t : FileTree) (purpose : Purpose) (p : Path) : Except FileError Target :=
  if p.text.toList.contains '\x00' then .error .zeroInName
  else if p.text.isEmpty then .error .notFound
  else if pathLimit ≤ p.text.utf8ByteSize then .error .nameTooLong
  else
    t.walk purpose p.endsInSlash maxLinks (if p.isAbsolute then [] else t.workingDir) p.pieces

def find (t : FileTree) (p : Path) : Except FileError (Location × Entry) := do
  match ← t.locate .look p with
  | .found l e => return (l, e)
  | .missing _ => throw .notFound

def isPresent (t : FileTree) (p : Path) : Bool :=
  (t.find p).toOption.isSome

def isDirectory (t : FileTree) (p : Path) : Bool :=
  match t.find p with
  | .ok (_, .directory) => true
  | _ => false

def readBytes (t : FileTree) (p : Path) : Except FileError ByteArray := do
  match ← t.find p with
  | (_, .file bytes) => return bytes
  | (_, .directory) => throw .isDirectory
  | (_, .link _) => throw .tooManyLinks

def readText (t : FileTree) (p : Path) : Except FileError String := do
  match String.fromUTF8? (← t.readBytes p) with
  | some text => return text
  | none => throw .notText

/-- Puts a file at a path, given what it held so far. -/
def update (t : FileTree) (p : Path) (change : ByteArray → ByteArray) :
    Except FileError FileTree := do
  match ← t.locate .file p with
  | .found l (.file bytes) => return t.put l (.file (change bytes))
  | .found _ .directory => throw .isDirectory
  | .found _ (.link _) => throw .tooManyLinks
  | .missing l => return t.put l (.file (change .empty))

def writeBytes (t : FileTree) (p : Path) (bytes : ByteArray) : Except FileError FileTree :=
  t.update p fun _ => bytes

def writeText (t : FileTree) (p : Path) (text : String) : Except FileError FileTree :=
  t.writeBytes p text.toUTF8

def appendText (t : FileTree) (p : Path) (text : String) : Except FileError FileTree :=
  t.update p (· ++ text.toUTF8)

/-- Puts an entry where there is none. -/
def create (t : FileTree) (p : Path) (e : Entry) : Except FileError FileTree := do
  match ← t.locate .entry p with
  | .found _ _ => throw .alreadyExists
  | .missing l => return t.put l e

def makeDirectory (t : FileTree) (p : Path) : Except FileError FileTree :=
  t.create p .directory

def makeLink (t : FileTree) (p target : Path) : Except FileError FileTree :=
  t.create p (.link target)

/-- Removes a file or a link. -/
def remove (t : FileTree) (p : Path) : Except FileError FileTree := do
  match ← t.locate .entry p with
  | .found _ .directory => throw .isDirectory
  | .found l _ => return t.erase l
  | .missing _ => throw .notFound

/-- Makes the first of some paths a directory. The others are the paths above it, nearest
first; they are made if they are needed. What was made before a failure stays. -/
def makeAlong (t : FileTree) : List Path → Except FileError Unit × FileTree
  | [] => (.ok (), t)
  | p :: above =>
    if p.text.isEmpty then (.ok (), t)
    else
      match t.makeDirectory p with
      | .ok t => (.ok (), t)
      | .error .notFound =>
        match t.makeAlong above with
        | (.ok (), t) =>
          match t.makeDirectory p with
          | .ok t => (.ok (), t)
          | .error e => (if t.isDirectory p then .ok () else .error e, t)
        | failed => failed
      | .error e => (if t.isDirectory p then .ok () else .error e, t)

/-- Makes a directory and the directories above it, unless they are there already. -/
def makeDirectories (t : FileTree) (p : Path) : Except FileError Unit × FileTree :=
  t.makeAlong p.ancestors

end FileTree

end ContractDocs
