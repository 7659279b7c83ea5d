import ContractDocs.Text.Lines

/-! Paths as texts with slashes between their components. -/

namespace ContractDocs

structure Path where
  text : String
deriving DecidableEq, Repr, Inhabited

namespace Path

inductive Component where
  | root
  /-- A dot at the start of a relative path; it has no meaning further on. -/
  | current
  | parent
  | name (text : String)
deriving DecidableEq, Repr

def isAbsolute (p : Path) : Bool :=
  p.text.toList.head? == some '/'

/-- The texts between slashes. -/
def pieces (p : Path) : List String :=
  ((Text.pieces '/' p.text.toList).filter (!·.isEmpty)).map String.ofList

def componentOf (piece : String) : Component :=
  if piece = ".." then .parent else .name piece

def components (p : Path) : List Component :=
  let named (pieces : List String) := (pieces.filter (· ≠ ".")).map componentOf
  if p.isAbsolute then .root :: named p.pieces
  else
    match p.pieces with
    | "." :: more => .current :: named more
    | pieces => named pieces

/-- Whether two paths have the same components. -/
def same (p q : Path) : Bool :=
  p.components == q.components

/-- Whether the path ends in a slash, so that it can only name a directory. -/
def endsInSlash (p : Path) : Bool :=
  p.text.toList.getLast? == some '/'

/-- Resolves `q` against `p`. An absolute path replaces `p`; nothing is put between an
empty `p` and `q`. -/
def join (p q : Path) : Path :=
  if q.isAbsolute then q
  else if p.text.isEmpty || p.endsInSlash then ⟨p.text ++ q.text⟩
  else ⟨p.text ++ "/" ++ q.text⟩

/-- The last component, if it is a name. -/
def fileName? (p : Path) : Option String :=
  match p.components.getLast? with
  | some (.name n) => some n
  | _ => none

def Component.text : Component → String
  | root => ""
  | current => "."
  | parent => ".."
  | name n => n

def ofComponents (cs : List Component) : Path :=
  match cs with
  | [.root] => ⟨"/"⟩
  | cs => ⟨"/".intercalate (cs.map Component.text)⟩

/-- The path without its last component; neither the root nor the empty path has one. -/
def parent? (p : Path) : Option Path :=
  match p.components with
  | [] => none
  | [.root] => none
  | cs => some (ofComponents cs.dropLast)

/-- The path, its parent, the parent of that, and so on. -/
def ancestors (p : Path) : List Path :=
  p :: (List.range p.components.length).reverse.map fun k => ofComponents (p.components.take k)

/-- A file name in two parts at its last dot. A dot at the start does not count, and two
dots are a name of their own. -/
def splitName (name : String) : String × Option String :=
  if name = ".." then (name, none)
  else
    match (Text.pieces '.' name.toList).reverse with
    | last :: before :: more =>
      let stem := ".".intercalate ((before :: more).reverse.map String.ofList)
      if stem.isEmpty then (name, none) else (stem, some (String.ofList last))
    | _ => (name, none)

/-- The file name without its extension. -/
def stem? (p : Path) : Option String :=
  p.fileName?.map fun n => (splitName n).1

def extension? (p : Path) : Option String :=
  p.fileName?.bind fun n => (splitName n).2

end Path

end ContractDocs
