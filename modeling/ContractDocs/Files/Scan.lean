import ContractDocs.Files.Tree

/-! The files directly inside a directory, and why others cannot be reached. -/

namespace ContractDocs

/-- Why an entry of a directory cannot be read. -/
inductive ScanFault where
  | failed (cause : FileError)
  /-- A link leads back to the directory itself. -/
  | loop (directory : Path)
deriving DecidableEq, Repr

/-- An entry of a directory, or the directory itself if that cannot be read. -/
inductive Scanned where
  | file (path : Path)
  | other (path : Path)
  | unreadable (path : Path) (why : ScanFault)
deriving DecidableEq, Repr

def ScanFault.text (path : Path) : ScanFault → String
  | failed cause => "IO error for operation on " ++ path.text ++ ": " ++ cause.text
  | loop directory =>
    "File system loop found: " ++ path.text ++ " points to an ancestor " ++ directory.text

namespace FileTree

/-- What an entry of the directory `p` at `l` is when links are followed. -/
def scanEntry (t : FileTree) (p : Path) (l : Location) (name : String) : Entry → Scanned
  | .file _ => .file (p.join ⟨name⟩)
  | .directory => .other (p.join ⟨name⟩)
  | .link _ =>
    let path := p.join ⟨name⟩
    match t.find path with
    | .ok (place, .directory) => if place = l then .unreadable path (.loop p) else .other path
    | .ok (_, .file _) => .file path
    | .ok (_, .link _) => .other path
    | .error cause => .unreadable path (.failed cause)

/-- The entries of a directory; a file has none. -/
def scan (t : FileTree) (p : Path) : List Scanned :=
  match t.find p with
  | .ok (l, .directory) => (t.childrenOf l).map fun (name, e) => t.scanEntry p l name e
  | .ok _ => []
  | .error cause => [.unreadable p (.failed cause)]

end FileTree

end ContractDocs
