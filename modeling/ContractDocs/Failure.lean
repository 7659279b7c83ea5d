import ContractDocs.Files.Error
import ContractDocs.Json.Reader
import ContractDocs.Path

/-! Why documentation cannot be made. -/

namespace ContractDocs

inductive Failure where
  | file (path : Path) (cause : FileError)
  | artifact (path : Path) (fault : Json.Fault)
  | config (path : Path)
  | missingDirectory (path : Path)
  /-- A template in which nothing can be filled in. -/
  | template (path : Path)
deriving DecidableEq, Repr

namespace Failure

/-- A message about a path. -/
def describe (kind what : String) (path : Path) : String :=
  kind ++ ": " ++ what ++ " (path: " ++ path.text ++ ")"

def faultText : Json.Fault → String
  | .ended => "the text ends too early"
  | .malformed => "the text is not JSON"
  | .mismatch => "the value is not an artifact"

def message : Failure → String
  | file path cause => describe "io error" cause.text path
  | artifact path fault => describe "invalid artifact" (faultText fault) path
  | config path => describe "invalid config" "the text is not a table of settings" path
  | missingDirectory path => "directory not found: " ++ path.text
  | template path =>
    describe "invalid template" "template has no \x7b\x7bPlaceholder\x7d\x7d" path

/-- Says which file an error is about. -/
def onFile {α : Type} (path : Path) : Except FileError α → Except Failure α :=
  Except.mapError (file path)

end Failure

end ContractDocs
