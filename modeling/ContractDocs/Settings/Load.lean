import ContractDocs.Failure
import ContractDocs.Host.Basic
import ContractDocs.Settings.Decode

/-! Settings from a project's configuration file. -/

namespace ContractDocs.Settings

/-- Settings from the text of a configuration file, or the failure that it is none. -/
def parse (text : String) (path : Path) : Except Failure LoadedSettings :=
  match ofToml? text path with
  | some loaded => .ok loaded
  | none => .error (.config path)

variable {m : Type → Type} [Monad m] [Host m]

def loadFrom (path : Path) : ExceptT Failure m LoadedSettings := do
  let text ← ExceptT.mk (Failure.onFile path <$> Host.readText path)
  ExceptT.mk (pure (parse text path))

/-- Loads the given file, or else the one in the project; a project without one has the
default settings. -/
def load (projectRoot : Path) (given : Option Path) : ExceptT Failure m LoadedSettings :=
  match given with
  | some path => loadFrom path
  | none => do
    let path := projectRoot.join ⟨configFileName⟩
    if ← Host.isPresent (m := m) path then loadFrom path else return {}

end ContractDocs.Settings
