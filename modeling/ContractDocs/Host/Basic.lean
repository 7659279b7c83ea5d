import ContractDocs.Files.Scan
import ContractDocs.Log

/-! What a run asks of the machine it runs on. -/

namespace ContractDocs

class Host (m : Type → Type) where
  isDirectory : Path → m Bool
  isPresent : Path → m Bool
  readText : Path → m (Except FileError String)
  scan : Path → m (List Scanned)
  makeDirectories : Path → m (Except FileError Unit)
  /-- Writes files in no certain order. Every write is tried, and the answers are in the
  order of the files. -/
  writeAll : List (Path × String) → m (List (Except FileError Unit))
  /-- Chooses which lines are shown from now on, and the file they are appended to. -/
  openLog : LogLevel → Option Path → m (Except FileError Unit)
  log : LogLine → m Unit

namespace Host

variable {m : Type → Type} [Monad m] [Host m]

def logAll : List LogLine → m Unit
  | [] => pure ()
  | line :: more => do
    log line
    logAll more

end Host

end ContractDocs
