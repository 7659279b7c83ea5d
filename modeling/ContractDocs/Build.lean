import ContractDocs.Artifact
import ContractDocs.Host.Basic

/-! The contracts of a project, loaded from the artifacts in its build directory. -/

namespace ContractDocs

/-- Whether a file is taken for an artifact. -/
def isArtifactPath (path : Path) : Bool :=
  path.extension? == some "json"

/-- The artifacts among the entries of a directory. -/
def artifactPaths (entries : List Scanned) : List Path :=
  entries.filterMap fun
    | .file path => if isArtifactPath path then some path else none
    | _ => none

/-- What is logged about entries that cannot be read. -/
def scanLog (entries : List Scanned) : List LogLine :=
  entries.filterMap fun
    | .unreadable path why =>
      some ⟨.warn, "Skipping unreadable build entry " ++ path.text ++ ": " ++ why.text path⟩
    | _ => none

/-- Sorts contracts by the code points of their names, so that the order of the files does
not show. Contracts of one name keep their order. -/
def sortByName (contracts : List Contract) : List Contract :=
  contracts.mergeSort fun a b => !(decide (b.contractName < a.contractName))

variable {m : Type → Type} [Monad m] [Host m]

/-- Loads the contract of one artifact. -/
def loadArtifact (path : Path) : ExceptT Failure m (Option Contract) := do
  let text ← ExceptT.mk (Failure.onFile path <$> Host.readText path)
  match ← ExceptT.mk (pure (Contract.ofArtifact text path)) with
  | some c =>
    Host.logAll (m := m) [⟨.debug, "Loaded " ++ c.contractName ++ " from " ++ path.text⟩]
    return some c
  | none =>
    Host.logAll (m := m) (Contract.skippedLog path)
    return none

/-- Loads artifacts one after the other, up to the first that cannot be loaded. -/
def loadArtifacts : List Path → ExceptT Failure m (List Contract)
  | [] => return []
  | path :: more => do
    let contract ← loadArtifact path
    let contracts ← loadArtifacts more
    return contract.toList ++ contracts

/-- Loads the contracts from the artifacts directly inside a directory. -/
def loadContracts (dir : Path) : ExceptT Failure m (List Contract) := do
  unless ← Host.isDirectory (m := m) dir do
    throw (.missingDirectory dir)
  let entries ← Host.scan (m := m) dir
  Host.logAll (m := m) (scanLog entries)
  let contracts := sortByName (← loadArtifacts (artifactPaths entries))
  Host.logAll (m := m)
    [⟨.info, "Loaded " ++ toString contracts.length ++ " contracts from " ++ dir.text⟩]
  return contracts

end ContractDocs
