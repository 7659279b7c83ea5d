import ContractDocs.Contract
import ContractDocs.Failure
import ContractDocs.Log

/-! Build artifacts: what a compiler leaves behind for a contract. -/

namespace ContractDocs

/-- The parts of an artifact that are read. -/
structure Artifact where
  contractName : Option String := none
  ast : Option Node := none
  abi : Json := .null

namespace Artifact

open Json

def ofJson? (v : Json) : Option Artifact := do
  let field ← RecordKind.artifact.open? v
  return {
    contractName := ← optional? (·.val.text?) (field "contractName")
    ast := ← optional? (Node.ofJson? ·.val) (field "ast")
    abi := (field "abi").elim .null (·.val.canonical) }

def parse (text : String) : Except Fault Artifact := do
  let v ← parseAs RecordKind.layout (.record .artifact) text
  match ofJson? v with
  | some a => return a
  | none => throw .mismatch

/-- The name of the contract. One that is not given is taken from the file's name. -/
def nameAt (a : Artifact) (path : Path) : String :=
  ((a.contractName.filter (!·.isEmpty)) <|> path.stem?).getD ""

/-- The contract to document; there is none without a syntax tree. -/
def contractAt? (a : Artifact) (path : Path) : Option Contract :=
  a.ast.map fun ast => { contractName := a.nameAt path, ast, abi := a.abi }

end Artifact

namespace Contract

/-- Reads the contract of an artifact. The path is that of the artifact's file. -/
def ofArtifact (text : String) (path : Path) : Except Failure (Option Contract) :=
  match Artifact.parse text with
  | .ok a => .ok (a.contractAt? path)
  | .error fault => .error (.artifact path fault)

/-- What is logged about an artifact without a contract. -/
def skippedLog (path : Path) : List LogLine :=
  [⟨.warn, "Skipping " ++ path.text ++ ": artifact has no AST"⟩]

end Contract

end ContractDocs
