import ContractDocs.Node.Decode
import ContractDocs.Text.Lower

/-! Compiled contracts, and nodes together with the contract they stand in. -/

namespace ContractDocs

structure Contract where
  /-- Joins references between contracts, so it should be unique in a project. -/
  contractName : String
  /-- Root of the compilation unit that defines the contract. -/
  ast : Node := {}
  abi : Json := .null

namespace Contract

/-- Top-level declarations of the compilation unit. -/
def declarations (c : Contract) : List Node :=
  c.ast.children

/-- The contract's page, relative to the output directory. -/
def pageName (c : Contract) : String :=
  c.contractName ++ ".md"

def ofJson? (v : Json) : Option Contract := do
  let field ← RecordKind.contract.open? v
  let name ← field "contractName"
  return {
    contractName := ← name.val.text?
    ast := ← (field "ast").elim (some {}) (Node.ofJson? ·.val)
    abi := (field "abi").elim .null (·.val.canonical) }

end Contract

/-- A node found in a contract. -/
structure Located where
  contract : Contract
  node : Node

namespace Located

/-- The place of the node on its contract's page. -/
def anchor (l : Located) : String :=
  l.contract.pageName ++ "#" ++ Text.lower l.node.nameText

def label (l : Located) : String :=
  l.contract.contractName ++ "." ++ l.node.nameText

end Located

/-- Top-level declarations of all contracts, in their order. -/
def declarations (contracts : List Contract) : List Node :=
  contracts.flatMap Contract.declarations

end ContractDocs
