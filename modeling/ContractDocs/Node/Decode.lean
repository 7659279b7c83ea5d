import ContractDocs.Json.Record
import ContractDocs.Node.Basic

/-! Nodes from JSON. The layout gives the fields of each record and their order. -/

namespace ContractDocs

inductive RecordKind where
  | artifact
  | contract
  | node
  | parameterList
  | baseContract
  | baseName
  | typeDescriptions
deriving DecidableEq, Repr

open Json in
def RecordKind.layout : Layout RecordKind
  | .artifact => [
    { name := "contractName", shape := .text },
    { name := "ast", shape := .record .node },
    { name := "abi", shape := .anything, presence := .defaulted }]
  | .contract => [
    { name := "contractName", shape := .text, presence := .required },
    { name := "ast", shape := .record .node, presence := .defaulted },
    { name := "abi", shape := .anything, presence := .defaulted }]
  | .node => [
    { name := "id", shape := .integer },
    { name := "nodeType", shape := .text },
    { name := "name", shape := .text },
    { name := "nodes", shape := .list (.record .node) },
    { name := "body", shape := .record .node },
    { name := "superFunction", shape := .integer },
    { name := "baseFunctions", shape := .list .integer },
    { name := "isConstructor", shape := .flag },
    { name := "kind", shape := .text },
    { name := "contractKind", shape := .text },
    { name := "baseContracts", shape := .list (.record .baseContract) },
    { name := "parameters", shape := .record .parameterList },
    { name := "returnParameters", shape := .record .parameterList },
    { name := "documentation", shape := .wrapped "text" },
    { name := "visibility", shape := .text },
    { name := "typeDescriptions", shape := .record .typeDescriptions }]
  | .parameterList => [{ name := "parameters", shape := .list (.record .node) }]
  | .baseContract => [
    { name := "id", shape := .integer },
    { name := "baseName", shape := .record .baseName }]
  | .baseName => [
    { name := "name", shape := .text },
    { name := "referencedDeclaration", shape := .integer }]
  | .typeDescriptions => [{ name := "typeString", shape := .text }]

open Json

/-- Opens a value as a record of the given kind. -/
def RecordKind.open? (kind : RecordKind) (v : Json) : Option (String → Option (Part v)) :=
  Json.open? kind.layout v

def Documentation.ofJson? (v : Json) : Option Documentation :=
  (v.wrapped? "text").map fun
    | .inl text => .raw text
    | .inr text => .structured text

def TypeDescriptions.ofJson? (v : Json) : Option TypeDescriptions := do
  let field ← RecordKind.typeDescriptions.open? v
  return { typeString := ← optional? (·.val.text?) (field "typeString") }

def BaseName.ofJson? (v : Json) : Option BaseName := do
  let field ← RecordKind.baseName.open? v
  return {
    name := ← optional? (·.val.text?) (field "name")
    referencedDeclaration := ← optional? (·.val.integer?) (field "referencedDeclaration") }

def BaseContract.ofJson? (v : Json) : Option BaseContract := do
  let field ← RecordKind.baseContract.open? v
  return {
    id := ← optional? (·.val.integer?) (field "id")
    baseName := ← optional? (BaseName.ofJson? ·.val) (field "baseName") }

/-- A parameter list inside a record, given how its nodes are decoded. -/
def ParameterList.ofPart? {ν : Type} {v : Json} (decode : Part v → Option ν) (p : Part v) :
    Option (ParameterList ν) := do
  let field ← RecordKind.parameterList.open? p.val
  let inner (q : Part p.val) : Option ν := decode ⟨q.val, Nat.lt_trans q.property p.property⟩
  return { parameters := ← optional? (list? inner) (field "parameters") }

def Node.ofJson? (v : Json) : Option Node := do
  let field ← RecordKind.node.open? v
  let node (p : Part v) : Option Node := Node.ofJson? p.val
  return {
    id := ← optional? (·.val.integer?) (field "id")
    nodeType := ← optional? (·.val.text?.map NodeKind.ofTag) (field "nodeType")
    name := ← optional? (·.val.text?) (field "name")
    nodes := ← optional? (list? node) (field "nodes")
    body := ← optional? node (field "body")
    superFunction := ← optional? (·.val.integer?) (field "superFunction")
    baseFunctions := ← optional? (list? (·.val.integer?)) (field "baseFunctions")
    isConstructor := ← optional? (·.val.flag?) (field "isConstructor")
    kind := ← optional? (·.val.text?) (field "kind")
    contractKind := ← optional? (·.val.text?) (field "contractKind")
    baseContracts := ← optional? (list? (BaseContract.ofJson? ·.val)) (field "baseContracts")
    parameters := ← optional? (ParameterList.ofPart? node) (field "parameters")
    returnParameters := ← optional? (ParameterList.ofPart? node) (field "returnParameters")
    documentation := ← optional? (Documentation.ofJson? ·.val) (field "documentation")
    visibility := ← optional? (·.val.text?) (field "visibility")
    typeDescriptions := ← optional? (TypeDescriptions.ofJson? ·.val) (field "typeDescriptions") }
termination_by sizeOf v
decreasing_by exact p.property

end ContractDocs
