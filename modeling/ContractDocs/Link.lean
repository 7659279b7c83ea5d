import ContractDocs.Declaration
import ContractDocs.Override
import ContractDocs.Settings.Basic

/-! Markdown links between pages: what a contract extends, what is derived from it, and
what overrides a function. A line without links is empty. -/

namespace ContractDocs

/-- A markdown link. -/
def link (label target : String) : String :=
  "[" ++ label ++ "](" ++ target ++ ")"

/-- The link to a contract's page by the contract's name. -/
def pageLink (name : String) : String :=
  link name (name ++ ".md")

namespace Contract

/-- The name to link for a base: that of the declaration it refers to, or else the name as
it is written. -/
def baseLabel? (mode : LookupMode) (contracts : List Contract) (b : BaseContract) :
    Option String :=
  let declared := do
    let id ← b.baseName.bind (·.referencedDeclaration)
    let found ← locate mode id contracts
    if found.node.nameText.isEmpty then none else some found.node.nameText
  declared <|> b.name?

/-- The names that the line of bases links. -/
def baseLabels (mode : LookupMode) (contracts : List Contract) (c : Contract) : List String :=
  c.baseContracts.filterMap (baseLabel? mode contracts)

/-- The line of the contracts that a contract extends. -/
def extendsLine (messages : MessageSettings) (mode : LookupMode) (contracts : List Contract)
    (c : Contract) : String :=
  match (c.baseLabels mode contracts).map pageLink with
  | [] => ""
  | links =>
    "**" ++ fillMessage messages.extending (messages.listSeparator.intercalate links) ++ "**"

/-- What is logged when the line of bases is built. -/
def extendsLog (mode : LookupMode) (contracts : List Contract) (c : Contract) : List LogLine :=
  c.baseContracts.flatMap fun b =>
    match b.baseName.bind (·.referencedDeclaration) with
    | some id => locateLog mode id contracts
    | none => []

/-- The line of the contracts derived from a contract. -/
def derivedLine (messages : MessageSettings) (contracts : List Contract) (c : Contract) : String :=
  match (c.derivedContracts contracts).map fun d => link d.contractName d.pageName with
  | [] => ""
  | links =>
    "**" ++ fillMessage messages.derivedContracts (messages.listSeparator.intercalate links) ++
      "**."

end Contract

/-- A list of links to all contracts. -/
def contractLinks (contracts : List Contract) : String :=
  "\n".intercalate (contracts.map fun c => "- " ++ link c.contractName c.pageName)

namespace Located

def link (l : Located) : String :=
  ContractDocs.link l.label l.anchor

end Located

namespace Node

/-- The nodes that override a function; one without an id cannot be overridden. -/
def overriders (contracts : List Contract) (n : Node) : List Located :=
  match n.nodeId? with
  | some id => overridingNodes contracts id
  | none => []

/-- The line of the overrides of a function. -/
def overriddenLine (messages : MessageSettings) (contracts : List Contract) (n : Node) : String :=
  match (n.overriders contracts).map Located.link with
  | [] => ""
  | links =>
    messages.overriddenMarker ++
      fillMessage messages.overridden (messages.referenceSeparator.intercalate links)

/-- What is logged when the overrides of a function are looked for. -/
def overridersLog (contracts : List Contract) (n : Node) : List LogLine :=
  match n.nodeId? with
  | some id => overridingNodesLog contracts id
  | none => []

end Node

end ContractDocs
