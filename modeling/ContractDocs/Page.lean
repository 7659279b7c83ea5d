import ContractDocs.Json.Printer
import ContractDocs.Link
import ContractDocs.Natspec

/-! Pages: one for each contract, made from a template, and one that lists all contracts. -/

namespace ContractDocs

/-- The template of a page if a project has none of its own. -/
def defaultTemplate : String :=
  "# \x7b\x7bContractTitle\x7d\x7d\n\n" ++
  "\x7b\x7bContractInheritancePath\x7d\x7d\n\n" ++
  "\x7b\x7bContractImplementations\x7d\x7d\n\n" ++
  "\x7b\x7bContractDescription\x7d\x7d\n\n" ++
  "\x7b\x7bContractMembers\x7d\x7d\n\n" ++
  "\x7b\x7bConstructor\x7d\x7d\n\n" ++
  "\x7b\x7bFunctions\x7d\x7d\n\n" ++
  "\x7b\x7bABI\x7d\x7d\n\n" ++
  "## Contracts\n\n" ++
  "\x7b\x7bAllContractsAnchor\x7d\x7d\n"

/-- The page that lists all contracts. -/
def indexPage : String := "README.md"

/-- What every template has to contain. -/
def placeholderOpening : String := "\x7b\x7b"

/-- The place of a value in a template. -/
def placeholder (name : String) : String :=
  placeholderOpening ++ name ++ "\x7d\x7d"

/-- What pages are made from. -/
structure Site where
  contracts : List Contract
  settings : Settings := {}
  template : String := defaultTemplate

namespace Node

/-- The heading of a function: its name, or what it is if it has none. -/
def heading (n : Node) : String :=
  if !n.nameText.isEmpty then n.nameText
  else if n.constructs then "constructor"
  else n.kind.getD "fallback"

/-- A parameter as in a signature: its type and its name, as far as it has them. -/
def parameterText (n : Node) : String :=
  match n.typeString? with
  | some type => if n.nameText.isEmpty then type else type ++ " " ++ n.nameText
  | none => n.nameText

def parameterTexts (parameters : List Node) : String :=
  ", ".intercalate (parameters.map parameterText)

/-- A declaration on one line: with its parameters if it takes any, or else with its type. -/
def summary (n : Node) : String :=
  if n.parameters.isSome then n.nameText ++ "(" ++ parameterTexts n.parameterNodes ++ ")"
  else
    match n.typeString? with
    | some type => type ++ " " ++ n.nameText
    | none => n.nameText

def signature (n : Node) : String :=
  let head :=
    if n.constructs then "constructor"
    else if n.nameText.isEmpty then "function"
    else "function " ++ n.nameText
  let visibility := (n.visibility.map (" " ++ ·)).getD ""
  let returns :=
    if n.returnNodes.isEmpty then "" else " returns (" ++ parameterTexts n.returnNodes ++ ")"
  head ++ "(" ++ parameterTexts n.parameterNodes ++ ")" ++ visibility ++ returns

/-- The part of a page about a function. -/
def functionBlock (site : Site) (n : Node) : String :=
  let overridden := n.overriddenLine site.settings.messages site.contracts
  let notice := (Natspec.parse n.documentationText).notice
  "\n\n".intercalate (
    ["### " ++ n.heading] ++ (if overridden.isEmpty then [] else [overridden]) ++
      (if notice.isEmpty then [] else [notice]) ++ ["```solidity\n" ++ n.signature ++ "\n```"])

end Node

namespace Contract

def natspec (c : Contract) : Natspec :=
  (c.definition?.map fun n => Natspec.parse n.documentationText).getD ⟨[]⟩

/-- The title of the page: the title in the comment, if any, and the name of the source. -/
def pageTitle (c : Contract) : String :=
  match c.natspec.title? with
  | some title => singleLine title ++ " (" ++ c.contractName ++ ".sol)"
  | none => c.contractName ++ ".sol"

/-- A list of declarations under a title; empty without declarations. -/
def memberSection (title : String) (nodes : List Node) : Option String :=
  if nodes.isEmpty then none
  else
    some ("**" ++ title ++ "**\n\n" ++
      "\n".intercalate (nodes.map fun n => "- `" ++ n.summary ++ "`"))

def memberSections (c : Contract) : String :=
  "\n\n".intercalate ([
    memberSection "Constants & Variables" c.members,
    memberSection "Events" c.events,
    memberSection "Modifiers" c.modifiers,
    memberSection "Structs" c.structs,
    memberSection "Enums" c.enums].filterMap id)

/-- The functions that are no constructors. -/
def plainFunctions (c : Contract) : List Node :=
  c.functions.filter (!·.constructs)

def constructorSection (site : Site) (c : Contract) : String :=
  match c.constructor? with
  | some n => "## Constructor\n\n" ++ n.functionBlock site
  | none => ""

def functionsSection (site : Site) (c : Contract) : String :=
  match c.plainFunctions.map (·.functionBlock site) with
  | [] => ""
  | blocks => "## Functions\n\n" ++ "\n\n".intercalate blocks

def abiSection (site : Site) (c : Contract) : String :=
  if !site.settings.output.includeAbi || c.abi.isNull then ""
  else "## ABI\n\n```json\n" ++ c.abi.prettyText ++ "\n```"

end Contract

namespace Site

/-- The values for a contract's page, in the order in which they are filled in. -/
def values (site : Site) (c : Contract) : List (String × String) := [
  ("ContractName", c.contractName),
  ("ContractTitle", c.pageTitle),
  ("ContractDescription", c.natspec.notice),
  ("ContractInheritancePath",
    c.extendsLine site.settings.messages site.settings.lookupMode site.contracts),
  ("ContractImplementations", c.derivedLine site.settings.messages site.contracts),
  ("ContractMembers", c.memberSections),
  ("Constructor", c.constructorSection site),
  ("Functions", c.functionsSection site),
  ("AllContractsAnchor", contractLinks site.contracts),
  ("ABI", c.abiSection site)]

/-- Fills values into a template one after the other, so that a placeholder inside a value
is filled by the values that come later. -/
def fill (template : String) (values : List (String × String)) : String :=
  values.foldl (fun page (name, value) => Text.replace page (placeholder name) value) template

/-- The page of a contract. -/
def render (site : Site) (c : Contract) : String :=
  Text.tidy (fill site.template (site.values c))

/-- What is logged when a contract's page is made. -/
def renderLog (site : Site) (c : Contract) : List LogLine :=
  c.extendsLog site.settings.lookupMode site.contracts ++
    (c.constructor?.toList ++ c.plainFunctions).flatMap (·.overridersLog site.contracts)

/-- The page that lists all contracts. -/
def renderIndex (site : Site) : String :=
  Text.tidy ("# Contracts\n\n" ++ contractLinks site.contracts ++ "\n")

end Site

end ContractDocs
