import ContractDocs.Contract
import ContractDocs.Walk.Levels

/-! Declarations of a contract by their role. Only top-level declarations and their
children, the members of a contract definition, are looked at. -/

namespace ContractDocs

/-- How far below the top level a declaration may stand. -/
def declarationDepth : Nat := 1

namespace Contract

/-- Top-level declarations, then the nested ones, each in document order. -/
def nearDeclarations (c : Contract) : List Node :=
  (Levels.ofRoots declarationDepth c.declarations).toList

def declarationsWhere (c : Contract) (p : Node → Bool) : List Node :=
  c.nearDeclarations.filter p

def declarationWhere? (c : Contract) (p : Node → Bool) : Option Node :=
  c.nearDeclarations.find? p

def declarationsOfKind (c : Contract) (kind : NodeKind) : List Node :=
  c.declarationsWhere (·.is kind)

/-- The definition of the contract: the one with its name, or else the first plain contract. -/
def definition? (c : Contract) : Option Node :=
  (c.declarationWhere? fun n => n.contractKind.isSome && n.name == some c.contractName) <|>
    c.declarationWhere? fun n => n.contractKind == some "contract"

/-- The inheritance list of the contract's own definition, or else of the first declaration
that has one. -/
def baseContracts (c : Contract) : List BaseContract :=
  let own := c.declarationWhere? fun n => n.is .contractDefinition && n.name == some c.contractName
  ((own <|> c.declarationWhere? Node.declaresBases).map (·.bases)).getD []

/-- Whether the inheritance list names a contract. -/
def extendsName (c : Contract) (name : String) : Bool :=
  c.baseContracts.any (·.name? == some name)

/-- The contracts whose inheritance lists name this one. -/
def derivedContracts (c : Contract) (contracts : List Contract) : List Contract :=
  contracts.filter (·.extendsName c.contractName)

def constructor? (c : Contract) : Option Node :=
  c.declarationWhere? Node.constructs

/-- State variables of all contract definitions of the compilation unit. -/
def members (c : Contract) : List Node :=
  ((c.declarations.filter (·.is .contractDefinition)).flatMap Node.children).filter
    (·.is .variableDeclaration)

def functions (c : Contract) : List Node :=
  c.declarationsOfKind .functionDefinition

def events (c : Contract) : List Node :=
  c.declarationsOfKind .eventDefinition

def modifiers (c : Contract) : List Node :=
  c.declarationsOfKind .modifierDefinition

def structs (c : Contract) : List Node :=
  c.declarationsOfKind .structDefinition

def enums (c : Contract) : List Node :=
  c.declarationsOfKind .enumDefinition

end Contract

end ContractDocs
