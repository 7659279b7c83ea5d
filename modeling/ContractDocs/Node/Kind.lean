/-! Kinds of syntax tree nodes. The compiler has many more than are told apart here; the
others keep their tag. -/

namespace ContractDocs

inductive NodeKind where
  | sourceUnit
  | pragmaDirective
  | importDirective
  | contractDefinition
  | functionDefinition
  | modifierDefinition
  | eventDefinition
  | structDefinition
  | enumDefinition
  | enumValue
  | variableDeclaration
  | usingForDirective
  | parameterList
  | block
  | inheritanceSpecifier
  | userDefinedTypeName
  | other (tag : String)
deriving DecidableEq, Repr, Inhabited

namespace NodeKind

/-- The kinds that are told apart, with their tags. -/
def known : List (String × NodeKind) := [
  ("SourceUnit", sourceUnit),
  ("PragmaDirective", pragmaDirective),
  ("ImportDirective", importDirective),
  ("ContractDefinition", contractDefinition),
  ("FunctionDefinition", functionDefinition),
  ("ModifierDefinition", modifierDefinition),
  ("EventDefinition", eventDefinition),
  ("StructDefinition", structDefinition),
  ("EnumDefinition", enumDefinition),
  ("EnumValue", enumValue),
  ("VariableDeclaration", variableDeclaration),
  ("UsingForDirective", usingForDirective),
  ("ParameterList", parameterList),
  ("Block", block),
  ("InheritanceSpecifier", inheritanceSpecifier),
  ("UserDefinedTypeName", userDefinedTypeName)]

def ofTag (tag : String) : NodeKind :=
  (known.lookup tag).getD (other tag)

def tag : NodeKind → String
  | sourceUnit => "SourceUnit"
  | pragmaDirective => "PragmaDirective"
  | importDirective => "ImportDirective"
  | contractDefinition => "ContractDefinition"
  | functionDefinition => "FunctionDefinition"
  | modifierDefinition => "ModifierDefinition"
  | eventDefinition => "EventDefinition"
  | structDefinition => "StructDefinition"
  | enumDefinition => "EnumDefinition"
  | enumValue => "EnumValue"
  | variableDeclaration => "VariableDeclaration"
  | usingForDirective => "UsingForDirective"
  | parameterList => "ParameterList"
  | block => "Block"
  | inheritanceSpecifier => "InheritanceSpecifier"
  | userDefinedTypeName => "UserDefinedTypeName"
  | other tag => tag

def isKnown : NodeKind → Bool
  | other _ => false
  | _ => true

end NodeKind

end ContractDocs
