import ContractDocs.Node.Kind

/-! Nodes of a compiled contract's syntax tree. One record serves every kind of node, so
every field is optional, and an absent list reads as an empty one. -/

namespace ContractDocs

structure BaseName where
  name : Option String := none
  referencedDeclaration : Option Int := none
deriving DecidableEq, Repr, Inhabited

/-- One entry of a contract's inheritance list. -/
structure BaseContract where
  id : Option Int := none
  baseName : Option BaseName := none
deriving DecidableEq, Repr, Inhabited

structure TypeDescriptions where
  typeString : Option String := none
deriving DecidableEq, Repr, Inhabited

/-- The comment above a declaration. Older compilers give its text, newer ones a node
around it. -/
inductive Documentation where
  | raw (text : String)
  | structured (text : Option String)
deriving DecidableEq, Repr, Inhabited

structure ParameterList (ν : Type) where
  parameters : Option (List ν) := none

structure Node where
  id : Option Int := none
  nodeType : Option NodeKind := none
  name : Option String := none
  nodes : Option (List Node) := none
  /-- Its own `nodes` count as children of this node. -/
  body : Option Node := none
  superFunction : Option Int := none
  /-- Newer compilers give all overridden functions here instead of `superFunction`. -/
  baseFunctions : Option (List Int) := none
  isConstructor : Option Bool := none
  /-- What a function is on newer compilers, such as `constructor`. -/
  kind : Option String := none
  contractKind : Option String := none
  baseContracts : Option (List BaseContract) := none
  parameters : Option (ParameterList Node) := none
  returnParameters : Option (ParameterList Node) := none
  documentation : Option Documentation := none
  visibility : Option String := none
  typeDescriptions : Option TypeDescriptions := none

instance : Inhabited Node := ⟨{}⟩

def Documentation.text : Documentation → String
  | raw text => text
  | structured text => text.getD ""

def BaseContract.name? (b : BaseContract) : Option String :=
  b.baseName.bind (·.name)

def ParameterList.toList {ν : Type} (l : ParameterList ν) : List ν :=
  l.parameters.getD []

namespace Node

/-- Plain children first, then those of the body. -/
def children (n : Node) : List Node :=
  n.nodes.getD [] ++ (n.body.bind (·.nodes)).getD []

def hasChildren (n : Node) : Bool :=
  !n.children.isEmpty

/-- The id, where zero is no id. -/
def nodeId? (n : Node) : Option Int :=
  n.id.filter (· ≠ 0)

def hasId (n : Node) (id : Int) : Bool :=
  n.id == some id

def is (n : Node) (kind : NodeKind) : Bool :=
  n.nodeType == some kind

def nameText (n : Node) : String :=
  n.name.getD ""

/-- Ids of the functions that this one overrides, one step only. -/
def overriddenIds (n : Node) : List Int :=
  n.superFunction.toList ++ n.baseFunctions.getD []

def overrides (n : Node) (target : Int) : Bool :=
  n.overriddenIds.contains target

def overridesAny (n : Node) (targets : List Int) : Bool :=
  n.overriddenIds.any (targets.contains ·)

def constructs (n : Node) : Bool :=
  n.isConstructor.getD false || n.kind == some "constructor"

def bases (n : Node) : List BaseContract :=
  n.baseContracts.getD []

def declaresBases (n : Node) : Bool :=
  !n.bases.isEmpty

def documentationText (n : Node) : String :=
  (n.documentation.map (·.text)).getD ""

def typeString? (n : Node) : Option String :=
  n.typeDescriptions.bind (·.typeString)

def parameterNodes (n : Node) : List Node :=
  (n.parameters.map (·.toList)).getD []

def returnNodes (n : Node) : List Node :=
  (n.returnParameters.map (·.toList)).getD []

private theorem sizeOf_append (xs ys : List Node) :
    sizeOf (xs ++ ys) + 1 = sizeOf xs + sizeOf ys := by
  induction xs with
  | nil => simp [Nat.add_comm]
  | cons x xs ih => simp only [List.cons_append, List.cons.sizeOf_spec]; omega

theorem sizeOf_children_lt (n : Node) : sizeOf n.children < sizeOf n := by
  obtain ⟨id, nodeType, name, nodes, body, rest⟩ := n
  have happend := sizeOf_append (nodes.getD []) ((body.bind (·.nodes)).getD [])
  have hnodes : sizeOf (nodes.getD []) ≤ sizeOf nodes := by cases nodes <;> simp
  have hbody : sizeOf ((body.bind (·.nodes)).getD []) ≤ sizeOf body := by
    cases body with
    | none => simp
    | some b =>
      obtain ⟨_, _, _, inner, _⟩ := b
      cases inner with
      | none => simp
      | some nodes => simp; omega
  simp only [children, mk.sizeOf_spec]
  omega

theorem sizeOf_lt_of_mem_children {n c : Node} (h : c ∈ n.children) : sizeOf c < sizeOf n :=
  Nat.lt_trans (List.sizeOf_lt_of_mem h) n.sizeOf_children_lt

end Node

end ContractDocs
