import ContractDocs.Contract
import ContractDocs.Log
import ContractDocs.Walk.Preorder

/-! Finding a node by its id. -/

namespace ContractDocs

inductive LookupMode where
  /-- Visits every node until the id is found. -/
  | exhaustive
  /-- On each level, inspects nodes up to the first one with children and goes on with
  those children only. -/
  | firstBranch
deriving DecidableEq, Repr, Inhabited

namespace LookupMode

/-- The word for a mode in settings. -/
def name : LookupMode → String
  | exhaustive => "exhaustive"
  | firstBranch => "firstBranch"

/-- The word for a mode in log lines. -/
def label : LookupMode → String
  | exhaustive => "Exhaustive"
  | firstBranch => "FirstBranch"

end LookupMode

/-- Looks for an id on one level of a forest and then below its first node with children. -/
def findInFirstBranch (id : Int) (level : List Node) : Option Node :=
  match _ : level.find? fun n => n.hasId id || n.hasChildren with
  | none => none
  | some n => if n.hasId id then some n else findInFirstBranch id n.children
termination_by weight level
decreasing_by
  exact Nat.lt_of_lt_of_le (weight_children_lt n) (sizeOf_le_weight (List.mem_of_find?_eq_some ‹_›))

/-- Finds a node in a forest. A node's own id is looked at before its children. -/
def findNode (mode : LookupMode) (id : Int) (roots : List Node) : Option Node :=
  match mode with
  | .exhaustive => (preorder roots).find? (·.hasId id)
  | .firstBranch => findInFirstBranch id roots

/-- Finds a node in the first contract whose declarations hold it. -/
def locate (mode : LookupMode) (id : Int) (contracts : List Contract) : Option Located :=
  contracts.findSome? fun c => (findNode mode id c.declarations).map fun n => ⟨c, n⟩

/-- What is logged when a node is located. -/
def locateLog (mode : LookupMode) (id : Int) (contracts : List Contract) : List LogLine :=
  if (locate mode id contracts).isSome then []
  else [⟨.debug, s!"[lookup] node {id} not found in {contracts.length} contracts ({mode.label})"⟩]

end ContractDocs
