import ContractDocs.Contract
import ContractDocs.Log
import ContractDocs.Walk.Preorder

/-! Functions that override a function, in one step or through other overrides. -/

namespace ContractDocs

/-- All nodes of all contracts in document order. -/
def forest (contracts : List Contract) : List Node :=
  preorder (declarations contracts)

/-- The id of a node that overrides `target` in one step. -/
def overrideOf? (target : Int) (n : Node) : Option Int :=
  n.nodeId?.filter fun _ => n.overrides target

/-- Ids of the nodes that override `target` in one step, in document order. -/
def directOverrides (nodes : List Node) (target : Int) : List Int :=
  nodes.filterMap (overrideOf? target)

/-- The scan of the whole forest for overrides of one function. -/
structure OverrideFrame where
  target : Int
  walk : Preorder

/-- A depth-first walk over all overrides of a function. Each override that is found is
followed by its own overrides before the scan that found it goes on. The walk is endless
if the overrides form a cycle. -/
structure OverrideWalk where
  roots : List Node
  pending : Option Int
  frames : List OverrideFrame

namespace OverrideWalk

def start (contracts : List Contract) (function : Int) : OverrideWalk :=
  ⟨declarations contracts, some function, []⟩

/-- Resumes the topmost scan that still finds something, and gives what it finds and the
scans that are left. -/
def resume : List OverrideFrame → Option (Int × List OverrideFrame)
  | [] => none
  | f :: below =>
    match f.walk.seek? (overrideOf? f.target) with
    | some (id, walk) => some (id, { f with walk } :: below)
    | none => resume below

/-- The next id: the function itself first, then its overrides. -/
def next? (w : OverrideWalk) : Option (Int × OverrideWalk) :=
  let scan (id : Int) : OverrideFrame := ⟨id, ⟨w.roots⟩⟩
  match w.pending with
  | some root => some (root, { w with pending := none, frames := scan root :: w.frames })
  | none =>
    (resume w.frames).map fun (id, frames) => (id, { w with frames := scan id :: frames })

/-- Up to `n` of the next ids, and the walk behind them. -/
def take : Nat → OverrideWalk → List Int × OverrideWalk
  | 0, w => ([], w)
  | n + 1, w =>
    match w.next? with
    | none => ([], w)
    | some (id, v) =>
      let (ids, u) := take n v
      (id :: ids, u)

end OverrideWalk

/-- A function and its overrides along paths of at most `depth` steps. -/
def overridesWithin (nodes : List Node) : Nat → Int → List Int
  | 0, target => [target]
  | depth + 1, target =>
    target :: (directOverrides nodes target).flatMap (overridesWithin nodes depth)

/-- A function and everything that overrides it. An id stands once for each path that leads
to it. Without a cycle no path is longer than the forest has nodes, and the list is all that an
`OverrideWalk` gives. On a cycle the walk never ends, and the list, cut off at that length, stands
for no result. -/
def overrideClosure (contracts : List Contract) (function : Int) : List Int :=
  let nodes := forest contracts
  overridesWithin nodes nodes.length function

/-- The nodes that override a function directly or through another override, contract by
contract in document order. On a cycle the search for them never ends, and this list stands for no
result. -/
def overridingNodes (contracts : List Contract) (function : Int) : List Located :=
  let closure := (overrideClosure contracts function).eraseDups
  contracts.flatMap fun c =>
    ((preorder c.declarations).filter (·.overridesAny closure)).map fun n => ⟨c, n⟩

/-- What is logged when the overriding nodes are looked for. -/
def overridingNodesLog (contracts : List Contract) (function : Int) : List LogLine :=
  let size := (overrideClosure contracts function).eraseDups.length
  let count := (overridingNodes contracts function).length
  [⟨.debug, s!"[overrides] function {function}: closure of {size} ids, {count} overriding nodes"⟩]

end ContractDocs
