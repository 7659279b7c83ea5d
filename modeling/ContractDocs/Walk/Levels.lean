import ContractDocs.Walk.Weight

/-! Breadth-first walks down to a given depth: the roots, then their children, and so on,
each level in document order. -/

namespace ContractDocs

/-- A walk in progress: the nodes to be visited, next one first, with their depths. -/
structure Levels where
  queue : List (Node × Nat)
  maxDepth : Nat

namespace Levels

def ofRoots (maxDepth : Nat) (roots : List Node) : Levels :=
  ⟨roots.map (·, 0), maxDepth⟩

def next? (l : Levels) : Option (Node × Levels) :=
  match l.queue with
  | [] => none
  | (n, depth) :: rest =>
    let below := if depth < l.maxDepth then n.children.map (·, depth + 1) else []
    some (n, ⟨rest ++ below, l.maxDepth⟩)

theorem weight_next {l m : Levels} {n : Node} (h : l.next? = some (n, m)) :
    weight (m.queue.map (·.1)) < weight (l.queue.map (·.1)) := by
  obtain ⟨_ | ⟨⟨k, depth⟩, rest⟩, maxDepth⟩ := l
  · simp [next?] at h
  · simp only [next?, Option.some.injEq, Prod.mk.injEq] at h
    obtain ⟨rfl, rfl⟩ := h
    have := weight_children_lt k
    have hmap : k.children.map ((·.1) ∘ fun c => (c, depth + 1)) = k.children :=
      List.map_id k.children
    split <;> simp only [List.map_append, List.map_map, List.map_cons,
      List.append_nil, weight_append, weight_cons, hmap] <;> omega

/-- All nodes that are still to come. -/
def toList (l : Levels) : List Node :=
  match _ : l.next? with
  | none => []
  | some (n, m) => n :: m.toList
termination_by weight (l.queue.map (·.1))
decreasing_by exact weight_next ‹_›

end Levels

end ContractDocs
