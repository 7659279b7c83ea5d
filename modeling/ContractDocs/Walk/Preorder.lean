import ContractDocs.Walk.Weight

/-! Depth-first walks in document order: a node comes before its children, and all its
descendants come before its next sibling. -/

namespace ContractDocs

/-- A walk in progress: the nodes to be visited, next one first, without their children. -/
structure Preorder where
  stack : List Node

namespace Preorder

def next? (p : Preorder) : Option (Node × Preorder) :=
  match p.stack with
  | [] => none
  | n :: rest => some (n, ⟨n.children ++ rest⟩)

theorem weight_next {p q : Preorder} {n : Node} (h : p.next? = some (n, q)) :
    weight q.stack < weight p.stack := by
  obtain ⟨_ | ⟨m, rest⟩⟩ := p
  · simp [next?] at h
  · simp only [next?, Option.some.injEq, Prod.mk.injEq] at h
    obtain ⟨rfl, rfl⟩ := h
    have := weight_children_lt m
    simp only [weight_append, weight_cons]
    omega

/-- All nodes that are still to come. -/
def toList (p : Preorder) : List Node :=
  match _ : p.next? with
  | none => []
  | some (n, q) => n :: q.toList
termination_by weight p.stack
decreasing_by exact weight_next ‹_›

/-- Walks up to the first node with a result, and gives that and the walk behind it. -/
def seek? {α : Type} (result : Node → Option α) (p : Preorder) : Option (α × Preorder) :=
  match _ : p.next? with
  | none => none
  | some (n, q) =>
    match result n with
    | some a => some (a, q)
    | none => q.seek? result
termination_by weight p.stack
decreasing_by exact weight_next ‹_›

end Preorder

/-- The nodes of a forest in document order. -/
def preorder (roots : List Node) : List Node :=
  (Preorder.mk roots).toList

end ContractDocs
