import ContractDocs.Node.Basic

/-! Every walk over nodes ends because the nodes that it still holds get lighter. -/

namespace ContractDocs

noncomputable def weight (nodes : List Node) : Nat :=
  nodes.foldr (fun n total => sizeOf n + total) 0

theorem weight_cons (n : Node) (nodes : List Node) :
    weight (n :: nodes) = sizeOf n + weight nodes := by
  simp [weight]

theorem weight_append (xs ys : List Node) : weight (xs ++ ys) = weight xs + weight ys := by
  induction xs with
  | nil => simp [weight]
  | cons x xs ih => simp only [List.cons_append, weight_cons, ih, Nat.add_assoc]

theorem weight_lt_sizeOf (nodes : List Node) : weight nodes < sizeOf nodes := by
  induction nodes with
  | nil => simp [weight]
  | cons n nodes ih => simp only [weight_cons, List.cons.sizeOf_spec]; omega

theorem weight_children_lt (n : Node) : weight n.children < sizeOf n :=
  Nat.lt_trans (weight_lt_sizeOf _) n.sizeOf_children_lt

theorem sizeOf_le_weight {n : Node} {nodes : List Node} (h : n ∈ nodes) :
    sizeOf n ≤ weight nodes := by
  induction nodes with
  | nil => simp at h
  | cons m nodes ih =>
    rw [weight_cons]
    rcases List.mem_cons.mp h with rfl | h
    · omega
    · have := ih h; omega

end ContractDocs
