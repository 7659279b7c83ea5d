import ContractDocs.Declaration

/-! A walk by levels finishes one level while it collects the next one. -/

namespace ContractDocs

namespace Levels

@[simp] theorem toList_nil (maxDepth : Nat) : (Levels.mk [] maxDepth).toList = [] := by
  rw [toList]; rfl

theorem toList_cons (n : Node) (depth maxDepth : Nat) (rest : List (Node × Nat)) :
    (Levels.mk ((n, depth) :: rest) maxDepth).toList = n :: (Levels.mk (rest ++
      if depth < maxDepth then n.children.map (·, depth + 1) else []) maxDepth).toList := by
  rw [toList]; rfl

/-- The nodes of one level in front, and behind them those of the next level so far. -/
theorem toList_level (nodes found : List Node) (depth maxDepth : Nat) :
    (Levels.mk (nodes.map (·, depth) ++ found.map (·, depth + 1)) maxDepth).toList =
      nodes ++ (Levels.mk ((found ++
        if depth < maxDepth then nodes.flatMap Node.children else []).map (·, depth + 1))
          maxDepth).toList := by
  induction nodes generalizing found with
  | nil => simp
  | cons n nodes ih =>
    rw [List.map_cons, List.cons_append, toList_cons, List.append_assoc, List.cons_append]
    congr 1
    by_cases hdepth : depth < maxDepth
    · have hh := ih (found ++ n.children)
      simp only [hdepth, if_true, List.map_append, List.append_assoc] at hh ⊢
      rw [hh, List.flatMap_cons, List.map_append]
    · have hh := ih found
      simpa only [hdepth, if_false, List.append_nil] using hh

end Levels

theorem Contract.nearDeclarations_eq (c : Contract) :
    c.nearDeclarations = c.declarations ++ c.declarations.flatMap Node.children := by
  have hroots := Levels.toList_level c.declarations [] 0 1
  have hbelow := Levels.toList_level (c.declarations.flatMap Node.children) [] 1 1
  simp only [List.map_nil, List.append_nil, List.nil_append, Nat.zero_lt_one, if_true,
    Nat.lt_irrefl, if_false, Levels.toList_nil] at hroots hbelow
  rw [hbelow] at hroots
  exact hroots

theorem Contract.mem_nearDeclarations {c : Contract} {n : Node} :
    n ∈ c.nearDeclarations ↔ n ∈ c.declarations ∨ ∃ d ∈ c.declarations, n ∈ d.children := by
  rw [nearDeclarations_eq, List.mem_append, List.mem_flatMap]

end ContractDocs
