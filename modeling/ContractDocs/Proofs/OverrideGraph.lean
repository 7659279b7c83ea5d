import ContractDocs.Proofs.Preorder
import Mathlib.Data.Finset.Card
import Mathlib.Logic.Relation

/-! The graph of overrides. An edge leads from a function to a node that overrides it in one
step. Only finitely many ids can be reached, so without a cycle each step leaves fewer of
them, and the paths are no longer than the forest has nodes. -/

namespace ContractDocs

open Relation

def DirectOverride (contracts : List Contract) (target id : Int) : Prop :=
  ∃ c ∈ contracts, ∃ n ∈ preorder c.declarations,
    n.id = some id ∧ id ≠ 0 ∧ target ∈ n.overriddenIds

abbrev OverrideReachable (contracts : List Contract) :=
  ReflTransGen (DirectOverride contracts)

def CycleReachable (contracts : List Contract) (root : Int) : Prop :=
  ∃ id, OverrideReachable contracts root id ∧ TransGen (DirectOverride contracts) id id

theorem nodeId?_eq_some {n : Node} {id : Int} :
    n.nodeId? = some id ↔ n.id = some id ∧ id ≠ 0 := by
  simp [Node.nodeId?, Option.filter_eq_some_iff]

theorem overrides_iff {n : Node} {target : Int} :
    n.overrides target = true ↔ target ∈ n.overriddenIds := by
  simp [Node.overrides]

theorem overrideOf?_eq_some {n : Node} {target id : Int} :
    overrideOf? target n = some id ↔
      n.id = some id ∧ id ≠ 0 ∧ target ∈ n.overriddenIds := by
  rw [overrideOf?, Option.filter_eq_some_iff, nodeId?_eq_some, overrides_iff, and_assoc]

theorem mem_directOverrides {contracts : List Contract} {target id : Int} :
    id ∈ directOverrides (forest contracts) target ↔ DirectOverride contracts target id := by
  simp only [directOverrides, List.mem_filterMap, mem_forest, overrideOf?_eq_some]
  constructor
  · rintro ⟨n, ⟨c, hc, hn⟩, h⟩
    exact ⟨c, hc, n, hn, h⟩
  · rintro ⟨c, hc, n, hn, h⟩
    exact ⟨n, ⟨c, hc, hn⟩, h⟩

theorem cycleReachable_iff_exists {contracts : List Contract} {target : Int} :
    CycleReachable contracts target ↔
      ∃ id, DirectOverride contracts target id ∧ CycleReachable contracts id := by
  constructor
  · rintro ⟨id, hreach, hcycle⟩
    obtain rfl | ⟨next, hstep, hrest⟩ := hreach.cases_head
    -- on the cycle itself the first step goes round it
    · obtain ⟨next, hstep, hback⟩ := TransGen.head'_iff.mp hcycle
      exact ⟨next, hstep, target, hback, hcycle⟩
    · exact ⟨next, hstep, id, hrest, hcycle⟩
  · rintro ⟨next, hstep, id, hreach, hcycle⟩
    exact ⟨id, hreach.head hstep, hcycle⟩

theorem not_cycleReachable_of_reachable {contracts : List Contract} {root id : Int}
    (h : ¬ CycleReachable contracts root) (hreach : OverrideReachable contracts root id) :
    ¬ CycleReachable contracts id := by
  rintro ⟨back, hid, hcycle⟩
  exact h ⟨back, hreach.trans hid, hcycle⟩

open Classical in
noncomputable def descendants (contracts : List Contract) (target : Int) : Finset Int :=
  ((forest contracts).filterMap (·.id)).toFinset.filter
    (TransGen (DirectOverride contracts) target)

theorem mem_descendants {contracts : List Contract} {target id : Int} :
    id ∈ descendants contracts target ↔ TransGen (DirectOverride contracts) target id := by
  classical
  rw [descendants, Finset.mem_filter]
  refine ⟨And.right, fun h => ⟨?_, h⟩⟩
  obtain ⟨_, _, c, hc, n, hn, hid, _⟩ := TransGen.tail'_iff.mp h
  exact List.mem_toFinset.mpr (List.mem_filterMap.mpr ⟨n, mem_forest.mpr ⟨c, hc, hn⟩, hid⟩)

theorem card_descendants_le (contracts : List Contract) (target : Int) :
    (descendants contracts target).card ≤ (forest contracts).length := by
  classical
  calc (descendants contracts target).card
      ≤ ((forest contracts).filterMap (·.id)).toFinset.card := Finset.card_filter_le _ _
    _ ≤ ((forest contracts).filterMap (·.id)).length := List.toFinset_card_le _
    _ ≤ (forest contracts).length := List.length_filterMap_le _ _

theorem card_descendants_lt {contracts : List Contract} {target id : Int}
    (h : ¬ CycleReachable contracts target) (hstep : DirectOverride contracts target id) :
    (descendants contracts id).card < (descendants contracts target).card := by
  apply Finset.card_lt_card
  refine (Finset.ssubset_iff_of_subset ?_).mpr
    ⟨id, mem_descendants.mpr (.single hstep), fun hid => ?_⟩
  · intro j hj
    exact mem_descendants.mpr (.head hstep (mem_descendants.mp hj))
  · exact h ⟨id, .single hstep, mem_descendants.mp hid⟩

theorem acc_of_not_cycleReachable {contracts : List Contract} {root : Int}
    (h : ¬ CycleReachable contracts root) :
    Acc (fun id target => DirectOverride contracts target id) root := by
  induction hc : (descendants contracts root).card using Nat.strongRecOn generalizing root with
  | ind k ih =>
    refine Acc.intro root fun id hstep => ?_
    have hlt := card_descendants_lt h hstep
    exact ih _ (hc ▸ hlt) (not_cycleReachable_of_reachable h (.single hstep)) rfl

theorem not_cycleReachable_of_increasing {contracts : List Contract} (root : Int)
    (h : ∀ n ∈ forest contracts, ∀ id ∈ n.nodeId?, ∀ target ∈ n.overriddenIds, target < id) :
    ¬ CycleReachable contracts root := by
  -- a path of overrides only goes up
  have hstep : ∀ {target id}, DirectOverride contracts target id → target < id := by
    rintro target id ⟨c, hc, n, hn, hid, hne, ht⟩
    exact h n (mem_forest.mpr ⟨c, hc, hn⟩) id (nodeId?_eq_some.mpr ⟨hid, hne⟩) target ht
  have hlt : ∀ {target id}, TransGen (DirectOverride contracts) target id → target < id := by
    intro target id hpath
    induction hpath with
    | single hfirst => exact hstep hfirst
    | tail _ hlast ih => exact ih.trans (hstep hlast)
  rintro ⟨id, _, hcycle⟩
  exact lt_irrefl id (hlt hcycle)

/-- Two overrides of one function, an override of both of these, and in its body two more
without a proper id. -/
def diamond : List Contract :=
  let function (id : Option Int) (overridden : List Int) : Node :=
    { id, nodeType := some .functionDefinition, baseFunctions := some overridden }
  let inner : Node := { nodes := some [function none [3, 77], function (some 0) [5]] }
  [{ contractName := "Base", ast := { nodes := some [function (some 1) []] } },
    { contractName := "Left", ast := { nodes := some [function (some 2) [1]] } },
    { contractName := "Right", ast := { nodes := some [function (some 3) [1, 1]] } },
    { contractName := "Top",
      ast := { nodes := some [{ function (some 5) [2, 3] with body := some inner }] } }]

theorem diamond_acyclic : ¬ CycleReachable diamond 1 := by
  refine not_cycleReachable_of_increasing 1 ?_
  simp [forest, declarations, diamond, Contract.declarations, Node.children, Node.overriddenIds,
    Node.nodeId?]

/-- More depth finds nothing new once every descendant has had its turn. -/
theorem overridesWithin_succ {contracts : List Contract} {target : Int} {depth : Nat}
    (h : ¬ CycleReachable contracts target)
    (hdepth : (descendants contracts target).card ≤ depth) :
    overridesWithin (forest contracts) (depth + 1) target =
      overridesWithin (forest contracts) depth target := by
  induction depth generalizing target with
  | zero =>
    -- a direct override would be a descendant
    have hnone : directOverrides (forest contracts) target = [] := by
      apply List.eq_nil_iff_forall_not_mem.mpr
      intro id hid
      have hlt := card_descendants_lt h (mem_directOverrides.mp hid)
      omega
    simp [overridesWithin, hnone]
  | succ depth ih =>
    rw [overridesWithin, overridesWithin]
    congr 1
    apply List.flatMap_congr
    intro id hid
    have hstep := mem_directOverrides.mp hid
    have hlt := card_descendants_lt h hstep
    exact ih (not_cycleReachable_of_reachable h (.single hstep)) (by omega)

theorem overrideClosure_eq {contracts : List Contract} {target : Int}
    (h : ¬ CycleReachable contracts target) :
    overrideClosure contracts target =
      target :: (directOverrides (forest contracts) target).flatMap (overrideClosure contracts) :=
  (overridesWithin_succ h (card_descendants_le contracts target)).symm

theorem mem_overrideClosure {contracts : List Contract} {root id : Int}
    (h : ¬ CycleReachable contracts root) :
    id ∈ overrideClosure contracts root ↔ OverrideReachable contracts root id := by
  induction acc_of_not_cycleReachable h with
  | intro target _ ih =>
    have hnext : ∀ {j}, DirectOverride contracts target j → ¬ CycleReachable contracts j :=
      fun hstep => not_cycleReachable_of_reachable h (.single hstep)
    rw [overrideClosure_eq h, List.mem_cons, List.mem_flatMap]
    refine Iff.trans ?_ ReflTransGen.cases_head_iff.symm
    constructor
    · rintro (rfl | ⟨j, hj, hid⟩)
      · exact .inl rfl
      · have hstep := mem_directOverrides.mp hj
        exact .inr ⟨j, hstep, (ih j hstep (hnext hstep)).mp hid⟩
    · rintro (rfl | ⟨j, hstep, hid⟩)
      · exact .inl rfl
      · exact .inr ⟨j, mem_directOverrides.mpr hstep, (ih j hstep (hnext hstep)).mpr hid⟩

end ContractDocs
