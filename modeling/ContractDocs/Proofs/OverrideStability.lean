import ContractDocs.Proofs.OverridingNodes
import Mathlib.Data.List.Flatten
import Mathlib.Data.List.Perm.Basic

/-! The overrides of a function after a change of the list of contracts. Another order of the
contracts changes the order of what is found and nothing else, and more contracts add to what is
found and leave the rest in its order. -/

namespace ContractDocs

open Relation

variable {contracts others : List Contract}

theorem DirectOverride.mono (hsub : contracts ⊆ others) {target id : Int}
    (h : DirectOverride contracts target id) : DirectOverride others target id := by
  obtain ⟨c, hc, hn⟩ := h
  exact ⟨c, hsub hc, hn⟩

theorem CycleReachable.mono (hsub : contracts ⊆ others) {root : Int}
    (h : CycleReachable contracts root) : CycleReachable others root := by
  obtain ⟨id, hreach, hcycle⟩ := h
  have hstep : ∀ target next, DirectOverride contracts target next →
      DirectOverride others target next := fun _ _ => DirectOverride.mono hsub
  exact ⟨id, ReflTransGen.mono hstep _ _ hreach, TransGen.mono hstep _ _ hcycle⟩

theorem directOverrides_perm (hperm : contracts.Perm others) (target : Int) :
    (directOverrides (forest contracts) target).Perm (directOverrides (forest others) target) := by
  have hforest : (forest contracts).Perm (forest others) := by
    rw [forest_eq_flatMap, forest_eq_flatMap]
    exact hperm.flatMap_right _
  exact hforest.filterMap _

theorem overrideClosure_perm (hperm : contracts.Perm others) {root : Int}
    (h : ¬ CycleReachable contracts root) :
    (overrideClosure contracts root).Perm (overrideClosure others root) := by
  induction acc_of_not_cycleReachable h with
  | intro target _ ih =>
    have hothers : ¬ CycleReachable others target := fun hc => h (hc.mono hperm.symm.subset)
    rw [overrideClosure_eq h, overrideClosure_eq hothers]
    refine List.Perm.cons target ((directOverrides_perm hperm target).flatMap ?_)
    intro id hid
    have hstep := mem_directOverrides.mp hid
    exact ih id hstep (not_cycleReachable_of_reachable h (.single hstep))

theorem overridingNodes_perm (hperm : contracts.Perm others) {root : Int}
    (h : ¬ CycleReachable contracts root) :
    (overridingNodes contracts root).Perm (overridingNodes others root) := by
  have hplaces : (occurrences contracts).Perm (occurrences others) := hperm.flatMap_right _
  have hclosure := overrideClosure_perm hperm h
  have hsame : ∀ l : Located,
      l.node.overridesAny (overrideClosure contracts root).eraseDups =
        l.node.overridesAny (overrideClosure others root).eraseDups := by
    intro l
    rw [Bool.eq_iff_iff]
    simp only [overridesAny_iff, List.mem_eraseDups, hclosure.mem_iff]
  rw [overridingNodes_eq, overridingNodes_eq]
  simp only [hsame]
  exact hplaces.filter _

theorem directOverrides_sublist (hsub : contracts.Sublist others) (target : Int) :
    (directOverrides (forest contracts) target).Sublist
      (directOverrides (forest others) target) := by
  have hforest : (forest contracts).Sublist (forest others) := by
    rw [forest_eq_flatMap, forest_eq_flatMap]
    exact hsub.flatMap _
  exact hforest.filterMap _

theorem overrideClosure_sublist (hsub : contracts.Sublist others) {root : Int}
    (h : ¬ CycleReachable others root) :
    (overrideClosure contracts root).Sublist (overrideClosure others root) := by
  -- by recursion in the larger graph, which has every step of the smaller one
  induction acc_of_not_cycleReachable h with
  | intro target _ ih =>
    have hcontracts : ¬ CycleReachable contracts target := fun hc => h (hc.mono hsub.subset)
    rw [overrideClosure_eq h, overrideClosure_eq hcontracts]
    refine List.Sublist.cons_cons target (List.Sublist.trans ?_
      ((directOverrides_sublist hsub target).flatMap _))
    refine List.Sublist.flatMap_right _ fun id hid => ?_
    have hstep := (mem_directOverrides.mp hid).mono hsub.subset
    exact ih id hstep (not_cycleReachable_of_reachable h (.single hstep))

theorem overridingNodes_sublist (hsub : contracts.Sublist others) {root : Int}
    (h : ¬ CycleReachable others root) :
    (overridingNodes contracts root).Sublist (overridingNodes others root) := by
  have hplaces : (occurrences contracts).Sublist (occurrences others) := hsub.flatMap _
  have hclosure := (overrideClosure_sublist hsub h).subset
  rw [overridingNodes_eq, overridingNodes_eq]
  exact (List.monotone_filter_right _ fun _ => overridesAny_mono hclosure).trans (hplaces.filter _)

/-- In another order the contracts have the same overrides, each as often as before. Contracts
that are added behind them take nothing away, even where they bring further nodes of the old
ones into the result. -/
theorem overrides_of_changed_contracts {root : Int} (h : ¬ CycleReachable contracts root) :
    (∀ others, contracts.Perm others → ∃ ids ids',
        GivesAll OverrideWalk.next? (OverrideWalk.start contracts root) ids ∧
        GivesAll OverrideWalk.next? (OverrideWalk.start others root) ids' ∧ ids.Perm ids' ∧
        (overridingNodes contracts root).Perm (overridingNodes others root)) ∧
      ∀ more, ¬ CycleReachable (contracts ++ more) root → ∃ ids ids',
        GivesAll OverrideWalk.next? (OverrideWalk.start contracts root) ids ∧
        GivesAll OverrideWalk.next? (OverrideWalk.start (contracts ++ more) root) ids' ∧
        ids.Sublist ids' ∧
        (overridingNodes contracts root).Sublist (overridingNodes (contracts ++ more) root) := by
  constructor
  · intro others hperm
    have hothers : ¬ CycleReachable others root := fun hc => h (hc.mono hperm.symm.subset)
    exact ⟨_, _, OverrideWalk.start_givesAll h, OverrideWalk.start_givesAll hothers,
      overrideClosure_perm hperm h, overridingNodes_perm hperm h⟩
  · intro more hmore
    have hsub : contracts.Sublist (contracts ++ more) := List.sublist_append_left contracts more
    exact ⟨_, _, OverrideWalk.start_givesAll h, OverrideWalk.start_givesAll hmore,
      overrideClosure_sublist hsub hmore, overridingNodes_sublist hsub hmore⟩

def contractWith (name : String) (id : Int) (overridden : List Int) : Contract where
  contractName := name
  ast := {
    nodes := some [{
      id := some id
      nodeType := some .functionDefinition
      baseFunctions := some overridden }] }

/-- `Leaf` overrides a function that is missing. -/
def withoutMiddle : List Contract :=
  [contractWith "Base" 1 [], contractWith "Leaf" 3 [2], contractWith "Side" 4 [1]]

/-- With the missing function, `Leaf` overrides the one of `Base` too. -/
def middle : Contract := contractWith "Middle" 2 [1]

theorem withMiddle_acyclic : ¬ CycleReachable (withoutMiddle ++ [middle]) 1 := by
  refine not_cycleReachable_of_increasing 1 ?_
  simp [forest, declarations, withoutMiddle, middle, contractWith, Contract.declarations,
    Node.children, Node.overriddenIds, Node.nodeId?]

theorem overrides_of_changed_middle :
    (¬ CycleReachable withoutMiddle 1 ∧ withoutMiddle.Perm withoutMiddle.reverse ∧
      ¬ CycleReachable (withoutMiddle ++ [middle]) 1) ∧
      GivesAll OverrideWalk.next? (OverrideWalk.start withoutMiddle 1) [1, 4] ∧
      GivesAll OverrideWalk.next? (OverrideWalk.start (withoutMiddle ++ [middle]) 1) [1, 4, 2, 3] ∧
      (∃ ids, GivesAll OverrideWalk.next? (OverrideWalk.start withoutMiddle.reverse 1) ids ∧
        ids.Perm [1, 4]) ∧
      ([1, 4] : List Int).Sublist [1, 4, 2, 3] ∧
      (overridingNodes withoutMiddle 1).map (·.node.id) = [some 4] ∧
      (overridingNodes (withoutMiddle ++ [middle]) 1).map (·.node.id) =
        [some 3, some 4, some 2] ∧
      (overridingNodes withoutMiddle 1).Perm (overridingNodes withoutMiddle.reverse 1) ∧
      (overridingNodes withoutMiddle 1).Sublist
        (overridingNodes (withoutMiddle ++ [middle]) 1) := by
  have hacyclic : ¬ CycleReachable withoutMiddle 1 :=
    fun hc => withMiddle_acyclic (hc.mono (List.subset_append_left _ _))
  have hperm : withoutMiddle.Perm withoutMiddle.reverse := (List.reverse_perm _).symm
  obtain ⟨hreordered, hextended⟩ := overrides_of_changed_contracts hacyclic
  have hids : overrideClosure withoutMiddle 1 = [1, 4] := by decide +kernel
  have hmore : overrideClosure (withoutMiddle ++ [middle]) 1 = [1, 4, 2, 3] := by decide +kernel
  have hbefore := OverrideWalk.start_givesAll hacyclic
  have hafter := OverrideWalk.start_givesAll withMiddle_acyclic
  rw [hids] at hbefore
  rw [hmore] at hafter
  obtain ⟨ids, ids', hgives, hgives', hpermuted, hsame⟩ := hreordered _ hperm
  obtain rfl := hgives.unique hbefore
  obtain ⟨ids, others, hgives, hothers, hsublist, hkept⟩ := hextended [middle] withMiddle_acyclic
  obtain rfl := hgives.unique hbefore
  obtain rfl := hothers.unique hafter
  exact ⟨⟨hacyclic, hperm, withMiddle_acyclic⟩, hbefore, hafter, ⟨ids', hgives', hpermuted.symm⟩,
    hsublist, by decide +kernel, by decide +kernel, hsame, hkept⟩

end ContractDocs
