import ContractDocs.Proofs.OverrideWalk

/-! The nodes that override a function directly or through another override. The walk follows
only nodes with an id, while the list of results has the others too, so the two agree on the
ids but not on the nodes. -/

namespace ContractDocs

open Relation

/-- Every place where a node stands, contract by contract in document order. -/
def occurrences (contracts : List Contract) : List Located :=
  contracts.flatMap fun c => (preorder c.declarations).map fun n => ⟨c, n⟩

theorem mem_occurrences {contracts : List Contract} {l : Located} :
    l ∈ occurrences contracts ↔
      l.contract ∈ contracts ∧ l.node ∈ preorder l.contract.declarations := by
  obtain ⟨c, n⟩ := l
  simp only [occurrences, List.mem_flatMap, List.mem_map, Located.mk.injEq]
  constructor
  · rintro ⟨d, hd, m, hm, rfl, rfl⟩
    exact ⟨hd, hm⟩
  · rintro ⟨hc, hn⟩
    exact ⟨c, hc, n, hn, rfl, rfl⟩

theorem overridesAny_iff {n : Node} {targets : List Int} :
    n.overridesAny targets = true ↔ ∃ target ∈ n.overriddenIds, target ∈ targets := by
  simp [Node.overridesAny]

theorem overridesAny_mono {n : Node} {targets others : List Int} (hsub : targets ⊆ others)
    (h : n.overridesAny targets.eraseDups = true) : n.overridesAny others.eraseDups = true := by
  simp only [overridesAny_iff, List.mem_eraseDups] at h ⊢
  obtain ⟨target, ht, hmem⟩ := h
  exact ⟨target, ht, hsub hmem⟩

theorem overridesAny_closure {contracts : List Contract} {root : Int} {n : Node}
    (h : ¬ CycleReachable contracts root) :
    n.overridesAny (overrideClosure contracts root).eraseDups = true ↔
      ∃ target ∈ n.overriddenIds, OverrideReachable contracts root target := by
  simp only [overridesAny_iff, List.mem_eraseDups, mem_overrideClosure h]

theorem overridingNodes_eq (contracts : List Contract) (root : Int) :
    overridingNodes contracts root = (occurrences contracts).filter fun l =>
      l.node.overridesAny (overrideClosure contracts root).eraseDups := by
  simp only [overridingNodes, occurrences, List.filter_flatMap, List.filter_map]
  rfl

theorem mem_overridingNodes {contracts : List Contract} {root : Int} {l : Located}
    (h : ¬ CycleReachable contracts root) :
    l ∈ overridingNodes contracts root ↔ l ∈ occurrences contracts ∧
      ∃ target ∈ l.node.overriddenIds, OverrideReachable contracts root target := by
  rw [overridingNodes_eq, List.mem_filter, overridesAny_closure h]

theorem transGen_of_mem_overridingNodes {contracts : List Contract} {root id : Int}
    {l : Located} (h : ¬ CycleReachable contracts root) (hl : l ∈ overridingNodes contracts root)
    (hid : l.node.id = some id) (hne : id ≠ 0) :
    TransGen (DirectOverride contracts) root id := by
  obtain ⟨hplace, target, ht, hreach⟩ := (mem_overridingNodes h).mp hl
  obtain ⟨hc, hn⟩ := mem_occurrences.mp hplace
  have hstep : DirectOverride contracts target id :=
    ⟨l.contract, hc, l.node, hn, hid, hne, ht⟩
  exact TransGen.tail' hreach hstep

theorem exists_overridingNode {contracts : List Contract} {root id : Int}
    (h : ¬ CycleReachable contracts root) (hpath : TransGen (DirectOverride contracts) root id) :
    ∃ l ∈ overridingNodes contracts root, l.node.id = some id ∧ id ≠ 0 := by
  obtain ⟨target, hreach, c, hc, n, hn, hid, hne, ht⟩ := TransGen.tail'_iff.mp hpath
  refine ⟨⟨c, n⟩, (mem_overridingNodes h).mpr ⟨?_, target, ht, hreach⟩, hid, hne⟩
  exact mem_occurrences.mpr ⟨hc, hn⟩

open Classical in
/-- The results are the places of all nodes, with or without an id, that list a function which
is reached from `root`. None of them is `root` itself, and their ids are what the walk over the
overrides gives besides `root`. -/
theorem overridingNodes_eq_filter_reachable {contracts : List Contract} {root : Int}
    (h : ¬ CycleReachable contracts root) :
    overridingNodes contracts root = (occurrences contracts).filter (fun l =>
        ∃ target ∈ l.node.overriddenIds, OverrideReachable contracts root target) ∧
      (root ≠ 0 → ∀ l ∈ overridingNodes contracts root, l.node.id ≠ some root) ∧
      ∃ ids, GivesAll OverrideWalk.next? (OverrideWalk.start contracts root) ids ∧
        ∀ id, id ∈ ids ↔ id = root ∨
          ∃ l ∈ overridingNodes contracts root, l.node.id = some id ∧ id ≠ 0 := by
  refine ⟨?_, ?_, overrideClosure contracts root, OverrideWalk.start_givesAll h, fun id => ?_⟩
  · rw [overridingNodes_eq]
    apply List.filter_congr
    intro l _
    rw [Bool.eq_iff_iff, overridesAny_closure h, decide_eq_true_iff]
  -- a result with the id of the root would close a cycle
  · intro hne l hl hid
    exact h ⟨root, .refl, transGen_of_mem_overridingNodes h hl hid hne⟩
  · rw [mem_overrideClosure h]
    constructor
    · intro hreach
      rcases reflTransGen_iff_eq_or_transGen.mp hreach with heq | hpath
      · exact .inl heq
      · exact .inr (exists_overridingNode h hpath)
    · rintro (rfl | ⟨l, hl, hid, hne⟩)
      · exact .refl
      · exact (transGen_of_mem_overridingNodes h hl hid hne).to_reflTransGen

open Classical in
theorem overridingNodes_diamond :
    ¬ CycleReachable diamond 1 ∧
      (overridingNodes diamond 1).map (·.node.id) = [some 2, some 3, some 5, none, some 0] ∧
      overridingNodes diamond 1 = (occurrences diamond).filter (fun l =>
        ∃ target ∈ l.node.overriddenIds, OverrideReachable diamond 1 target) ∧
      (∀ l ∈ overridingNodes diamond 1, l.node.id ≠ some 1) ∧
      ∃ ids, GivesAll OverrideWalk.next? (OverrideWalk.start diamond 1) ids ∧
        ∀ id, id ∈ ids ↔ id = 1 ∨
          ∃ l ∈ overridingNodes diamond 1, l.node.id = some id ∧ id ≠ 0 := by
  obtain ⟨hresults, hroot, hids⟩ := overridingNodes_eq_filter_reachable diamond_acyclic
  exact ⟨diamond_acyclic, by cbv, hresults, hroot (by decide), hids⟩

end ContractDocs
