import ContractDocs.Proofs.OverrideWalk
import Mathlib.Data.List.Chain
import Mathlib.Data.List.FinRange
import Mathlib.Data.Set.Card

/-! How often a walk over overrides gives an id. Each path of overrides that leads to the id counts
once. Paths go through places of the forest, so two nodes with one id make two paths, and a node
that lists a function twice makes one. -/

namespace ContractDocs

/-- The nodes at these places lead from `root` to `id`: the first one lists `root`, every other one
lists the id of the node before it, and the last one has the id `id`. -/
structure OverridePath (nodes : List Node) (root id : Int) (path : List (Fin nodes.length)) :
    Prop where
  ids : ∀ i ∈ path, ∃ own, (nodes.get i).id = some own ∧ own ≠ 0
  first : ∃ i ∈ path.head?, root ∈ (nodes.get i).overriddenIds
  steps : path.IsChain fun i k =>
    ∃ own, (nodes.get i).id = some own ∧ own ∈ (nodes.get k).overriddenIds
  last : ∃ i ∈ path.getLast?, (nodes.get i).id = some id

theorem overridePath_singleton {nodes : List Node} {root id : Int} {i : Fin nodes.length} :
    OverridePath nodes root id [i] ↔ overrideOf? root (nodes.get i) = some id := by
  rw [overrideOf?_eq_some]
  constructor
  · rintro ⟨hids, ⟨_, ⟨⟩, hfirst⟩, _, ⟨_, ⟨⟩, hlast⟩⟩
    obtain ⟨own, hown, hne⟩ := hids i List.mem_cons_self
    obtain rfl : own = id := Option.some.inj (hown.symm.trans hlast)
    exact ⟨hlast, hne, hfirst⟩
  · rintro ⟨hlast, hne, hfirst⟩
    refine ⟨?_, ⟨i, rfl, hfirst⟩, .singleton i, ⟨i, rfl, hlast⟩⟩
    intro k hk
    obtain rfl := List.mem_singleton.mp hk
    exact ⟨id, hlast, hne⟩

theorem overridePath_cons_cons {nodes : List Node} {root id : Int} {i k : Fin nodes.length}
    {path : List (Fin nodes.length)} :
    OverridePath nodes root id (i :: k :: path) ↔
      ∃ own, overrideOf? root (nodes.get i) = some own ∧ OverridePath nodes own id (k :: path) := by
  simp only [overrideOf?_eq_some]
  constructor
  · rintro ⟨hids, ⟨_, ⟨⟩, hfirst⟩, hsteps, hlast⟩
    obtain ⟨own, hown, hne⟩ := hids i List.mem_cons_self
    obtain ⟨⟨own', hown', hstep⟩, hrest⟩ := List.isChain_cons_cons.mp hsteps
    obtain rfl : own = own' := Option.some.inj (hown.symm.trans hown')
    refine ⟨own, ⟨hown, hne, hfirst⟩, ?_, ⟨k, rfl, hstep⟩, hrest, hlast⟩
    exact fun j hj => hids j (List.mem_cons_of_mem i hj)
  · rintro ⟨own, ⟨hown, hne, hfirst⟩, hids, ⟨_, ⟨⟩, hstep⟩, hsteps, hlast⟩
    refine ⟨?_, ⟨i, rfl, hfirst⟩, List.isChain_cons_cons.mpr ⟨⟨own, hown, hstep⟩, hsteps⟩, hlast⟩
    intro j hj
    rcases List.mem_cons.mp hj with rfl | hj
    · exact ⟨own, hown, hne⟩
    · exact hids j hj

/-- Going up through the nodes at these places leads from `target` to `last`. -/
inductive Ascends (nodes : List Node) : Int → List (Fin nodes.length) → Int → Prop where
  | stay {target : Int} : Ascends nodes target [] target
  | up {target id last : Int} {i : Fin nodes.length} {path : List (Fin nodes.length)} :
      overrideOf? target (nodes.get i) = some id → Ascends nodes id path last →
      Ascends nodes target (i :: path) last

theorem ascends_nil {nodes : List Node} {target last : Int} :
    Ascends nodes target [] last ↔ last = target := by
  constructor
  · rintro ⟨⟩
    rfl
  · rintro rfl
    exact .stay

theorem ascends_cons {nodes : List Node} {target last : Int} {i : Fin nodes.length}
    {path : List (Fin nodes.length)} :
    Ascends nodes target (i :: path) last ↔
      ∃ id, overrideOf? target (nodes.get i) = some id ∧ Ascends nodes id path last := by
  constructor
  · rintro ⟨⟩
    exact ⟨_, ‹_›, ‹_›⟩
  · rintro ⟨id, hid, hpath⟩
    exact .up hid hpath

theorem overridePath_iff_ascends {nodes : List Node} {root id : Int}
    {path : List (Fin nodes.length)} :
    OverridePath nodes root id path ↔ path ≠ [] ∧ Ascends nodes root path id := by
  induction path generalizing root with
  | nil =>
    constructor
    · rintro ⟨_, ⟨_, ⟨⟩, _⟩, _⟩
    · rintro ⟨hne, _⟩
      exact absurd rfl hne
  | cons i path ih =>
    rw [ascends_cons, and_iff_right (List.cons_ne_nil i path)]
    cases path with
    | nil => simp [overridePath_singleton, ascends_nil]
    | cons k path => simp [overridePath_cons_cons, ih]

theorem Ascends.length_le {contracts : List Contract} {target last : Int}
    {path : List (Fin (forest contracts).length)}
    (h : Ascends (forest contracts) target path last)
    (hacyclic : ¬ CycleReachable contracts target) :
    path.length ≤ (descendants contracts target).card := by
  -- every step up leaves fewer functions above
  induction h with
  | stay => exact Nat.zero_le _
  | @up target id last i path hid _ ih =>
    have hmem : id ∈ directOverrides (forest contracts) target :=
      List.mem_filterMap.mpr ⟨_, List.get_mem _ i, hid⟩
    have hstep := mem_directOverrides.mp hmem
    have hlt := card_descendants_lt hacyclic hstep
    have hle := ih (not_cycleReachable_of_reachable hacyclic (.single hstep))
    rw [List.length_cons]
    omega

/-- All ways up of at most `depth` steps, each with the id that it leads to. -/
def ascents (nodes : List Node) : Nat → Int → List (List (Fin nodes.length) × Int)
  | 0, target => [([], target)]
  | depth + 1, target =>
    ([], target) :: (List.finRange nodes.length).flatMap fun i =>
      (overrideOf? target (nodes.get i)).toList.flatMap fun id =>
        (ascents nodes depth id).map fun (path, last) => (i :: path, last)

theorem directOverrides_eq_flatMap (nodes : List Node) (target : Int) :
    directOverrides nodes target = (List.finRange nodes.length).flatMap fun i =>
      (overrideOf? target (nodes.get i)).toList := by
  rw [← List.filterMap_eq_flatMap_toList, ← Function.comp_def, ← List.filterMap_map,
    List.map_get_finRange]
  rfl

/-- The ids come in the order of the ways that lead to them. -/
theorem overridesWithin_eq_map_ascents (nodes : List Node) (depth : Nat) (target : Int) :
    overridesWithin nodes depth target = (ascents nodes depth target).map (·.2) := by
  induction depth generalizing target with
  | zero => rfl
  | succ depth ih =>
    rw [overridesWithin, ascents, List.map_cons, List.map_flatMap, directOverrides_eq_flatMap,
      List.flatMap_assoc]
    congr 1
    apply List.flatMap_congr
    intro i _
    rw [List.map_flatMap]
    apply List.flatMap_congr
    intro id _
    rw [ih, List.map_map]
    rfl

theorem mem_ascents {nodes : List Node} {depth : Nat} {target last : Int}
    {path : List (Fin nodes.length)} :
    (path, last) ∈ ascents nodes depth target ↔
      path.length ≤ depth ∧ Ascends nodes target path last := by
  induction depth generalizing target path with
  | zero =>
    cases path with
    | nil => simp [ascents, ascends_nil]
    | cons i path => simp [ascents]
  | succ depth ih =>
    cases path with
    | nil => simp [ascents, ascends_nil]
    | cons i path => simp [ascents, ascends_cons, ih, and_left_comm]

theorem nodup_ascents (nodes : List Node) (depth : Nat) (target : Int) :
    ((ascents nodes depth target).map (·.1)).Nodup := by
  induction depth generalizing target with
  | zero => simp [ascents]
  | succ depth ih =>
    rw [ascents, List.map_cons, List.nodup_cons, List.map_flatMap]
    refine ⟨by simp, List.nodup_flatMap.mpr ⟨fun i _ => ?_, ?_⟩⟩
    · cases overrideOf? target (nodes.get i) with
      | none => simp
      | some id =>
        have hpaths :
            ((ascents nodes depth id).map fun (path, last) => (i :: path, last)).map (·.1) =
              ((ascents nodes depth id).map (·.1)).map (i :: ·) := by
          rw [List.map_map, List.map_map]
          rfl
        rw [Option.toList_some, List.flatMap_singleton, hpaths]
        exact (ih id).map List.cons_injective
    -- ways through different places differ in their first step
    · refine (List.nodup_finRange _).imp fun {i k} hne => ?_
      intro path hi hk
      simp only [List.mem_map, List.mem_flatMap] at hi hk
      obtain ⟨_, ⟨_, _, _, _, rfl⟩, rfl⟩ := hi
      obtain ⟨_, ⟨_, _, _, _, rfl⟩, hpath⟩ := hk
      exact hne (List.cons.inj hpath).1.symm

theorem overridePath_iff_mem_ascents {contracts : List Contract} {root id : Int}
    (h : ¬ CycleReachable contracts root) (hne : id ≠ root)
    {path : List (Fin (forest contracts).length)} :
    OverridePath (forest contracts) root id path ↔
      (path, id) ∈ ascents (forest contracts) (forest contracts).length root := by
  rw [overridePath_iff_ascends, mem_ascents]
  constructor
  · rintro ⟨_, hpath⟩
    exact ⟨(hpath.length_le h).trans (card_descendants_le contracts root), hpath⟩
  · rintro ⟨_, hpath⟩
    refine ⟨?_, hpath⟩
    rintro rfl
    exact hne (ascends_nil.mp hpath)

theorem encard_overridePaths {contracts : List Contract} {root id : Int}
    (h : ¬ CycleReachable contracts root) (hne : id ≠ root) :
    {path | OverridePath (forest contracts) root id path}.encard =
      (overrideClosure contracts root).count id := by
  let ways := (ascents (forest contracts) (forest contracts).length root).filter (·.2 == id)
  have hpaths : {path | OverridePath (forest contracts) root id path} =
      ((ways.map (·.1)).toFinset : Set (List (Fin (forest contracts).length))) := by
    ext path
    simp [ways, overridePath_iff_mem_ascents h hne]
  have hnodup : (ways.map (·.1)).Nodup :=
    (nodup_ascents _ _ root).sublist (List.filter_sublist.map _)
  have hcount : (overrideClosure contracts root).count id = ways.length := by
    rw [overrideClosure, overridesWithin_eq_map_ascents, List.count, List.countP_map,
      List.countP_eq_length_filter]
    rfl
  rw [hpaths, Set.encard_coe_eq_coe_finsetCard, List.toFinset_card_of_nodup hnodup,
    List.length_map, hcount]

theorem count_overrideClosure_self {contracts : List Contract} {root : Int}
    (h : ¬ CycleReachable contracts root) : (overrideClosure contracts root).count root = 1 := by
  have hlater : root ∉ (directOverrides (forest contracts) root).flatMap
      (overrideClosure contracts) := by
    intro hmem
    obtain ⟨id, hid, hroot⟩ := List.mem_flatMap.mp hmem
    have hstep := mem_directOverrides.mp hid
    have hback := (mem_overrideClosure (not_cycleReachable_of_reachable h (.single hstep))).mp hroot
    exact h ⟨root, .refl, .head' hstep hback⟩
  rw [overrideClosure_eq h, List.count_cons_self, List.count_eq_zero.mpr hlater]

/-- Without a cycle the walk gives the function itself once, and every other id once for each path
of overrides that leads to it. -/
theorem count_eq_encard_paths {contracts : List Contract} {root : Int}
    (h : ¬ CycleReachable contracts root) :
    GivesAll OverrideWalk.next? (OverrideWalk.start contracts root)
        (overrideClosure contracts root) ∧
      (overrideClosure contracts root).count root = 1 ∧
      ∀ id, id ≠ root → ((overrideClosure contracts root).count id : ℕ∞) =
        {path | OverridePath (preorder (declarations contracts)) root id path}.encard :=
  ⟨OverrideWalk.start_givesAll h, count_overrideClosure_self h,
    fun _ hne => (encard_overridePaths h hne).symm⟩

theorem count_eq_encard_paths_diamond :
    ¬ CycleReachable diamond 1 ∧ overrideClosure diamond 1 = [1, 2, 5, 3, 5] ∧
      {path | OverridePath (preorder (declarations diamond)) 1 5 path}.encard = 2 ∧
      {path | OverridePath (preorder (declarations diamond)) 1 3 path}.encard = 1 := by
  have hids : overrideClosure diamond 1 = [1, 2, 5, 3, 5] := by decide +kernel
  obtain ⟨_, _, hcount⟩ := count_eq_encard_paths diamond_acyclic
  refine ⟨diamond_acyclic, hids, ?_, ?_⟩
  · rw [← hcount 5 (by decide), hids]
    rfl
  · rw [← hcount 3 (by decide), hids]
    rfl

end ContractDocs
