import ContractDocs.Proofs.OverridingNodes

/-! The walk from an override inside the walk from the function that it overrides. The scans on top
of a walk run as if nothing were suspended below them, so the ids of the inner walk stand in one
piece wherever the outer one gives its id. -/

namespace ContractDocs

namespace OverrideWalk

theorem resume_append (frames below : List OverrideFrame) :
    resume (frames ++ below) = match resume frames with
      | some (id, rest) => some (id, rest ++ below)
      | none => resume below := by
  induction frames with
  | nil => rfl
  | cons f frames ih =>
    cases hs : f.walk.seek? (overrideOf? f.target) with
    | none => simp only [List.cons_append, resume, hs, ih]
    | some result => simp only [List.cons_append, resume, hs]

/-- A result leaves a new scan on top of the scans that found it. -/
theorem next_eq_some_iff {roots : List Node} {frames : List OverrideFrame} {id : Int}
    {v : OverrideWalk} :
    next? ⟨roots, none, frames⟩ = some (id, v) ↔
      ∃ rest, resume frames = some (id, rest) ∧ v = ⟨roots, none, ⟨id, ⟨roots⟩⟩ :: rest⟩ := by
  simp only [next?, Option.map_eq_some_iff, Prod.mk.injEq, Prod.exists]
  constructor
  · rintro ⟨_, rest, hresume, rfl, rfl⟩
    exact ⟨rest, hresume, rfl⟩
  · rintro ⟨rest, hresume, rfl⟩
    exact ⟨id, rest, hresume, rfl, rfl⟩

theorem next_eq_none_iff {roots : List Node} {frames : List OverrideFrame} :
    next? ⟨roots, none, frames⟩ = none ↔ resume frames = none := by
  simp only [next?, Option.map_eq_none_iff]

theorem exists_below_of_next {w v : OverrideWalk} {id : Int} (h : w.next? = some (id, v)) :
    ∃ below, v = ⟨w.roots, none, ⟨id, ⟨w.roots⟩⟩ :: below⟩ := by
  obtain ⟨roots, pending, frames⟩ := w
  cases pending with
  | some root =>
    simp only [next?, Option.some.injEq, Prod.mk.injEq] at h
    obtain ⟨rfl, rfl⟩ := h
    exact ⟨frames, rfl⟩
  | none =>
    obtain ⟨rest, _, rfl⟩ := next_eq_some_iff.mp h
    exact ⟨rest, rfl⟩

/-- The scans on top are done before the first one below them is resumed. -/
theorem givesAll_of_append {roots : List Node} {frames below : List OverrideFrame} {ids : List Int}
    (h : GivesAll next? ⟨roots, none, frames ++ below⟩ ids) :
    ∃ upper lower, ids = upper ++ lower ∧ GivesAll next? ⟨roots, none, frames⟩ upper ∧
      GivesAll next? ⟨roots, none, below⟩ lower := by
  generalize hw : OverrideWalk.mk roots none (frames ++ below) = w at h
  induction h generalizing frames with
  | done h =>
    subst hw
    rw [next_eq_none_iff, resume_append] at h
    cases hr : resume frames with
    | none =>
      rw [hr] at h
      exact ⟨[], [], rfl, .done (next_eq_none_iff.mpr hr), .done (next_eq_none_iff.mpr h)⟩
    | some result => simp [hr] at h
  | @more w v id ids h hrest ih =>
    subst hw
    obtain ⟨rest, hresume, rfl⟩ := next_eq_some_iff.mp h
    rw [resume_append] at hresume
    cases hr : resume frames with
    | none =>
      rw [hr] at hresume
      have hlower : GivesAll next? ⟨roots, none, below⟩ (id :: ids) :=
        .more (next_eq_some_iff.mpr ⟨rest, hresume, rfl⟩) hrest
      exact ⟨[], id :: ids, rfl, .done (next_eq_none_iff.mpr hr), hlower⟩
    | some result =>
      obtain ⟨found, inner⟩ := result
      simp only [hr, Option.some.injEq, Prod.mk.injEq] at hresume
      obtain ⟨rfl, rfl⟩ := hresume
      obtain ⟨upper, lower, rfl, hupper, hlower⟩ := @ih (⟨found, ⟨roots⟩⟩ :: inner) rfl
      have hfirst : GivesAll next? ⟨roots, none, frames⟩ (found :: upper) :=
        .more (next_eq_some_iff.mpr ⟨inner, hr, rfl⟩) hupper
      exact ⟨found :: upper, lower, rfl, hfirst, hlower⟩

theorem exists_next_of_givesAll {w : OverrideWalk} {before after : List Int} {id : Int}
    (h : GivesAll next? w (before ++ id :: after)) :
    ∃ u v : OverrideWalk, u.roots = w.roots ∧ u.next? = some (id, v) ∧ GivesAll next? v after := by
  induction before generalizing w with
  | nil =>
    cases h with
    | more h hrest => exact ⟨w, _, rfl, h, hrest⟩
  | cons first before ih =>
    cases h with
    | more h hrest =>
      obtain ⟨u, v, hroots, hu, hv⟩ := ih hrest
      exact ⟨u, v, hroots.trans (todo_of_next h).1, hu, hv⟩

/-- Wherever a walk gives an id, the walk that starts there follows. -/
theorem exists_inner_of_givesAll {contracts : List Contract} {w : OverrideWalk}
    {before after : List Int} {id : Int} (hroots : w.roots = declarations contracts)
    (h : GivesAll next? w (before ++ id :: after)) :
    ∃ inner, GivesAll next? (start contracts id) inner ∧ inner <+: id :: after := by
  obtain ⟨u, v, hu, hnext, hv⟩ := exists_next_of_givesAll h
  obtain ⟨below, rfl⟩ := exists_below_of_next hnext
  rw [hu, hroots] at hv
  have hscans : GivesAll next?
      ⟨declarations contracts, none, [⟨id, ⟨declarations contracts⟩⟩] ++ below⟩ after := hv
  obtain ⟨upper, lower, rfl, hupper, _⟩ := givesAll_of_append hscans
  exact ⟨id :: upper, .more rfl hupper, ⟨lower, rfl⟩⟩

end OverrideWalk

theorem overridingNodes_sublist_of_reachable {contracts : List Contract} {root id : Int}
    (h : ¬ CycleReachable contracts root) (hreach : OverrideReachable contracts root id) :
    (overridingNodes contracts id).Sublist (overridingNodes contracts root) := by
  have hid := not_cycleReachable_of_reachable h hreach
  have hclosure : overrideClosure contracts id ⊆ overrideClosure contracts root := by
    intro target ht
    exact (mem_overrideClosure h).mpr (hreach.trans ((mem_overrideClosure hid).mp ht))
  rw [overridingNodes_eq, overridingNodes_eq]
  exact List.monotone_filter_right _ fun _ => overridesAny_mono hclosure

namespace OverrideWalk

/-- For each id that the walk gives, the walk from that id is one piece of it, and begins wherever
the id stands. The nodes that override the id are among those that override the root, in the same
order. -/
theorem inner_walk_infix {contracts : List Contract} {root : Int}
    (h : ¬ CycleReachable contracts root) :
    ∃ ids, GivesAll next? (start contracts root) ids ∧ ∀ id ∈ ids,
      ∃ inner, GivesAll next? (start contracts id) inner ∧ inner <:+: ids ∧
        (∀ before after, ids = before ++ id :: after → inner <+: id :: after) ∧
        (overridingNodes contracts id).Sublist (overridingNodes contracts root) := by
  refine ⟨overrideClosure contracts root, start_givesAll h, fun id hid => ?_⟩
  have hreach := (mem_overrideClosure h).mp hid
  have hinner := start_givesAll (not_cycleReachable_of_reachable h hreach)
  have hbegins : ∀ before after, overrideClosure contracts root = before ++ id :: after →
      overrideClosure contracts id <+: id :: after := by
    intro before after hsplit
    have houter := start_givesAll h
    rw [hsplit] at houter
    obtain ⟨inner, hyields, hfront⟩ := exists_inner_of_givesAll rfl houter
    rwa [hinner.unique hyields]
  refine ⟨_, hinner, ?_, hbegins, overridingNodes_sublist_of_reachable h hreach⟩
  obtain ⟨before, after, hsplit⟩ := List.append_of_mem hid
  rw [hsplit]
  exact (hbegins before after hsplit).isInfix.trans (List.suffix_append before _).isInfix

theorem inner_walk_infix_diamond :
    ¬ CycleReachable diamond 1 ∧ 3 ∈ overrideClosure diamond 1 ∧
      GivesAll next? (start diamond 1) [1, 2, 5, 3, 5] ∧ GivesAll next? (start diamond 3) [3, 5] ∧
      ([3, 5] : List Int) <:+: [1, 2, 5, 3, 5] ∧
      (overridingNodes diamond 3).map (·.node.id) = [some 5, none, some 0] ∧
      (overridingNodes diamond 3).Sublist (overridingNodes diamond 1) := by
  have hids : overrideClosure diamond 1 = [1, 2, 5, 3, 5] := by decide +kernel
  have hblock : overrideClosure diamond 3 = [3, 5] := by decide +kernel
  have hmem : 3 ∈ overrideClosure diamond 1 := by simp [hids]
  have hreach := (mem_overrideClosure diamond_acyclic).mp hmem
  have houter := start_givesAll diamond_acyclic
  have hinner := start_givesAll (not_cycleReachable_of_reachable diamond_acyclic hreach)
  obtain ⟨ids, hyields, hnested⟩ := inner_walk_infix diamond_acyclic
  obtain rfl := hyields.unique houter
  obtain ⟨inner, hyields, hinfix, _, hsub⟩ := hnested 3 hmem
  obtain rfl := hyields.unique hinner
  rw [hids, hblock] at hinfix
  exact ⟨diamond_acyclic, hmem, hids ▸ houter, hblock ▸ hinner, hinfix, by decide +kernel, hsub⟩

end OverrideWalk

end ContractDocs
