import ContractDocs.Proofs.OverrideGraph

/-! The walk over all overrides of a function, seen as a list of ids that it still has to
open. Each call takes the first id from this list and puts its direct overrides in its place.
Without a cycle the walk therefore gives the ids of a depth-first recursion. -/

namespace ContractDocs

/-- The nonzero ids of the nodes that list `target` among the functions they override. -/
def overridingIds (nodes : List Node) (target : Int) : List Int :=
  nodes.filterMap fun n => n.id.filter fun id => id ≠ 0 ∧ target ∈ n.overriddenIds

theorem overrideOf?_eq_filter (target : Int) (n : Node) :
    overrideOf? target n = n.id.filter fun id => id ≠ 0 ∧ target ∈ n.overriddenIds := by
  ext id
  rw [overrideOf?_eq_some, Option.filter_eq_some_iff]
  simp

theorem directOverrides_eq (nodes : List Node) (target : Int) :
    directOverrides nodes target = overridingIds nodes target := by
  unfold directOverrides overridingIds
  simp only [overrideOf?_eq_filter]

theorem mem_overridingIds {contracts : List Contract} {target id : Int} :
    id ∈ overridingIds (preorder (declarations contracts)) target ↔
      DirectOverride contracts target id := by
  rw [← directOverrides_eq]
  exact mem_directOverrides

open Classical in
/-- A function, followed by the same for each node that overrides it. What leads to a cycle has
no such list. -/
noncomputable def depthFirst (contracts : List Contract) (target : Int) : List Int :=
  if _ : CycleReachable contracts target then []
  else
    target :: (overridingIds (preorder (declarations contracts)) target).attach.flatMap
      fun ⟨id, _⟩ => depthFirst contracts id
termination_by (descendants contracts target).card
decreasing_by exact card_descendants_lt ‹_› (mem_overridingIds.mp ‹_›)

theorem depthFirst_eq {contracts : List Contract} {target : Int}
    (h : ¬ CycleReachable contracts target) :
    depthFirst contracts target = target ::
      (overridingIds (preorder (declarations contracts)) target).flatMap
        (depthFirst contracts) := by
  rw [depthFirst, dif_neg h]
  congr 1
  simp

theorem depthFirst_eq_overrideClosure {contracts : List Contract} {root : Int}
    (h : ¬ CycleReachable contracts root) :
    depthFirst contracts root = overrideClosure contracts root := by
  induction acc_of_not_cycleReachable h with
  | intro target _ ih =>
    rw [depthFirst_eq h, overrideClosure_eq h, directOverrides_eq]
    congr 1
    apply List.flatMap_congr
    intro id hid
    have hstep := mem_overridingIds.mp hid
    exact ih id hstep (not_cycleReachable_of_reachable h (.single hstep))

def OverrideFrame.left (f : OverrideFrame) : List Int :=
  f.walk.toList.filterMap (overrideOf? f.target)

namespace OverrideWalk

/-- The ids that the walk still has to open, next one first. -/
def todo (w : OverrideWalk) : List Int :=
  w.pending.toList ++ w.frames.flatMap OverrideFrame.left

theorem left_of_resume_none {frames : List OverrideFrame} (h : resume frames = none) :
    frames.flatMap OverrideFrame.left = [] := by
  induction frames with
  | nil => rfl
  | cons f below ih =>
    cases hs : f.walk.seek? (overrideOf? f.target) with
    | none =>
      simp only [resume, hs] at h
      have hleft : f.left = [] := Preorder.filterMap_of_seek_none hs
      rw [List.flatMap_cons, hleft, ih h, List.append_nil]
    | some result => simp [resume, hs] at h

theorem left_of_resume {frames rest : List OverrideFrame} {id : Int}
    (h : resume frames = some (id, rest)) :
    frames.flatMap OverrideFrame.left = id :: rest.flatMap OverrideFrame.left := by
  induction frames with
  | nil => simp [resume] at h
  | cons f below ih =>
    cases hs : f.walk.seek? (overrideOf? f.target) with
    | none =>
      simp only [resume, hs] at h
      have hleft : f.left = [] := Preorder.filterMap_of_seek_none hs
      rw [List.flatMap_cons, hleft, List.nil_append, ih h]
    | some result =>
      obtain ⟨found, walk⟩ := result
      simp only [resume, hs, Option.some.injEq, Prod.mk.injEq] at h
      obtain ⟨rfl, rfl⟩ := h
      have hleft : f.left = found :: OverrideFrame.left { f with walk } :=
        Preorder.filterMap_of_seek hs
      rw [List.flatMap_cons, List.flatMap_cons, hleft, List.cons_append]

theorem todo_of_next_none {w : OverrideWalk} (h : w.next? = none) : w.todo = [] := by
  obtain ⟨roots, pending, frames⟩ := w
  cases pending with
  | some root => simp [next?] at h
  | none =>
    simp only [next?, Option.map_eq_none_iff] at h
    exact left_of_resume_none h

/-- One call takes the first id and puts its direct overrides in its place. -/
theorem todo_of_next {w v : OverrideWalk} {id : Int} (h : w.next? = some (id, v)) :
    v.roots = w.roots ∧ v.pending = none ∧
      ∃ rest, w.todo = id :: rest ∧ v.todo = directOverrides (preorder w.roots) id ++ rest := by
  obtain ⟨roots, pending, frames⟩ := w
  cases pending with
  | some root =>
    simp only [next?, Option.some.injEq, Prod.mk.injEq] at h
    obtain ⟨rfl, rfl⟩ := h
    exact ⟨rfl, rfl, frames.flatMap OverrideFrame.left, rfl, rfl⟩
  | none =>
    simp only [next?, Option.map_eq_some_iff, Prod.mk.injEq, Prod.exists] at h
    obtain ⟨found, rest, hresume, rfl, rfl⟩ := h
    exact ⟨rfl, rfl, rest.flatMap OverrideFrame.left, left_of_resume hresume, rfl⟩

theorem take_induction {P : OverrideWalk → Prop} {w : OverrideWalk} (hw : P w)
    (hstep : ∀ {u v : OverrideWalk} {id : Int}, P u → u.next? = some (id, v) → P v) (n : Nat) :
    P (w.take n).2 := by
  induction n generalizing w with
  | zero => exact hw
  | succ n ih =>
    cases h : w.next? with
    | none => simpa [take, h] using hw
    | some result =>
      obtain ⟨id, v⟩ := result
      simpa [take, h] using ih (hstep hw h)

structure Acyclic (contracts : List Contract) (w : OverrideWalk) : Prop where
  roots_eq : w.roots = declarations contracts
  todo_acyclic : ∀ id ∈ w.todo, ¬ CycleReachable contracts id
  frames_eq : w.pending ≠ none → w.frames = []

theorem Acyclic.start {contracts : List Contract} {root : Int}
    (h : ¬ CycleReachable contracts root) : Acyclic contracts (start contracts root) where
  roots_eq := rfl
  todo_acyclic := by
    intro id hid
    have : id = root := by simpa [todo, OverrideWalk.start] using hid
    exact this ▸ h
  frames_eq := fun _ => rfl

theorem Acyclic.next {contracts : List Contract} {w v : OverrideWalk} {id : Int}
    (hw : Acyclic contracts w) (h : w.next? = some (id, v)) : Acyclic contracts v := by
  obtain ⟨hroots, hpending, rest, htodo, hnew⟩ := todo_of_next h
  refine ⟨hroots.trans hw.roots_eq, ?_, fun hp => absurd hpending hp⟩
  intro j hj
  rw [hnew, hw.roots_eq, List.mem_append] at hj
  rcases hj with hj | hj
  · have hid := hw.todo_acyclic id (by simp [htodo])
    exact not_cycleReachable_of_reachable hid (.single (mem_directOverrides.mp hj))
  · exact hw.todo_acyclic j (by simp [htodo, hj])

theorem Acyclic.flatMap_todo {contracts : List Contract} {w v : OverrideWalk} {id : Int}
    (hw : Acyclic contracts w) (h : w.next? = some (id, v)) :
    w.todo.flatMap (overrideClosure contracts) =
      id :: v.todo.flatMap (overrideClosure contracts) := by
  obtain ⟨_, _, rest, htodo, hnew⟩ := todo_of_next h
  have hid := hw.todo_acyclic id (by simp [htodo])
  have hforest : preorder w.roots = forest contracts := congrArg preorder hw.roots_eq
  rw [htodo, hnew, hforest, List.flatMap_cons, overrideClosure_eq hid, List.flatMap_append,
    List.cons_append]

theorem Acyclic.givesAll {contracts : List Contract} {w : OverrideWalk}
    (hw : Acyclic contracts w) : GivesAll next? w (w.todo.flatMap (overrideClosure contracts)) := by
  -- each call shortens what is to come by its first id
  generalize hids : w.todo.flatMap (overrideClosure contracts) = ids
  induction ids generalizing w with
  | nil =>
    cases h : w.next? with
    | none => exact .done h
    | some result =>
      rw [hw.flatMap_todo h] at hids
      exact absurd hids (List.cons_ne_nil _ _)
  | cons id ids ih =>
    cases h : w.next? with
    | none =>
      rw [todo_of_next_none h] at hids
      exact absurd hids (List.cons_ne_nil _ _).symm
    | some result =>
      obtain ⟨found, v⟩ := result
      rw [hw.flatMap_todo h, List.cons.injEq] at hids
      obtain ⟨rfl, hids⟩ := hids
      exact .more h (ih (hw.next h) hids)

theorem start_givesAll {contracts : List Contract} {root : Int}
    (h : ¬ CycleReachable contracts root) :
    GivesAll next? (start contracts root) (overrideClosure contracts root) := by
  simpa [todo, OverrideWalk.start] using (Acyclic.start h).givesAll

/-- What is to come by the recursion: all of a root that is pending, or else what lies below
the nodes that each scan has yet to find, topmost scan first. -/
noncomputable def remaining (contracts : List Contract) (w : OverrideWalk) : List Int :=
  match w.pending with
  | some root => depthFirst contracts root
  | none =>
    w.frames.flatMap fun f =>
      (overridingIds f.walk.toList f.target).flatMap (depthFirst contracts)

theorem Acyclic.remaining_eq {contracts : List Contract} {w : OverrideWalk}
    (hw : Acyclic contracts w) :
    w.remaining contracts = w.todo.flatMap (overrideClosure contracts) := by
  have hdepth : w.todo.flatMap (overrideClosure contracts) =
      w.todo.flatMap (depthFirst contracts) :=
    List.flatMap_congr fun id hid => (depthFirst_eq_overrideClosure (hw.todo_acyclic id hid)).symm
  rw [hdepth]
  obtain ⟨roots, pending, frames⟩ := w
  cases pending with
  | some root =>
    obtain rfl : frames = [] := hw.frames_eq (by simp)
    simp [remaining, todo]
  | none =>
    simp only [remaining, todo, Option.toList_none, List.nil_append, List.flatMap_assoc]
    apply List.flatMap_congr
    intro f _
    rw [← directOverrides_eq]
    rfl

theorem Acyclic.take {contracts : List Contract} {w : OverrideWalk}
    (hw : Acyclic contracts w) (n : Nat) : Acyclic contracts (w.take n).2 :=
  take_induction hw (fun hu h => hu.next h) n

/-- From a function without a reachable cycle the walk gives the ids of the depth-first
recursion, and in between it has just the rest of them ahead. -/
theorem yields_depthFirst {contracts : List Contract} {root : Int}
    (h : ¬ CycleReachable contracts root) :
    (∀ target, OverrideReachable contracts root target →
        depthFirst contracts target = target ::
          (overridingIds (preorder (declarations contracts)) target).flatMap
            (depthFirst contracts)) ∧
      GivesAll next? (start contracts root) (depthFirst contracts root) ∧
      ∀ n, GivesAll next? ((start contracts root).take n).2
        (((start contracts root).take n).2.remaining contracts) := by
  have hstate : ∀ n, GivesAll next? ((start contracts root).take n).2
      (((start contracts root).take n).2.remaining contracts) := by
    intro n
    have hw := (Acyclic.start h).take n
    rw [hw.remaining_eq]
    exact hw.givesAll
  refine ⟨?_, ?_, hstate⟩
  · intro target hreach
    exact depthFirst_eq (not_cycleReachable_of_reachable h hreach)
  -- before the first call the root is pending
  · exact hstate 0

theorem yields_depthFirst_diamond :
    ¬ CycleReachable diamond 1 ∧ depthFirst diamond 1 = [1, 2, 5, 3, 5] ∧
      GivesAll next? (start diamond 1) [1, 2, 5, 3, 5] ∧
      GivesAll next? ((start diamond 1).take 2).2
        (((start diamond 1).take 2).2.remaining diamond) := by
  have hids : depthFirst diamond 1 = [1, 2, 5, 3, 5] := by
    rw [depthFirst_eq_overrideClosure diamond_acyclic]
    cbv
  obtain ⟨_, hyields, hstate⟩ := yields_depthFirst diamond_acyclic
  exact ⟨diamond_acyclic, hids, hids ▸ hyields, hstate 2⟩

end OverrideWalk

end ContractDocs
