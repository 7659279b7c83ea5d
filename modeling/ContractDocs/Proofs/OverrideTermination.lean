import ContractDocs.Proofs.OverrideWalk

/-! When the walk over the overrides of a function ends. Every single call comes to a result,
because it drops a scan or moves one on by a node with each pass of its loop. The walk as a
whole ends just when it meets no cycle. -/

namespace ContractDocs

namespace OverrideWalk

/-- One pass of the loop inside a call: it leads to another state or gives the result. -/
def advance (w : OverrideWalk) : OverrideWalk ⊕ Option (Int × OverrideWalk) :=
  let scan (id : Int) : OverrideFrame := ⟨id, ⟨w.roots⟩⟩
  match w.pending with
  | some root => .inr (some (root, { w with pending := none, frames := scan root :: w.frames }))
  | none =>
    match w.frames with
    | [] => .inr none
    | f :: below =>
      match f.walk.next? with
      | none => .inl { w with frames := below }
      | some (n, walk) =>
        let frames := { f with walk } :: below
        match overrideOf? f.target n with
        | some id => .inr (some (id, { w with frames := scan id :: frames }))
        | none => .inl { w with frames }

/-- The call comes to `result` after `passes` of its loop. -/
inductive Returns : OverrideWalk → Nat → Option (Int × OverrideWalk) → Prop where
  | now {w : OverrideWalk} {result : Option (Int × OverrideWalk)} :
      w.advance = .inr result → Returns w 1 result
  | later {w v : OverrideWalk} {passes : Nat} {result : Option (Int × OverrideWalk)} :
      w.advance = .inl v → Returns v passes result → Returns w (passes + 1) result

def load (w : OverrideWalk) : Nat :=
  w.frames.foldr (fun f total => f.walk.toList.length + 1 + total) 0

theorem resume_cons {f : OverrideFrame} {n : Node} {walk : Preorder}
    (h : f.walk.next? = some (n, walk)) (below : List OverrideFrame) :
    resume (f :: below) = match overrideOf? f.target n with
      | some id => some (id, { f with walk } :: below)
      | none => resume ({ f with walk } :: below) := by
  rw [resume, resume, Preorder.seek?_of_next _ h]
  cases overrideOf? f.target n with
  | some id => rfl
  | none => rfl

theorem resume_cons_of_none {f : OverrideFrame} {below : List OverrideFrame}
    (h : f.walk.next? = none) : resume (f :: below) = resume below := by
  rw [resume, Preorder.seek?_of_next_none _ h]

theorem advance_cases (w : OverrideWalk) :
    w.advance = .inr w.next? ∨
      ∃ v, w.advance = .inl v ∧ v.next? = w.next? ∧ v.load < w.load := by
  obtain ⟨roots, pending, frames⟩ := w
  cases pending with
  | some root => exact .inl rfl
  | none =>
    cases frames with
    | nil => exact .inl rfl
    | cons f below =>
      cases hf : f.walk.next? with
      | none =>
        refine .inr ⟨⟨roots, none, below⟩, by simp [advance, hf], ?_, by simp [load]⟩
        simp only [next?, resume_cons_of_none hf]
      | some result =>
        obtain ⟨n, walk⟩ := result
        have hresume := resume_cons hf below
        cases hn : overrideOf? f.target n with
        | some id =>
          rw [hn] at hresume
          exact .inl (by simp [advance, next?, hf, hn, hresume])
        | none =>
          rw [hn] at hresume
          refine .inr ⟨⟨roots, none, { f with walk } :: below⟩, by simp [advance, hf, hn], ?_, ?_⟩
          · simp only [next?, hresume]
          · simp [load, Preorder.toList_of_next hf]

theorem exists_returns (w : OverrideWalk) : ∃ passes ≤ w.load + 1, w.Returns passes w.next? := by
  induction hload : w.load using Nat.strongRecOn generalizing w with
  | ind k ih =>
    rcases advance_cases w with h | ⟨v, h, hnext, hlt⟩
    · exact ⟨1, by omega, .now h⟩
    · obtain ⟨passes, hle, hv⟩ := ih v.load (hload ▸ hlt) v rfl
      refine ⟨passes + 1, by omega, ?_⟩
      rw [← hnext]
      exact .later h hv

theorem exists_take_none_iff {w : OverrideWalk} :
    (∃ n, (w.take n).2.next? = none) ↔ ∃ ids, GivesAll next? w ids := by
  constructor
  · rintro ⟨n, hn⟩
    induction n generalizing w with
    | zero => exact ⟨[], .done hn⟩
    | succ n ih =>
      cases h : w.next? with
      | none => exact ⟨[], .done h⟩
      | some result =>
        obtain ⟨id, v⟩ := result
        obtain ⟨ids, hids⟩ := ih (w := v) (by simpa [take, h] using hn)
        exact ⟨id :: ids, .more h hids⟩
  · rintro ⟨ids, hids⟩
    induction hids with
    | done h => exact ⟨0, h⟩
    | more h _ ih =>
      obtain ⟨n, hn⟩ := ih
      exact ⟨n + 1, by simpa [take, h] using hn⟩

theorem not_cycleReachable_of_givesAll {contracts : List Contract} {w : OverrideWalk}
    {ids : List Int} (h : GivesAll next? w ids) (hroots : w.roots = declarations contracts) :
    ∀ id ∈ w.todo, ¬ CycleReachable contracts id := by
  induction h with
  | done h => simp [todo_of_next_none h]
  | @more w v first ids h _ ih =>
    obtain ⟨hsame, _, rest, htodo, hnew⟩ := todo_of_next h
    have hbelow := ih (hsame.trans hroots)
    rw [hnew, hroots] at hbelow
    intro id hid hcycle
    rw [htodo, List.mem_cons] at hid
    rcases hid with rfl | hid
    -- the cycle is also reached from an id that the next call adds
    · obtain ⟨j, hstep, hj⟩ := cycleReachable_iff_exists.mp hcycle
      exact hbelow j (List.mem_append_left _ (mem_directOverrides.mpr hstep)) hj
    · exact hbelow id (List.mem_append_right _ hid) hcycle

theorem exists_givesAll_iff (contracts : List Contract) (root : Int) :
    (∃ ids, GivesAll next? (start contracts root) ids) ↔ ¬ CycleReachable contracts root := by
  constructor
  · rintro ⟨ids, hids⟩
    exact not_cycleReachable_of_givesAll hids rfl root (by simp [todo, start])
  · intro h
    exact ⟨overrideClosure contracts root, start_givesAll h⟩

/-- Each call on the way comes to its result. Some call gives nothing just when no cycle of
overrides can be reached, and otherwise every call gives an id. -/
theorem next_ends_iff_acyclic (contracts : List Contract) (root : Int) :
    (∀ n, ∃ passes, ((start contracts root).take n).2.Returns passes
        ((start contracts root).take n).2.next?) ∧
      ((∃ n, ((start contracts root).take n).2.next? = none) ↔
        ¬ CycleReachable contracts root) ∧
      ((∀ n, ∃ id v, ((start contracts root).take n).2.next? = some (id, v)) ↔
        CycleReachable contracts root) := by
  have hends := exists_take_none_iff.trans (exists_givesAll_iff contracts root)
  refine ⟨fun n => ?_, hends, ?_⟩
  · obtain ⟨passes, _, hreturns⟩ := exists_returns ((start contracts root).take n).2
    exact ⟨passes, hreturns⟩
  · rw [← not_iff_not, ← hends, not_forall]
    apply exists_congr
    intro n
    rcases ((start contracts root).take n).2.next? with _ | ⟨id, v⟩ <;> simp

end OverrideWalk

end ContractDocs
