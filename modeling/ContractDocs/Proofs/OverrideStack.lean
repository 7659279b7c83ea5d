import ContractDocs.Proofs.OverrideTermination
import Mathlib.Data.List.Chain

/-! The scans that a walk over overrides has suspended. From the bottom up, their targets lead in
single steps from the function where the walk began to the id that was found last, and each scan
has an end of the forest ahead of it. None of this needs the overrides to be free of cycles. -/

namespace ContractDocs

open Relation

namespace OverrideWalk

/-- What a call gives, and the walk that it leaves. A call without a result has dropped all
scans. -/
def call (w : OverrideWalk) : Option Int × OverrideWalk :=
  match w.next? with
  | some (id, v) => (some id, v)
  | none => (none, { w with frames := [] })

def after : Nat → OverrideWalk → OverrideWalk
  | 0, w => w
  | n + 1, w => (after n w).call.2

/-- The functions whose overrides are looked for, from the bottom of the stack to its top. -/
def targets (w : OverrideWalk) : List Int :=
  (w.frames.map (·.target)).reverse

/-- What one pass of the loop makes of the scans, once the root has been given. -/
inductive Pass (roots : List Node) :
    List OverrideFrame → OverrideWalk ⊕ Option (Int × OverrideWalk) → Prop where
  | over : Pass roots [] (.inr none)
  | drop {f : OverrideFrame} {below : List OverrideFrame} : f.walk.next? = none →
      Pass roots (f :: below) (.inl ⟨roots, none, below⟩)
  | skip {f : OverrideFrame} {below : List OverrideFrame} {n : Node} {walk : Preorder} :
      f.walk.next? = some (n, walk) → overrideOf? f.target n = none →
      Pass roots (f :: below) (.inl ⟨roots, none, { f with walk } :: below⟩)
  | found {f : OverrideFrame} {below : List OverrideFrame} {n : Node} {walk : Preorder}
      {id : Int} : f.walk.next? = some (n, walk) → overrideOf? f.target n = some id →
      Pass roots (f :: below)
        (.inr (some (id, ⟨roots, none, ⟨id, ⟨roots⟩⟩ :: { f with walk } :: below⟩)))

theorem pass_advance (roots : List Node) (frames : List OverrideFrame) :
    Pass roots frames (advance ⟨roots, none, frames⟩) := by
  cases frames with
  | nil => exact .over
  | cons f below =>
    cases hf : f.walk.next? with
    | none =>
      have ha : advance ⟨roots, none, f :: below⟩ = .inl ⟨roots, none, below⟩ := by
        simp [advance, hf]
      rw [ha]
      exact .drop hf
    | some result =>
      obtain ⟨n, walk⟩ := result
      cases hn : overrideOf? f.target n with
      | none =>
        have ha : advance ⟨roots, none, f :: below⟩ =
            .inl ⟨roots, none, { f with walk } :: below⟩ := by
          simp [advance, hf, hn]
        rw [ha]
        exact .skip hf hn
      | some id =>
        have ha : advance ⟨roots, none, f :: below⟩ = .inr (some (id,
            ⟨roots, none, ⟨id, ⟨roots⟩⟩ :: { f with walk } :: below⟩)) := by
          simp [advance, hf, hn]
        rw [ha]
        exact .found hf hn

/-- A call is a run of passes up to the walk in which its loop ends. A result comes with the walk
that is left, and without one the call leaves the walk in which the loop ended. -/
theorem call_cases (roots : List Node) (frames : List OverrideFrame) :
    ∃ u, ReflTransGen (fun w v => w.advance = .inl v) ⟨roots, none, frames⟩ u ∧
      ((∃ id v, u.advance = .inr (some (id, v)) ∧ call ⟨roots, none, frames⟩ = (some id, v)) ∨
        u.advance = .inr none ∧ call ⟨roots, none, frames⟩ = (none, u)) := by
  -- a pass that goes on leaves less to scan and does not change what the call comes to
  induction hload : load ⟨roots, none, frames⟩ using Nat.strongRecOn generalizing frames with
  | ind k ih =>
    have hpass := pass_advance roots frames
    rcases advance_cases ⟨roots, none, frames⟩ with h | ⟨v, h, hnext, hlt⟩
    · refine ⟨_, .refl, ?_⟩
      cases hw : next? ⟨roots, none, frames⟩ with
      | none =>
        rw [hw] at h
        rw [h] at hpass
        cases hpass
        exact .inr ⟨h, rfl⟩
      | some result =>
        obtain ⟨id, v⟩ := result
        rw [hw] at h
        exact .inl ⟨id, v, h, by simp [call, hw]⟩
    · obtain ⟨rest, rfl⟩ : ∃ rest, v = ⟨roots, none, rest⟩ := by
        rw [h] at hpass
        cases hpass with
        | drop => exact ⟨_, rfl⟩
        | skip => exact ⟨_, rfl⟩
      have hcall : call ⟨roots, none, rest⟩ = call ⟨roots, none, frames⟩ := by
        simp only [call, hnext]
      obtain ⟨u, hu, hends⟩ := ih _ (hload ▸ hlt) rest rfl
      rw [hcall] at hends
      exact ⟨u, .head h hu, hends⟩

/-- The suspended scans lead up from `root`. -/
structure Chained (contracts : List Contract) (root : Int) (w : OverrideWalk) : Prop where
  roots_eq : w.roots = declarations contracts
  pending_eq : w.pending = none
  bottom : ∀ id ∈ w.targets.head?, id = root
  chain : w.targets.IsChain (DirectOverride contracts)
  suffix : ∀ f ∈ w.frames, f.walk.toList <:+ preorder (declarations contracts)

theorem targets_cons (roots : List Node) (pending : Option Int) (f : OverrideFrame)
    (below : List OverrideFrame) :
    (OverrideWalk.mk roots pending (f :: below)).targets =
      (OverrideWalk.mk roots pending below).targets ++ [f.target] := by
  simp [targets]

namespace Chained

variable {contracts : List Contract} {root : Int} {roots : List Node} {f : OverrideFrame}
  {below : List OverrideFrame}

theorem pop (hw : Chained contracts root ⟨roots, none, f :: below⟩) :
    Chained contracts root ⟨roots, none, below⟩ := by
  have hbottom := hw.bottom
  have hchain := hw.chain
  rw [targets_cons] at hbottom hchain
  refine ⟨hw.roots_eq, rfl, ?_, hchain.left_of_append, ?_⟩
  · intro id hid
    exact hbottom id (List.mem_head?_append_of_mem_head? hid)
  · intro g hg
    exact hw.suffix g (List.mem_cons_of_mem f hg)

theorem resume {n : Node} {walk : Preorder}
    (hw : Chained contracts root ⟨roots, none, f :: below⟩)
    (h : f.walk.next? = some (n, walk)) :
    Chained contracts root ⟨roots, none, { f with walk } :: below⟩ := by
  refine ⟨hw.roots_eq, rfl, hw.bottom, hw.chain, ?_⟩
  intro g hg
  rcases List.mem_cons.mp hg with rfl | hg
  · exact (Preorder.suffix_of_next h).trans (hw.suffix f List.mem_cons_self)
  · exact hw.suffix g (List.mem_cons_of_mem f hg)

theorem push {id : Int} (hw : Chained contracts root ⟨roots, none, f :: below⟩)
    (h : DirectOverride contracts f.target id) :
    Chained contracts root ⟨roots, none, ⟨id, ⟨roots⟩⟩ :: f :: below⟩ := by
  have hroots : roots = declarations contracts := hw.roots_eq
  refine ⟨hw.roots_eq, rfl, ?_, ?_, ?_⟩
  · have hbottom := hw.bottom
    rw [targets_cons] at hbottom
    rw [targets_cons, targets_cons]
    intro j hj
    exact hbottom j (by simpa using hj)
  · rw [targets_cons, List.isChain_append]
    refine ⟨hw.chain, .singleton id, ?_⟩
    intro lower hlower upper hupper
    obtain rfl : f.target = lower := by simpa [targets_cons] using hlower
    obtain rfl : id = upper := by simpa using hupper
    exact h
  · intro g hg
    rcases List.mem_cons.mp hg with rfl | hg
    · rw [← hroots]
      exact List.suffix_refl _
    · exact hw.suffix g hg

variable {w v : OverrideWalk} {id : Int}

theorem pass (hw : Chained contracts root w) (h : w.advance = .inl v) :
    Chained contracts root v := by
  obtain ⟨roots, pending, frames⟩ := w
  obtain rfl : pending = none := hw.pending_eq
  have hpass := pass_advance roots frames
  rw [h] at hpass
  cases hpass with
  | drop => exact hw.pop
  | skip hnext => exact hw.resume hnext

theorem found (hw : Chained contracts root w) (h : w.advance = .inr (some (id, v))) :
    Chained contracts root v ∧ v.targets.getLast? = some id := by
  obtain ⟨roots, pending, frames⟩ := w
  obtain rfl : pending = none := hw.pending_eq
  have hpass := pass_advance roots frames
  rw [h] at hpass
  cases hpass with
  | @found f below n walk _ hnext hid =>
    -- what the scan has ahead is an end of the forest, so it found a node of the forest
    have hn : n ∈ forest contracts :=
      (hw.suffix f List.mem_cons_self).subset (Preorder.mem_of_next hnext)
    have hstep : DirectOverride contracts f.target id :=
      mem_directOverrides.mp (List.mem_filterMap.mpr ⟨n, hn, hid⟩)
    exact ⟨(hw.resume hnext).push hstep, by simp [targets]⟩

theorem passes (hw : Chained contracts root w)
    (h : ReflTransGen (fun w v => w.advance = .inl v) w v) : Chained contracts root v := by
  induction h with
  | refl => exact hw
  | tail _ hlast ih => exact ih.pass hlast

theorem call (hw : Chained contracts root w) :
    Chained contracts root w.call.2 ∧
      ∀ id, w.call.1 = some id → w.call.2.targets.getLast? = some id := by
  obtain ⟨roots, pending, frames⟩ := w
  obtain rfl : pending = none := hw.pending_eq
  obtain ⟨u, hpasses, hends⟩ := call_cases roots frames
  have hu := hw.passes hpasses
  rcases hends with ⟨id, v, ha, hcall⟩ | ⟨_, hcall⟩
  · obtain ⟨hv, htop⟩ := hu.found ha
    rw [hcall]
    refine ⟨hv, ?_⟩
    rintro j ⟨⟩
    exact htop
  · rw [hcall]
    exact ⟨hu, by simp⟩

theorem reachable (hw : Chained contracts root w) (h : w.targets.getLast? = some id) :
    OverrideReachable contracts root id := by
  cases htargets : w.targets with
  | nil => simp [htargets] at h
  | cons first rest =>
    have hfirst : first = root := hw.bottom first (by simp [htargets])
    have hchain := hw.chain
    rw [htargets, hfirst] at hchain
    rw [htargets, hfirst, List.getLast?_eq_some_getLast (by simp), Option.some.injEq] at h
    exact List.relationReflTransGen_of_exists_isChain_cons rest hchain h

end Chained

theorem Chained.first (contracts : List Contract) (root : Int) :
    Chained contracts root (start contracts root).call.2 where
  roots_eq := rfl
  pending_eq := rfl
  bottom := by
    rintro id ⟨⟩
    rfl
  chain := .singleton root
  suffix := by
    intro f hf
    obtain rfl := List.mem_singleton.mp hf
    exact List.suffix_refl _

theorem Chained.after (contracts : List Contract) (root : Int) (n : Nat) :
    Chained contracts root ((start contracts root).after (n + 1)) := by
  induction n with
  | zero => exact Chained.first contracts root
  | succ n ih => exact ih.call.1

/-- After every call the targets of the scans that are left are a chain of overrides up from
`root`, each scan has an end of the forest ahead, and an id that was given is the topmost target. So
no walk gives anything but `root` and its overrides. -/
theorem scans_lead_to_result (contracts : List Contract) (root : Int) (n : Nat) :
    Chained contracts root ((start contracts root).after (n + 1)) ∧
      ∀ id, ((start contracts root).after n).call.1 = some id →
        ((start contracts root).after (n + 1)).targets.getLast? = some id ∧
          (id = root ∨ TransGen (DirectOverride contracts) root id) := by
  have hchained := Chained.after contracts root n
  refine ⟨hchained, fun id hid => ?_⟩
  have htop : ((start contracts root).after (n + 1)).targets.getLast? = some id := by
    cases n with
    | zero => exact hid
    | succ n => exact (Chained.after contracts root n).call.2 id hid
  refine ⟨htop, ?_⟩
  exact reflTransGen_iff_eq_or_transGen.mp (hchained.reachable htop)

def mutualOverrides : List Contract :=
  let function (id overridden : Int) : Node :=
    { id := some id, nodeType := some .functionDefinition, baseFunctions := some [overridden] }
  [{ contractName := "Ping", ast := { nodes := some [function 1 2] } },
    { contractName := "Pong", ast := { nodes := some [function 2 1] } }]

theorem scans_lead_to_result_mutualOverrides :
    ((start mutualOverrides 1).after 2).call.1 = some 1 ∧
      ((start mutualOverrides 1).after 3).targets = [1, 2, 1] ∧
      Chained mutualOverrides 1 ((start mutualOverrides 1).after 3) ∧
      ((start mutualOverrides 1).after 3).targets.getLast? = some 1 := by
  have hcall : ((start mutualOverrides 1).after 2).call.1 = some 1 := by decide +kernel
  obtain ⟨hchained, htop⟩ := scans_lead_to_result mutualOverrides 1 2
  exact ⟨hcall, by decide +kernel, hchained, (htop 1 hcall).1⟩

end OverrideWalk

end ContractDocs
