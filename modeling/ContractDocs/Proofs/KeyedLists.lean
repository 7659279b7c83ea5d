import Mathlib.Data.List.Nodup

/-! Lists of values with keys, and the value that is looked up by a key. -/

namespace ContractDocs

variable {κ α : Type} [BEq κ] [LawfulBEq κ]

theorem lookup_cons_ite [DecidableEq κ] (l k : κ) (a : α) (pairs : List (κ × α)) :
    List.lookup l ((k, a) :: pairs) = if l = k then some a else pairs.lookup l := by
  rw [List.lookup_cons]
  by_cases h : l = k
  · rw [beq_iff_eq.mpr h, if_pos h]
  · rw [beq_false_of_ne h, if_neg h]

theorem lookup_filter_append [DecidableEq κ] (pairs : List (κ × α)) (l k : κ) (a : α) :
    (pairs.filter (·.1 ≠ l) ++ [(l, a)]).lookup k = if k = l then some a else pairs.lookup k := by
  induction pairs with
  | nil => exact lookup_cons_ite k l a []
  | cons x pairs ih =>
    obtain ⟨key, b⟩ := x
    by_cases hl : key = l
    · subst hl
      by_cases hk : k = key <;> simp_all [lookup_cons_ite]
    · by_cases hk : k = key <;> simp_all [lookup_cons_ite]

section Nodup

variable {pairs : List (κ × α)} {key : κ} (h : (pairs.map (·.1)).Nodup)

include h

theorem lookup_eq_some_iff_mem {a : α} : pairs.lookup key = some a ↔ (key, a) ∈ pairs := by
  constructor
  · intro ha
    obtain ⟨before, after, rfl, -⟩ := List.lookup_eq_some_iff.mp ha
    simp
  · intro ha
    obtain ⟨before, after, rfl⟩ := List.append_of_mem ha
    refine List.lookup_eq_some_iff.mpr ⟨before, after, rfl, fun p hp => ?_⟩
    rw [List.map_append, List.map_cons] at h
    have hne : p.1 ≠ key :=
      (List.nodup_append.mp h).2.2 p.1 (List.mem_map_of_mem hp) key List.mem_cons_self
    simpa using hne.symm

theorem eq_of_mem_of_mem {a b : α} (ha : (key, a) ∈ pairs) (hb : (key, b) ∈ pairs) : a = b := by
  have hlookup := (lookup_eq_some_iff_mem h).mpr ha
  rw [(lookup_eq_some_iff_mem h).mpr hb] at hlookup
  exact (Option.some.inj hlookup).symm

end Nodup

end ContractDocs
