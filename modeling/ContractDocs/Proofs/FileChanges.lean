import ContractDocs.Proofs.HostMemory

/-! The places of a file tree that a run changes: where the paths lead that it writes to, and where
it makes directories. -/

namespace ContractDocs

namespace FileTree

/-- Files are put only where paths of `W` lead, and no path is led elsewhere. -/
structure Puts (W : Path → Prop) (t t' : FileTree) : Prop where
  keeps : ∀ p l, t.place? p = some l → t'.place? p = some l
  changes : ∀ l, t'.entryAt? l ≠ t.entryAt? l → ∃ p, W p ∧ t'.place? p = some l

namespace Puts

variable {W V : Path → Prop} {t t₁ t' : FileTree}

theorem refl (W : Path → Prop) (t : FileTree) : Puts W t t :=
  ⟨fun _ _ h => h, fun _ h => absurd rfl h⟩

theorem trans (h : Puts W t t₁) (h' : Puts W t₁ t') : Puts W t t' where
  keeps p l hp := h'.keeps p l (h.keeps p l hp)
  changes l hl := by
    by_cases hfirst : t₁.entryAt? l = t.entryAt? l
    · exact h'.changes l (hfirst ▸ hl)
    · obtain ⟨p, hp, hplace⟩ := h.changes l hfirst
      exact ⟨p, hp, h'.keeps p l hplace⟩

theorem mono (h : Puts W t t') (hWV : ∀ p, W p → V p) : Puts V t t' where
  keeps := h.keeps
  changes l hl := by
    obtain ⟨p, hp, hplace⟩ := h.changes l hl
    exact ⟨p, hWV p hp, hplace⟩

end Puts

theorem eq_of_changed_put {t : FileTree} {l k : Location} {e : Entry} (hl : l ≠ [])
    (h : (t.put l e).entryAt? k ≠ t.entryAt? k) : k = l := by
  by_cases hkl : k = l
  · exact hkl
  · rw [entryAt?_put hl, if_neg hkl] at h
    exact absurd rfl h

theorem puts_of_update {t t' : FileTree} {p : Path} {change : ByteArray → ByteArray}
    (h : t.update p change = .ok t') : Puts (· = p) t t' := by
  obtain ⟨l, bytes, hslot, rfl, hwritten, -⟩ := put_of_update h
  constructor
  · intro q k hq
    obtain ⟨e, he⟩ := place?_eq_some.mp hq
    exact place?_eq_some.mpr ⟨_, hslot.find_put _ he⟩
  · intro k hk
    obtain rfl := eq_of_changed_put hslot.ne_root hk
    exact ⟨p, rfl, place?_eq_some.mpr ⟨_, hwritten⟩⟩

/-- The only new entries are directories, and the old ones stay. -/
def AddsDirectories (t t' : FileTree) : Prop :=
  ∀ l, t'.entryAt? l ≠ t.entryAt? l → t.entryAt? l = none ∧ t'.entryAt? l = some .directory

theorem Puts.changed {W : Path → Prop} {t t₁ t' : FileTree} (h : Puts W t₁ t')
    (hdirs : t.AddsDirectories t₁) {l : Location} (hl : t'.entryAt? l ≠ t.entryAt? l) :
    t.entryAt? l = none ∧ t'.entryAt? l = some .directory ∨ ∃ p, W p ∧ t'.place? p = some l := by
  by_cases hsame : t'.entryAt? l = t₁.entryAt? l
  · rw [hsame] at hl ⊢
    exact .inl (hdirs l hl)
  · exact .inr (h.changes l hsame)

theorem AddsDirectories.refl (t : FileTree) : t.AddsDirectories t :=
  fun _ h => absurd rfl h

theorem AddsDirectories.trans {t t₁ t' : FileTree} (h : t.AddsDirectories t₁)
    (h' : t₁.AddsDirectories t') : t.AddsDirectories t' := by
  intro l hl
  by_cases hfirst : t₁.entryAt? l = t.entryAt? l
  · rw [← hfirst] at hl ⊢
    exact h' l hl
  · obtain ⟨hnone, hdir⟩ := h l hfirst
    by_cases hsecond : t'.entryAt? l = t₁.entryAt? l
    · exact ⟨hnone, hsecond.trans hdir⟩
    · exact ⟨hnone, (h' l hsecond).2⟩

theorem addsDirectories_of_makeDirectory {t t' : FileTree} {p : Path}
    (h : t.makeDirectory p = .ok t') : t.AddsDirectories t' := by
  obtain ⟨l, hroot, hnone, rfl⟩ := put_of_create h
  intro k hk
  obtain rfl := eq_of_changed_put hroot hk
  exact ⟨hnone, by rw [entryAt?_put hroot, if_pos rfl]⟩

theorem addsDirectories_makeAlong (t : FileTree) (paths : List Path) :
    t.AddsDirectories (t.makeAlong paths).2 := by
  fun_induction makeAlong t paths with
  | case1 => exact .refl _
  | case2 => exact .refl _
  | case3 _ _ _ _ hmake => exact addsDirectories_of_makeDirectory hmake
  | case4 _ _ _ _ _ habove _ hmake ih =>
    rw [habove] at ih
    exact ih.trans (addsDirectories_of_makeDirectory hmake)
  | case5 _ _ _ _ _ habove _ _ ih => rwa [habove] at ih
  | case6 _ _ _ _ _ ih => exact ih
  | case7 => exact .refl _

end FileTree

namespace Memory

theorem puts_log (s : Memory) (line : LogLine) :
    s.files.Puts (· ∈ s.logFile) (s.log line).files := by
  obtain ⟨_, hsame | ⟨q, hq, text, happend⟩⟩ := s.log_eq line
  · rw [hsame]
    exact .refl _ _
  · exact (FileTree.puts_of_update happend).mono fun p hp => hp ▸ hq

theorem logFile_logAll (s : Memory) (lines : List LogLine) :
    (lines.foldl Memory.log s).logFile = s.logFile := by
  induction lines generalizing s with
  | nil => rfl
  | cons line lines ih => exact (ih _).trans (s.log_eq line).1

theorem puts_logAll (s : Memory) (lines : List LogLine) :
    s.files.Puts (· ∈ s.logFile) (lines.foldl Memory.log s).files := by
  induction lines generalizing s with
  | nil => exact .refl _ _
  | cons line lines ih =>
    have hmore := ih (s.log line)
    rw [(s.log_eq line).1] at hmore
    exact (s.puts_log line).trans hmore

theorem logFile_writeEach (s : Memory) (pages : List (Path × String)) :
    (s.writeEach pages).2.logFile = s.logFile := by
  induction pages generalizing s with
  | nil => rfl
  | cons page more ih =>
    obtain ⟨path, text⟩ := page
    refine (ih (s.write path text).2).trans ?_
    unfold write
    cases s.files.writeText path text <;> rfl

theorem puts_writeEach (s : Memory) (pages : List (Path × String)) :
    s.files.Puts (· ∈ pages.map (·.1)) (s.writeEach pages).2.files := by
  induction pages generalizing s with
  | nil => exact .refl _ _
  | cons page more ih =>
    obtain ⟨path, text⟩ := page
    have hmore := (ih (s.write path text).2).mono fun p hp => List.mem_cons_of_mem path hp
    have hfirst : s.files.Puts (· ∈ path :: more.map (·.1)) (s.write path text).2.files := by
      unfold write
      cases hwrite : s.files.writeText path text with
      | error e => exact .refl _ _
      | ok files => exact (FileTree.puts_of_update hwrite).mono fun p hp => hp ▸ List.mem_cons_self
    exact hfirst.trans hmore

end Memory

end ContractDocs
