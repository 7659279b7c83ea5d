import ContractDocs.Failure
import ContractDocs.Host.Memory
import ContractDocs.Proofs.FileTree

/-! What a machine in memory keeps of its files when it logs and when it writes, and how a run on
it takes its steps. -/

namespace ContractDocs

theorem fromUTF8?_eq_some {bytes : ByteArray} {text : String} :
    String.fromUTF8? bytes = some text ↔ bytes = text.toUTF8 := by
  unfold String.fromUTF8?
  constructor
  · intro h
    split at h
    · cases h; rfl
    · cases h
  · rintro rfl
    exact dif_pos text.isValidUTF8

namespace FileTree

theorem readBytes_eq_ok {t : FileTree} {p : Path} {bytes : ByteArray} :
    t.readBytes p = .ok bytes ↔ ∃ l, t.find p = .ok (l, .file bytes) := by
  unfold readBytes
  rcases t.find p with _ | ⟨l, _ | _ | _⟩ <;>
    simp [bind, Except.bind, pure, Except.pure, throw, throwThe, MonadExceptOf.throw]

theorem readText_eq_ok {t : FileTree} {p : Path} {text : String} :
    t.readText p = .ok text ↔ ∃ l, t.find p = .ok (l, .file text.toUTF8) := by
  rw [← readBytes_eq_ok]
  unfold readText
  cases hread : t.readBytes p with
  | error e => simp [bind, Except.bind]
  | ok bytes =>
    rw [Except.ok.injEq, ← fromUTF8?_eq_some]
    simp only [bind, Except.bind]
    cases String.fromUTF8? bytes <;>
      simp [pure, Except.pure, throw, throwThe, MonadExceptOf.throw]

/-- The place a path leads to. -/
def place? (t : FileTree) (p : Path) : Option Location :=
  (t.find p).toOption.map (·.1)

theorem place?_eq_some {t : FileTree} {p : Path} {l : Location} :
    t.place? p = some l ↔ ∃ e, t.find p = .ok (l, e) := by
  unfold place?
  rcases t.find p with _ | ⟨k, e⟩ <;> simp [Except.toOption]

/-- All pages were written, one after the other. -/
inductive Wrote : FileTree → List (Path × String) → FileTree → Prop where
  | nil {t : FileTree} : Wrote t [] t
  | cons {t t₁ t' : FileTree} {p : Path} {text : String} {more : List (Path × String)} :
      t.writeText p text = .ok t₁ → Wrote t₁ more t' → Wrote t ((p, text) :: more) t'

def places (t : FileTree) (pages : List (Path × String)) : List (Option Location) :=
  pages.map fun page => t.place? page.1

/-- Writing moves no file, and changes none but those it writes. -/
theorem Wrote.find {t t' : FileTree} {pages : List (Path × String)} (h : Wrote t pages t')
    {p : Path} {k : Location} {e : Entry} (hp : t.find p = .ok (k, e)) :
    ∃ e', t'.find p = .ok (k, e') ∧ (some k ∉ t'.places pages → e' = e) := by
  induction h generalizing p k e with
  | nil => exact ⟨e, hp, fun _ => rfl⟩
  | @cons t t₁ t' path text more hwrite _ ih =>
    obtain ⟨l, bytes, hwritten, -, hkeep⟩ := find_of_update hwrite
    obtain ⟨e', hafter, hsame⟩ := ih (hkeep p k e hp)
    obtain ⟨_, hpath, -⟩ := ih hwritten
    refine ⟨e', hafter, fun hk => ?_⟩
    simp only [places, List.map_cons, List.mem_cons, not_or] at hk
    obtain ⟨hne, hmore⟩ := hk
    have hkl : k ≠ l := by
      rintro rfl
      exact hne (place?_eq_some.mpr ⟨_, hpath⟩).symm
    rw [hsame hmore, if_neg hkl]

/-- Each page is somewhere, and can be read if no other one is at its place. -/
theorem Wrote.readText {t t' : FileTree} {pages : List (Path × String)} (h : Wrote t pages t') :
    none ∉ t'.places pages ∧ ((t'.places pages).Nodup →
      ∀ page ∈ pages, t'.readText page.1 = .ok page.2) := by
  induction h with
  | nil => simp [places]
  | @cons t t₁ t' path text more hwrite hmore ih =>
    obtain ⟨l, bytes, hwritten, -, -⟩ := find_of_update hwrite
    obtain ⟨e', hafter, hsame⟩ := hmore.find hwritten
    have hplace : t'.place? path = some l := place?_eq_some.mpr ⟨e', hafter⟩
    have hcons : t'.places ((path, text) :: more) = some l :: t'.places more := by
      simp [places, hplace]
    rw [hcons]
    refine ⟨by simpa using ih.1, fun hnodup page hpage => ?_⟩
    obtain ⟨hfirst, hrest⟩ := List.nodup_cons.mp hnodup
    rcases List.mem_cons.mp hpage with rfl | hpage
    · rw [hsame hfirst] at hafter
      exact readText_eq_ok.mpr ⟨l, hafter⟩
    · exact ih.2 hrest page hpage

end FileTree

namespace Memory

/-- The log does not go to the file at `p`. -/
def LogApart (s : Memory) (p : Path) : Prop :=
  ∀ q ∈ s.logFile, s.files.place? q ≠ s.files.place? p

instance (s : Memory) (p : Path) : Decidable (s.LogApart p) :=
  inferInstanceAs (Decidable (∀ q ∈ s.logFile, s.files.place? q ≠ s.files.place? p))

theorem log_eq (s : Memory) (line : LogLine) : (s.log line).logFile = s.logFile ∧
    ((s.log line).files = s.files ∨ ∃ q ∈ s.logFile, ∃ text,
      s.files.appendText q text = .ok (s.log line).files) := by
  unfold log
  split
  · refine ⟨rfl, ?_⟩
    cases hfile : s.logFile with
    | none => exact .inl rfl
    | some q =>
      cases happend : s.files.appendText q (line.text ++ "\n") with
      | error e => left; simp [happend, Except.toOption]
      | ok files =>
        refine .inr ⟨q, rfl, line.text ++ "\n", ?_⟩
        simp [happend, Except.toOption]
  · exact ⟨rfl, .inl rfl⟩

theorem logApart_iff {s : Memory} {q p : Path} {k : Location} (hq : s.logFile = some q)
    (hp : s.files.place? p = some k) : s.LogApart p ↔ s.files.place? q ≠ some k := by
  simp [LogApart, hq, hp]

/-- Logging moves no file, and changes none but the one it goes to. -/
theorem find_log {s : Memory} (line : LogLine) {p : Path} {k : Location} {e : Entry}
    (h : s.files.find p = .ok (k, e)) : ∃ e', (s.log line).files.find p = .ok (k, e') ∧
      (s.LogApart p → e' = e) ∧ (s.LogApart p ↔ (s.log line).LogApart p) := by
  obtain ⟨hlogFile, hsame | ⟨q, hq, text, happend⟩⟩ := s.log_eq line
  · refine ⟨e, by rw [hsame, h], fun _ => rfl, ?_⟩
    rw [LogApart, LogApart, hlogFile, hsame]
  · obtain ⟨l, bytes, hwritten, hbefore, hkeep⟩ := FileTree.find_of_update happend
    have hapart : s.LogApart p ↔ k ≠ l := by
      rw [logApart_iff hq (FileTree.place?_eq_some.mpr ⟨e, h⟩)]
      constructor
      · rintro hne rfl
        rcases hbefore with hnone | hfound
        · simp [FileTree.entryAt?_of_find h] at hnone
        · exact hne (FileTree.place?_eq_some.mpr ⟨_, hfound⟩)
      · intro hne hplace
        obtain ⟨f, hfound⟩ := FileTree.place?_eq_some.mp hplace
        have hafter := hkeep q k f hfound
        rw [hwritten] at hafter
        simp only [Except.ok.injEq, Prod.mk.injEq] at hafter
        exact hne hafter.1.symm
    have hp := hkeep p k e h
    refine ⟨_, hp, fun hlog => if_neg (hapart.mp hlog), ?_⟩
    rw [hapart, logApart_iff (hlogFile.trans hq) (FileTree.place?_eq_some.mpr ⟨_, hp⟩),
      FileTree.place?_eq_some.mpr ⟨_, hwritten⟩, Ne, Ne, Option.some.injEq, eq_comm]

/-- A file that the log does not go to is read as before, and the log stays away from it. -/
theorem readText_log {s : Memory} (line : LogLine) {p : Path} {text : String}
    (h : s.files.readText p = .ok text) (hlog : s.LogApart p) :
    (s.log line).files.readText p = .ok text ∧ (s.log line).LogApart p := by
  obtain ⟨l, hfind⟩ := FileTree.readText_eq_ok.mp h
  obtain ⟨e, hafter, hsame, hapart⟩ := find_log line hfind
  obtain rfl := hsame hlog
  exact ⟨FileTree.readText_eq_ok.mpr ⟨l, hafter⟩, hapart.mp hlog⟩

theorem length_writeEach (s : Memory) (pages : List (Path × String)) :
    (s.writeEach pages).1.length = pages.length := by
  induction pages generalizing s with
  | nil => rfl
  | cons page more ih => exact congrArg (· + 1) (ih _)

theorem wrote_writeEach {s : Memory} {pages : List (Path × String)}
    (h : ∀ o ∈ (s.writeEach pages).1, o = .ok ()) :
    FileTree.Wrote s.files pages (s.writeEach pages).2.files := by
  induction pages generalizing s with
  | nil => exact .nil
  | cons page more ih =>
    obtain ⟨path, text⟩ := page
    have hfirst : (s.write path text).1 = .ok () := h _ List.mem_cons_self
    have hmore := ih fun o ho => h o (List.mem_cons_of_mem _ ho)
    cases hwrite : s.files.writeText path text with
    | error e => simp [write, hwrite] at hfirst
    | ok files =>
      have hs : (s.write path text).2.files = files := by simp [write, hwrite]
      exact .cons hwrite (hs ▸ hmore)

end Memory

/-- A run on a machine in memory. -/
abbrev Memory.Run (α : Type) : Type :=
  ExceptT Failure (StateM Memory) α

section Run

variable {α β : Type} {x : Memory.Run α}
  {f : α → Memory.Run β} {s s₁ s' : Memory}

theorem run_bind_of_ok {a : α} (h : x.run s = (.ok a, s₁)) : (x >>= f).run s = (f a).run s₁ := by
  change ExceptT.bindCont f (x.run s).1 (x.run s).2 = _
  rw [h]
  rfl

theorem run_bind_of_error {e : Failure} (h : x.run s = (.error e, s₁)) :
    (x >>= f).run s = (.error e, s₁) := by
  change ExceptT.bindCont f (x.run s).1 (x.run s).2 = _
  rw [h]
  rfl

theorem run_bind_cases {r : Except Failure β} (h : (x >>= f).run s = (r, s')) :
    (∃ e, x.run s = (.error e, s') ∧ r = .error e) ∨
      ∃ a s₁, x.run s = (.ok a, s₁) ∧ (f a).run s₁ = (r, s') := by
  match hx : x.run s with
  | (.ok a, s₁) => exact .inr ⟨a, s₁, rfl, run_bind_of_ok hx ▸ h⟩
  | (.error e, s₁) =>
    rw [run_bind_of_error hx] at h
    cases h
    exact .inl ⟨e, rfl, rfl⟩

theorem exists_of_run_bind {b : β} (h : (x >>= f).run s = (.ok b, s')) :
    ∃ a s₁, x.run s = (.ok a, s₁) ∧ (f a).run s₁ = (.ok b, s') := by
  rcases run_bind_cases h with ⟨e, -, he⟩ | hok
  · cases he
  · exact hok

theorem run_logAll (lines : List LogLine) (s : Memory) :
    (liftM (Host.logAll (m := StateM Memory) lines) :
      Memory.Run Unit).run s = (.ok (), lines.foldl Memory.log s) := by
  induction lines generalizing s with
  | nil => rfl
  | cons line lines ih =>
    rw [List.foldl_cons, ← ih]
    rfl

theorem run_isDirectory (path : Path) (s : Memory) :
    (liftM (Host.isDirectory (m := StateM Memory) path) : Memory.Run Bool).run s =
      (.ok (s.files.isDirectory path), s) :=
  rfl

theorem run_scan (path : Path) (s : Memory) :
    (liftM (Host.scan (m := StateM Memory) path) : Memory.Run (List Scanned)).run s =
      (.ok (s.files.scan path), s) :=
  rfl

theorem run_readText (path : Path) (s : Memory) :
    (ExceptT.mk (Failure.onFile path <$> Host.readText path) : Memory.Run String).run s =
      (Failure.onFile path (s.files.readText path), s) :=
  rfl

theorem run_makeDirectories (path : Path) (s : Memory) :
    (ExceptT.mk (Failure.onFile path <$> Host.makeDirectories path) : Memory.Run Unit).run s =
      (Failure.onFile path (s.makeDirectories path).1, (s.makeDirectories path).2) :=
  rfl

theorem run_writeAll (pages : List (Path × String)) (s : Memory) :
    (liftM (Host.writeAll (m := StateM Memory) pages) :
      Memory.Run (List (Except FileError Unit))).run s =
        (.ok (s.writeEach pages).1, (s.writeEach pages).2) :=
  rfl

end Run

end ContractDocs
