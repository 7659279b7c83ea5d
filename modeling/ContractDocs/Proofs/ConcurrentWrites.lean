import ContractDocs.Proofs.FileChanges
import ContractDocs.Proofs.IndependentPaths
import ContractDocs.Proofs.PageFiles

/-! Writing the pages of a site at the same time. The machine takes turns between the writes, lets
each go on for as many bytes as it likes, and makes some of them fail. -/

namespace ContractDocs

/-- What the machine does to a write that the files do not stand in the way of. -/
inductive WriteFault where
  | refused (error : FileError)
  /-- The file is opened, but the write ends after so many bytes. -/
  | broken (error : FileError) (written : Nat)
deriving DecidableEq

inductive Progress where
  | waiting
  | opened (place : Location) (written : Nat)
  | ended (outcome : Except FileError Unit)

structure PageWrite where
  path : Path
  text : String
  fault : Option WriteFault
deriving DecidableEq

namespace PageWrite

/-- The outcome of the write where there is no other one. -/
def alone (w : PageWrite) (t : FileTree) : Except FileError Unit :=
  match w.fault with
  | some (.refused e) => .error e
  | some (.broken e _) => t.writeText w.path w.text >>= fun _ => .error e
  | none => t.writeText w.path w.text >>= fun _ => .ok ()

/-- The place of the file that is opened. -/
def place (w : PageWrite) (t : FileTree) : Except FileError Location :=
  match w.fault with
  | some (.refused e) => .error e
  | _ => t.slot w.path

/-- How many bytes are in the file when the write ends, and its outcome. -/
def ending (w : PageWrite) : Nat × Except FileError Unit :=
  match w.fault with
  | some (.broken e written) => (written, .error e)
  | _ => (w.text.toUTF8.size, .ok ())

def fill (w : PageWrite) (t : FileTree) (l : Location) (written : Nat) : FileTree :=
  t.put l (.file (w.text.toUTF8.extract 0 written))

/-- Goes on with a write: opens the file, or writes some more bytes. -/
def advance (w : PageWrite) (t : FileTree) (amount : Nat) : Progress → FileTree × Progress
  | .waiting =>
    match w.place t with
    | .ok l => (w.fill t l 0, .opened l 0)
    | .error e => (t, .ended (.error e))
  | .opened l written =>
    if w.ending.1 ≤ written + amount then (w.fill t l w.ending.1, .ended w.ending.2)
    else (w.fill t l (written + amount), .opened l (written + amount))
  | .ended outcome => (t, .ended outcome)

def complete (w : PageWrite) (t : FileTree) : Progress → FileTree × Except FileError Unit
  | .waiting =>
    match w.place t with
    | .ok l => (w.fill t l w.ending.1, w.ending.2)
    | .error e => (t, .error e)
  | .opened l _ => (w.fill t l w.ending.1, w.ending.2)
  | .ended outcome => (t, outcome)

theorem alone_eq (w : PageWrite) (t : FileTree) :
    w.alone t = w.place t >>= fun _ => w.ending.2 := by
  unfold alone place ending FileTree.writeText
  rw [FileTree.writeBytes_eq]
  rcases w.fault with _ | _ | _
  · cases t.slot w.path <;> rfl
  · rfl
  · cases t.slot w.path <;> rfl

theorem slot_of_place {w : PageWrite} {t : FileTree} {l : Location} (h : w.place t = .ok l) :
    t.slot w.path = .ok l := by
  unfold place at h
  split at h
  · cases h
  · exact h

theorem fill_ending {w : PageWrite} (h : w.ending.2 = .ok ()) (t : FileTree) (l : Location) :
    w.fill t l w.ending.1 = t.put l (.file w.text.toUTF8) := by
  unfold ending at h
  unfold fill ending
  split at h
  · cases h
  · rw [ByteArray.extract_zero_size]

end PageWrite

structure Writing where
  files : FileTree
  progress : Nat → Progress

namespace Writing

def move (s : Writing) (i : Nat) (files : FileTree) (progress : Progress) : Writing :=
  ⟨files, fun j => if j = i then progress else s.progress j⟩

/-- A turn of the write at position `turn.1`. -/
def turn (writes : List PageWrite) (s : Writing) (turn : Nat × Nat) : Writing :=
  match writes[turn.1]? with
  | none => s
  | some w =>
    let (files, progress) := w.advance s.files turn.2 (s.progress turn.1)
    s.move turn.1 files progress

def completeFrom (s : Writing) (i : Nat) :
    List PageWrite → List (Except FileError Unit) × FileTree
  | [] => ([], s.files)
  | w :: more =>
    let (files, outcome) := w.complete s.files (s.progress i)
    let (outcomes, files) := (s.move i files (.ended outcome)).completeFrom (i + 1) more
    (outcome :: outcomes, files)

end Writing

def PageWrite.ofPages (faults : Nat → Option WriteFault) (pages : List (Path × String)) :
    List PageWrite :=
  pages.mapIdx fun i page => ⟨page.1, page.2, faults i⟩

theorem PageWrite.getElem?_ofPages (faults : Nat → Option WriteFault)
    (pages : List (Path × String)) (i : Nat) :
    (ofPages faults pages)[i]? = pages[i]?.map fun page => ⟨page.1, page.2, faults i⟩ :=
  List.getElem?_mapIdx

theorem PageWrite.map_path_ofPages (faults : Nat → Option WriteFault)
    (pages : List (Path × String)) : (ofPages faults pages).map (·.path) = pages.map (·.1) := by
  refine List.ext_getElem? fun i => ?_
  rw [List.getElem?_map, List.getElem?_map, getElem?_ofPages, Option.map_map]
  rfl

namespace Memory

/-- Writes all pages at the same time. What is not done after the given turns is done then. -/
def writeTogether (s : Memory) (turns : List (Nat × Nat)) (faults : Nat → Option WriteFault)
    (pages : List (Path × String)) : List (Except FileError Unit) × Memory :=
  let writes := PageWrite.ofPages faults pages
  let started := turns.foldl (Writing.turn writes) ⟨s.files, fun _ => .waiting⟩
  let (outcomes, files) := started.completeFrom 0 writes
  (outcomes, { s with files })

abbrev together (turns : List (Nat × Nat)) (faults : Nat → Option WriteFault) :
    Host (StateM Memory) :=
  { (inferInstance : Host (StateM Memory)) with
    writeAll := fun pages s => s.writeTogether turns faults pages }

end Memory

def Site.writeTogether (site : Site) (out : Path) (turns : List (Nat × Nat))
    (faults : Nat → Option WriteFault) : Memory.Run Nat :=
  @Site.write (StateM Memory) _ (Memory.together turns faults) site out

namespace PageWrite

/-- What is known of a write when the files were `t` at first and are `t'` now. -/
def Fits (w : PageWrite) (t t' : FileTree) : Progress → Prop
  | .waiting => True
  | .opened l _ => w.place t = .ok l
  | .ended outcome => outcome = w.alone t ∧ (outcome = .ok () →
      ∃ l, t.slot w.path = .ok l ∧ t'.entryAt? l = some (.file w.text.toUTF8))

section Step

variable {w : PageWrite} {t t' : FileTree} {l : Location}

theorem Fits.put {progress : Progress} (h : w.Fits t t' progress) (hroot : l ≠ [])
    (hne : ∀ k, t.slot w.path = .ok k → k ≠ l) (e : Entry) :
    w.Fits t (t'.put l e) progress := by
  cases progress with
  | waiting => trivial
  | opened k written => exact h
  | ended outcome =>
    refine ⟨h.1, fun hok => ?_⟩
    obtain ⟨k, hk, hentry⟩ := h.2 hok
    refine ⟨k, hk, ?_⟩
    rw [FileTree.entryAt?_put hroot, if_neg (hne k hk), hentry]

theorem fits_failed {e : FileError} (h : w.place t = .error e) :
    w.Fits t t' (.ended (.error e)) := by
  refine ⟨?_, fun hok => nomatch hok⟩
  rw [alone_eq, h]
  rfl

theorem fits_filled (h : w.place t = .ok l) :
    w.Fits t (w.fill t' l w.ending.1) (.ended w.ending.2) := by
  refine ⟨?_, fun hok => ⟨l, slot_of_place h, ?_⟩⟩
  · rw [alone_eq, h]
    rfl
  · have hslot := (FileTree.exists_locate_of_slot (slot_of_place h)).1
    rw [fill_ending hok, hslot.entryAt?_put_self]

/-- The two things that a turn does: it leaves the files alone, or fills the file of this write. -/
inductive Moves (w : PageWrite) (t t' : FileTree) : FileTree → Progress → Prop where
  | keep {progress : Progress} : w.Fits t t' progress → Moves w t t' t' progress
  | fill {l : Location} {n : Nat} {progress : Progress} : w.place t = .ok l →
      w.Fits t (w.fill t' l n) progress → Moves w t t' (w.fill t' l n) progress

theorem moves_advance {progress : Progress} (hplace : w.place t' = w.place t)
    (h : w.Fits t t' progress) (amount : Nat) :
    w.Moves t t' (w.advance t' amount progress).1 (w.advance t' amount progress).2 := by
  cases progress with
  | waiting =>
    rw [advance, hplace]
    cases hopen : w.place t with
    | error e => exact .keep (fits_failed hopen)
    | ok l => exact .fill hopen hopen
  | opened l written =>
    rw [advance]
    split
    · exact .fill h (fits_filled h)
    · exact .fill h h
  | ended outcome => exact .keep h

theorem moves_complete {progress : Progress} (hplace : w.place t' = w.place t)
    (h : w.Fits t t' progress) :
    w.Moves t t' (w.complete t' progress).1 (.ended (w.complete t' progress).2) := by
  cases progress with
  | waiting =>
    rw [complete, hplace]
    cases hopen : w.place t with
    | error e => exact .keep (fits_failed hopen)
    | ok l => exact .fill hopen (fits_filled hopen)
  | opened l written => exact .fill h (fits_filled h)
  | ended outcome => exact .keep h

end Step

end PageWrite

namespace Writing

/-- What is known of all writes when the files were `t` at first: only files of `paths` have
changed, and each write fits. -/
structure Fits (s : Writing) (t : FileTree) (paths : List Path) (writes : List PageWrite) :
    Prop where
  files : FileTree.FilesAt (t.SlotOf paths) t s.files
  progress : ∀ (i : Nat) (w : PageWrite), writes[i]? = some w → w.Fits t s.files (s.progress i)

section Steps

variable {t : FileTree} {paths : List Path} {writes : List PageWrite} {s : Writing}
  {i : Nat} {w : PageWrite}

theorem Fits.place (h : s.Fits t paths writes) (hpaths : t.Independent paths)
    (hw : w.path ∈ paths) : w.place s.files = w.place t := by
  unfold PageWrite.place
  rw [hpaths.slot_eq h.files hw]

theorem path_mem (hwrites : (writes.map (·.path)).Sublist paths) (hw : writes[i]? = some w) :
    w.path ∈ paths :=
  hwrites.subset (List.mem_map_of_mem (List.mem_of_getElem? hw))

theorem path_ne (hnodup : (writes.map (·.path)).Nodup) {j : Nat} {v : PageWrite}
    (hv : writes[j]? = some v) (hw : writes[i]? = some w) (hji : j ≠ i) : v.path ≠ w.path := by
  intro heq
  have hlt : j < (writes.map (·.path)).length := by
    simpa using (List.getElem?_eq_some_iff.mp hv).1
  refine hji ((List.getElem?_inj hlt hnodup).mp ?_)
  rw [List.getElem?_map, List.getElem?_map, hv, hw]
  exact congrArg some heq

theorem Fits.move (h : s.Fits t paths writes) (hpaths : t.Independent paths)
    (hwrites : (writes.map (·.path)).Sublist paths) (hw : writes[i]? = some w)
    {files : FileTree} {progress : Progress} (hmoves : w.Moves t s.files files progress) :
    Fits (s.move i files progress) t paths writes := by
  obtain ⟨hfiles, hself, hothers⟩ : FileTree.FilesAt (t.SlotOf paths) t files ∧
      w.Fits t files progress ∧
        ∀ j v, writes[j]? = some v → j ≠ i → v.Fits t files (s.progress j) := by
    cases hmoves with
    | keep hfits => exact ⟨h.files, hfits, fun j v hv _ => h.progress j v hv⟩
    | @fill l n _ hplace hfits =>
      have hl := PageWrite.slot_of_place hplace
      have hroot := (FileTree.exists_locate_of_slot hl).1.ne_root
      refine ⟨h.files.put (path_mem hwrites hw) hl _, hfits, fun j v hv hji => ?_⟩
      -- No other write fills this place, so the others still fit.
      have hne := path_ne (hpaths.nodup.sublist hwrites) hv hw hji
      exact (h.progress j v hv).put hroot (fun k hk =>
        hpaths.slot_ne (path_mem hwrites hv) (path_mem hwrites hw) hne hk hl) _
  refine ⟨hfiles, fun j v hv => ?_⟩
  by_cases hji : j = i
  · subst hji
    obtain rfl : w = v := by simpa [hw] using hv
    simpa [Writing.move] using hself
  · simpa [Writing.move, hji] using hothers j v hv hji

theorem Fits.turn (h : s.Fits t paths writes) (hpaths : t.Independent paths)
    (hwrites : (writes.map (·.path)).Sublist paths) (turn : Nat × Nat) :
    Fits (s.turn writes turn) t paths writes := by
  unfold Writing.turn
  cases hw : writes[turn.1]? with
  | none => exact h
  | some w =>
    have hplace := h.place hpaths (path_mem hwrites hw)
    have hmoves := PageWrite.moves_advance hplace (h.progress _ w hw) turn.2
    exact h.move hpaths hwrites hw hmoves

theorem Fits.turns (h : s.Fits t paths writes) (hpaths : t.Independent paths)
    (hwrites : (writes.map (·.path)).Sublist paths) (turns : List (Nat × Nat)) :
    Fits (turns.foldl (Writing.turn writes) s) t paths writes := by
  induction turns generalizing s with
  | nil => exact h
  | cons turn turns ih => exact ih (h.turn hpaths hwrites turn)

end Steps

end Writing

/-- The writes are done: each that succeeds alone has left its text. -/
structure Written (t : FileTree) (paths : List Path) (writes : List PageWrite) (t' : FileTree) :
    Prop where
  files : FileTree.FilesAt (t.SlotOf paths) t t'
  entry : ∀ w ∈ writes, w.alone t = .ok () →
    ∃ l, t.slot w.path = .ok l ∧ t'.entryAt? l = some (.file w.text.toUTF8)

section Run

variable {t : FileTree} {paths : List Path} {writes : List PageWrite}

theorem Writing.Fits.written {s : Writing} (h : s.Fits t paths writes)
    (hended : ∀ i < writes.length, ∃ outcome, s.progress i = .ended outcome) :
    Written t paths writes s.files where
  files := h.files
  entry w hw hok := by
    obtain ⟨i, hi⟩ := List.mem_iff_getElem?.mp hw
    obtain ⟨outcome, hprogress⟩ := hended i (List.getElem?_eq_some_iff.mp hi).1
    have hfits := h.progress i w hi
    rw [hprogress] at hfits
    exact hfits.2 (hfits.1.trans hok)

theorem Writing.Fits.completeFrom {s : Writing} (h : s.Fits t paths writes)
    (hpaths : t.Independent paths) (hwrites : (writes.map (·.path)).Sublist paths) {i : Nat}
    {rest : List PageWrite} (hrest : writes.drop i = rest)
    (hended : ∀ j < i, ∃ outcome, s.progress j = .ended outcome) :
    (s.completeFrom i rest).1 = rest.map (·.alone t) ∧
      Written t paths writes (s.completeFrom i rest).2 := by
  induction rest generalizing s i with
  | nil =>
    have hlength := List.drop_eq_nil_iff.mp hrest
    exact ⟨rfl, h.written fun j hj => hended j (by omega)⟩
  | cons w rest ih =>
    have hw : writes[i]? = some w := by
      rw [← List.head?_drop, hrest, List.head?_cons]
    have hplace := h.place hpaths (path_mem hwrites hw)
    have hmoves := PageWrite.moves_complete hplace (h.progress i w hw)
    have hnext := h.move hpaths hwrites hw hmoves
    -- However far the turns have brought this write, its outcome is the one it has alone.
    have houtcome : (w.complete s.files (s.progress i)).2 = w.alone t := by
      have hfits := hnext.progress i w hw
      simp only [Writing.move, if_true] at hfits
      exact hfits.1
    obtain ⟨houtcomes, hwritten⟩ := ih hnext (by rw [← List.tail_drop, hrest, List.tail_cons])
      fun j hj => by
        by_cases hji : j = i
        · exact ⟨_, if_pos hji⟩
        · obtain ⟨outcome, hprogress⟩ := hended j (by omega)
          exact ⟨outcome, (if_neg hji).trans hprogress⟩
    exact ⟨congrArg₂ List.cons houtcome houtcomes, hwritten⟩

end Run

namespace Memory

variable {t : FileTree} {paths : List Path} {s : Memory} {writes : List PageWrite}

theorem written_writeTogether (hpaths : t.Independent paths)
    (hfiles : FileTree.FilesAt (t.SlotOf paths) t s.files) (turns : List (Nat × Nat))
    (faults : Nat → Option WriteFault) {pages : List (Path × String)}
    (hpages : (pages.map (·.1)).Sublist paths) :
    (s.writeTogether turns faults pages).1 = (PageWrite.ofPages faults pages).map (·.alone t) ∧
      Written t paths (PageWrite.ofPages faults pages)
        (s.writeTogether turns faults pages).2.files := by
  have hwrites : ((PageWrite.ofPages faults pages).map (·.path)).Sublist paths := by
    rwa [PageWrite.map_path_ofPages]
  have hstart : Writing.Fits ⟨s.files, fun _ => .waiting⟩ t paths
      (PageWrite.ofPages faults pages) :=
    ⟨hfiles, fun _ _ _ => trivial⟩
  exact (hstart.turns hpaths hwrites turns).completeFrom hpaths hwrites rfl
    fun j hj => absurd hj (Nat.not_lt_zero j)

theorem written_log (hpaths : t.Independent paths) (hlog : ∀ q ∈ s.logFile, q ∈ paths)
    (hwrites : ∀ w ∈ writes, w.path ∈ paths ∧ w.path ∉ s.logFile)
    (h : Written t paths writes s.files) (line : LogLine) :
    Written t paths writes (s.log line).files := by
  obtain ⟨-, hsame | ⟨q, hq, text, happend⟩⟩ := s.log_eq line
  · rwa [hsame]
  · obtain ⟨l, bytes, hslot, hput⟩ := FileTree.slot_of_update happend
    -- The log still leads to its own place, where none of the pages is.
    rw [hpaths.slot_eq h.files (hlog q hq)] at hslot
    have hroot := (FileTree.exists_locate_of_slot hslot).1.ne_root
    rw [hput]
    refine ⟨h.files.put (hlog q hq) hslot bytes, fun w hw hok => ?_⟩
    obtain ⟨k, hk, hentry⟩ := h.entry w hw hok
    obtain ⟨hmem, hapart⟩ := hwrites w hw
    have hne : w.path ≠ q := fun heq => hapart (heq ▸ hq)
    refine ⟨k, hk, ?_⟩
    rw [FileTree.entryAt?_put hroot, if_neg (hpaths.slot_ne hmem (hlog q hq) hne hk hslot), hentry]

theorem filesAt_logAll (hpaths : t.Independent paths) (hlog : ∀ q ∈ s.logFile, q ∈ paths)
    (h : FileTree.FilesAt (t.SlotOf paths) t s.files) (lines : List LogLine) :
    FileTree.FilesAt (t.SlotOf paths) t (lines.foldl log s).files := by
  induction lines generalizing s with
  | nil => exact h
  | cons line lines ih =>
    have hwritten : Written t paths [] s.files := ⟨h, by simp⟩
    refine ih ?_ (written_log hpaths hlog (by simp) hwritten line).files
    rwa [(s.log_eq line).1]

end Memory

theorem PageWrite.ofPages_none (pages : List (Path × String)) :
    ofPages (fun _ => none) pages = pages.map fun page => ⟨page.1, page.2, none⟩ := by
  refine List.ext_getElem? fun i => ?_
  rw [getElem?_ofPages, List.getElem?_map]

namespace Memory

theorem write_eq_complete (s : Memory) (path : Path) (text : String) :
    let done := PageWrite.complete ⟨path, text, none⟩ s.files .waiting
    s.write path text = (done.2, { s with files := done.1 }) := by
  have hwhole (t : FileTree) (l : Location) :=
    PageWrite.fill_ending (w := ⟨path, text, none⟩) rfl t l
  unfold write FileTree.writeText
  rw [FileTree.writeBytes_eq, PageWrite.complete, PageWrite.place]
  cases s.files.slot path with
  | error e => rfl
  | ok l =>
    dsimp only
    rw [hwhole]
    rfl

theorem completeFrom_waiting (s : Memory) (pages : List (Path × String)) {i : Nat}
    {progress : Nat → Progress} (hwaiting : ∀ j, i ≤ j → progress j = .waiting) :
    let done := Writing.completeFrom ⟨s.files, progress⟩ i
      (pages.map fun page => ⟨page.1, page.2, none⟩)
    (done.1, { s with files := done.2 }) = s.writeEach pages := by
  induction pages generalizing s i progress with
  | nil => rfl
  | cons page more ih =>
    obtain ⟨path, text⟩ := page
    have hfirst : (Writing.mk s.files progress).progress i = .waiting :=
      hwaiting i (Nat.le_refl i)
    have hnext (p : Progress) (j : Nat) (hj : i + 1 ≤ j) :
        (if j = i then p else progress j) = .waiting := by
      rw [if_neg (by omega), hwaiting j (by omega)]
    rw [writeEach, s.write_eq_complete path text]
    dsimp only
    rw [← ih _ (hnext _), List.map_cons, Writing.completeFrom, hfirst]
    rfl

theorem together_nil :
    together [] (fun _ => none) = (inferInstance : Host (StateM Memory)) := by
  have hwrite : (fun pages (s : Memory) => s.writeTogether [] (fun _ => none) pages) =
      fun pages s => s.writeEach pages := by
    funext pages s
    unfold writeTogether
    rw [PageWrite.ofPages_none]
    exact s.completeFrom_waiting pages fun _ _ => rfl
  unfold together
  rw [hwrite]
  rfl

end Memory

namespace Site

theorem outcome_of_ok {paths : List Path} {outcomes : List (Except FileError Unit)}
    (h : ∀ o ∈ outcomes, o = .ok ()) : outcome paths outcomes = .ok () := by
  induction paths generalizing outcomes with
  | nil => rfl
  | cons path paths ih =>
    cases outcomes with
    | nil => rfl
    | cons o outcomes =>
      obtain ⟨rfl, hmore⟩ := List.forall_mem_cons.mp h
      exact ih hmore

theorem outcome_of_error {paths : List Path} {outcomes : List (Except FileError Unit)} {i : Nat}
    {p : Path} {e : FileError} (hp : paths[i]? = some p) (he : outcomes[i]? = some (.error e))
    (hbefore : ∀ o ∈ outcomes.take i, o = .ok ()) :
    outcome paths outcomes = .error (.file p e) := by
  induction i generalizing paths outcomes with
  | zero =>
    obtain ⟨paths, rfl⟩ := List.head?_eq_some_iff.mp (List.head?_eq_getElem? ▸ hp)
    obtain ⟨outcomes, rfl⟩ := List.head?_eq_some_iff.mp (List.head?_eq_getElem? ▸ he)
    rfl
  | succ i ih =>
    match paths, outcomes with
    | path :: paths, o :: outcomes =>
      obtain ⟨rfl, hmore⟩ := List.forall_mem_cons.mp hbefore
      exact @ih paths outcomes hp he hmore

section Together

variable (turns : List (Nat × Nat)) (faults : Nat → Option WriteFault)

theorem logAll_together (lines : List LogLine) :
    @Host.logAll (StateM Memory) _ (Memory.together turns faults) lines = Host.logAll lines := by
  induction lines with
  | nil => rfl
  | cons line lines ih =>
    exact congrArg (fun more => (Host.log line : StateM Memory Unit) >>= fun _ => more) ih

theorem run_writeTogether (site : Site) {out : Path} {s : Memory}
    (hout : (s.makeDirectories out).1 = .ok ()) :
    let logged := (site.pagesLog out).foldl Memory.log (s.makeDirectories out).2
    let written := logged.writeTogether turns faults (site.pages out)
    (site.writeTogether out turns faults).run s =
      match outcome ((site.pages out).map (·.1)) written.1 with
      | .error e => (.error e, written.2)
      | .ok () => (.ok (site.pages out).length, written.2.log
          ⟨.info, "Wrote " ++ toString (site.pages out).length ++ " pages to " ++ out.text⟩) := by
  intro logged written
  have hmake : (ExceptT.mk (Failure.onFile out <$>
      @Host.makeDirectories (StateM Memory) (Memory.together turns faults) out) :
        Memory.Run Unit).run s = (.ok (), (s.makeDirectories out).2) := by
    rw [show (Except.ok () : Except Failure Unit) = Failure.onFile out (.ok ()) from rfl, ← hout]
    rfl
  unfold writeTogether write
  rw [run_bind_of_ok hmake, logAll_together, run_bind_of_ok (run_logAll _ _)]
  have hwrite : (liftM (@Host.writeAll (StateM Memory) (Memory.together turns faults)
      (site.pages out)) : Memory.Run (List (Except FileError Unit))).run logged =
        (.ok written.1, written.2) := rfl
  rw [run_bind_of_ok hwrite]
  have houtcome : (ExceptT.mk (pure (outcome ((site.pages out).map (·.1)) written.1)) :
      Memory.Run Unit).run written.2 =
        (outcome ((site.pages out).map (·.1)) written.1, written.2) := rfl
  cases hall : outcome ((site.pages out).map (·.1)) written.1 with
  | error e =>
    rw [hall] at houtcome
    rw [run_bind_of_error houtcome]
  | ok u =>
    rw [hall] at houtcome
    rw [run_bind_of_ok houtcome, logAll_together, run_bind_of_ok (run_logAll _ _)]
    rfl

/-- The writes come to what they would come to alone, so that neither their turns nor the faults of
others matter. -/
theorem written_of_writeTogether {site : Site} {out : Path} {s : Memory}
    (hout : (s.makeDirectories out).1 = .ok ())
    (hpaths : (s.makeDirectories out).2.files.Independent
      (s.logFile.toList ++ (site.pages out).map (·.1))) :
    let t := (s.makeDirectories out).2.files
    let writes := PageWrite.ofPages faults (site.pages out)
    let ended := (site.writeTogether out turns faults).run s
    ended.1 = (outcome ((site.pages out).map (·.1)) (writes.map (·.alone t))).map
        (fun _ => (site.pages out).length) ∧
      Written t (s.logFile.toList ++ (site.pages out).map (·.1)) writes ended.2.files := by
  intro t writes ended
  have hlog : ∀ q ∈ (s.makeDirectories out).2.logFile,
      q ∈ s.logFile.toList ++ (site.pages out).map (·.1) :=
    fun q hq => List.mem_append_left _ (Option.mem_toList.mpr hq)
  have hfiles := Memory.filesAt_logAll hpaths hlog (t.filesAt_slotOf _) (site.pagesLog out)
  obtain ⟨houtcomes, hwritten⟩ := Memory.written_writeTogether hpaths hfiles turns faults
    (List.sublist_append_right _ _)
  have hrun := run_writeTogether turns faults site hout
  dsimp only at hrun
  rw [houtcomes] at hrun
  cases hall : outcome ((site.pages out).map (·.1)) (writes.map (·.alone t)) with
  | error e =>
    rw [hall] at hrun
    rw [show ended = _ from hrun]
    exact ⟨rfl, hwritten⟩
  | ok u =>
    rw [hall] at hrun
    rw [show ended = _ from hrun]
    have hlogFile : ((site.pagesLog out).foldl Memory.log (s.makeDirectories out).2).logFile =
        s.logFile := Memory.logFile_logAll _ _
    refine ⟨rfl, Memory.written_log hpaths (hlogFile ▸ hlog) (fun w hw => ?_) hwritten _⟩
    have hpath : w.path ∈ (site.pages out).map (·.1) := by
      rw [← PageWrite.map_path_ofPages faults]
      exact List.mem_map_of_mem hw
    refine ⟨List.mem_append_right _ hpath, fun hq => ?_⟩
    have hmem : w.path ∈ s.logFile.toList := Option.mem_toList.mpr (hlogFile ▸ hq)
    exact (List.nodup_append.mp hpaths.nodup).2.2 _ hmem _ hpath rfl

end Together

/-- Pages that stay out of each other's way, and out of that of the log, may take any turns, and
some of them may fail: the others leave their whole texts, the first failure in the order of the
pages is the one that is told, and the pages are counted just if there is none. Without turns
and faults, this is the usual way to write. -/
theorem write_tries_every_page {site : Site} {out : Path} {s : Memory}
    (hout : (s.makeDirectories out).1 = .ok ())
    (hpaths : (s.makeDirectories out).2.files.Independent
      (s.logFile.toList ++ (site.pages out).map (·.1)))
    (turns : List (Nat × Nat)) (faults : Nat → Option WriteFault) :
    let t := (s.makeDirectories out).2.files
    let writes := PageWrite.ofPages faults (site.pages out)
    let ended := (site.writeTogether out turns faults).run s
    (∀ w ∈ writes, w.alone t = .ok () → ended.2.files.readText w.path = .ok w.text) ∧
      (∀ i w e, writes[i]? = some w → w.alone t = .error e →
        (∀ v ∈ writes.take i, v.alone t = .ok ()) → ended.1 = .error (.file w.path e)) ∧
      (∀ n, ended.1 = .ok n ↔ n = (site.pages out).length ∧ ∀ w ∈ writes, w.alone t = .ok ()) ∧
      site.writeTogether out [] (fun _ => none) = site.write out := by
  intro t writes ended
  obtain ⟨hended, hwritten⟩ := written_of_writeTogether turns faults hout hpaths
  refine ⟨fun w hw hok => ?_, fun i w e hw herror hbefore => ?_, fun n => ?_, ?_⟩
  · obtain ⟨l, hl, hentry⟩ := hwritten.entry w hw hok
    exact hwritten.files.readText hl hentry
  · have hp : ((site.pages out).map (·.1))[i]? = some w.path := by
      rw [← PageWrite.map_path_ofPages faults, List.getElem?_map, hw]
      rfl
    have he : (writes.map (·.alone t))[i]? = some (.error e) := by
      rw [List.getElem?_map, hw, ← herror]
      rfl
    have hfirst : ∀ o ∈ (writes.map (·.alone t)).take i, o = .ok () := by
      rw [← List.map_take]
      exact List.forall_mem_map.mpr hbefore
    rw [hended, outcome_of_error hp he hfirst]
    rfl
  · have hlength : (writes.map (·.alone t)).length = ((site.pages out).map (·.1)).length := by
      rw [← PageWrite.map_path_ofPages faults, List.length_map, List.length_map]
    have hall : outcome ((site.pages out).map (·.1)) (writes.map (·.alone t)) = .ok () ↔
        ∀ w ∈ writes, w.alone t = .ok () := by
      rw [← List.forall_mem_map (P := (· = Except.ok ()))]
      exact ⟨outcome_eq_ok hlength, outcome_of_ok⟩
    rw [hended, ← hall]
    cases outcome ((site.pages out).map (·.1)) (writes.map (·.alone t)) with
    | error e => simp [Except.map]
    | ok u => simp [Except.map, eq_comm]
  · unfold writeTogether
    rw [Memory.together_nil]

def vaultTokenAndSafe : Site where
  contracts :=
    [{ contractName := "Vault" }, { contractName := "Token" }, { contractName := "Safe" }]
  template := placeholder "ContractName"

/-- The page of the second contract cannot be written where a directory is. -/
def tokenDirectory : Memory where
  files := { entries := [(["docs"], .directory), (["Token.md", "docs"], .directory)] }
  logFile := some ⟨"run.log"⟩

/-- The disk is full when six bytes of the index are written. -/
def fullDisk : Nat → Option WriteFault
  | 3 => some (.broken (.other "No space left on device (os error 28)") 6)
  | _ => none

/-- The index fails first, but the page of the second contract comes before it. -/
theorem write_tries_vault_token_and_safe :
    let ended := (vaultTokenAndSafe.writeTogether ⟨"docs"⟩
      [(3, 0), (2, 0), (3, 8), (0, 0), (2, 2), (1, 0), (0, 3)] fullDisk).run tokenDirectory
    ended.1 = .error (.file ⟨"docs/Token.md"⟩ .isDirectory) ∧
      ended.2.files.readText ⟨"docs/Vault.md"⟩ = .ok "Vault\n" ∧
      ended.2.files.readText ⟨"docs/Safe.md"⟩ = .ok "Safe\n" := by
  have hout : (tokenDirectory.makeDirectories ⟨"docs"⟩).1 = .ok () := by decide +kernel
  have hpaths : (tokenDirectory.makeDirectories ⟨"docs"⟩).2.files.Independent
      (tokenDirectory.logFile.toList ++ (vaultTokenAndSafe.pages ⟨"docs"⟩).map (·.1)) :=
    FileTree.independent_of_target? (by decide +kernel) (by decide +kernel)
  obtain ⟨hread, hfirst, -⟩ := write_tries_every_page hout hpaths
    [(3, 0), (2, 0), (3, 8), (0, 0), (2, 2), (1, 0), (0, 3)] fullDisk
  refine ⟨hfirst 1 ⟨⟨"docs/Token.md"⟩, "Token\n", none⟩ .isDirectory ?_ ?_ ?_,
    hread ⟨⟨"docs/Vault.md"⟩, "Vault\n", none⟩ ?_ ?_,
    hread ⟨⟨"docs/Safe.md"⟩, "Safe\n", none⟩ ?_ ?_⟩
  all_goals decide +kernel

end Site

end ContractDocs
