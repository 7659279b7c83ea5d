import ContractDocs.Proofs.HostMemory
import Mathlib.Data.List.Nodup

/-! Paths that files can be written at in any order. A path that leads to some place leads there
whatever files are written. A path that leads nowhere may do so for another reason once a file
stands in its way, but if no single file does that, then several do not, either. -/

namespace ContractDocs

namespace FileTree

section Filled

variable {L : Location → Prop} {t t' : FileTree} {place : Location} {slash : Bool} {links : Nat}
  {names : List String}

theorem walk_congr_here {purpose : Purpose} (hsame : t'.entryAt? place = t.entryAt? place)
    (hends : t.entryAt? place = some .directory → names = []) :
    t'.walk purpose slash links place names = t.walk purpose slash links place names := by
  cases names with
  | nil => cases links <;> simp only [walk, walkWith, hsame]
  | cons name rest =>
    cases hentry : t.entryAt? place with
    | none => cases links <;> simp [walk, walkWith, hsame, hentry]
    | some e =>
      cases e with
      | file => cases links <;> simp [walk, walkWith, hsame, hentry]
      | link => cases links <;> simp [walk, walkWith, hsame, hentry]
      | directory => cases hends hentry

theorem walk_congr_file {purpose : Purpose} {bytes : ByteArray}
    (hfile : t.entryAt? place = some (.file bytes))
    (hfile' : t'.entryAt? place = some (.file bytes)) :
    t'.walk purpose slash links place names = t.walk purpose slash links place names := by
  refine walk_congr_here (hfile'.trans hfile.symm) fun hdir => ?_
  rw [hfile] at hdir
  cases hdir

/-- No file at a place of `L` changes how the walk ends. -/
def Unmoved (L : Location → Prop) (t : FileTree) (slash : Bool) (links : Nat) (place : Location)
    (names : List String) : Prop :=
  ∀ l, L l → ∀ bytes, (t.put l (.file bytes)).walk .file slash links place names =
    t.walk .file slash links place names

theorem FilesAt.refl (t : FileTree) : FilesAt (fun _ => False) t t :=
  ⟨rfl, fun _ h => h.elim, fun _ => .inl rfl⟩

/-- Where all such trees take the same step, they come to the same end if they do so after it. -/
theorem FilesAt.walk_eq_of_step (h : FilesAt L t t') {slash' : Bool} {links' : Nat}
    {place' : Location} {names' : List String}
    (hstep : ∀ {L' : Location → Prop} {t'' : FileTree}, FilesAt L' t t'' →
      t''.walk .file slash links place names = t''.walk .file slash' links' place' names')
    (hunmoved : Unmoved L t slash links place names)
    (hnext : Unmoved L t slash' links' place' names' →
      t'.walk .file slash' links' place' names' = t.walk .file slash' links' place' names') :
    t'.walk .file slash links place names = t.walk .file slash links place names := by
  rw [hstep h, hstep (.refl t)]
  refine hnext fun l hl bytes => ?_
  rw [← hstep ((h.isSlot l hl).filesAt_put bytes), ← hstep (.refl t)]
  exact hunmoved l hl bytes

theorem FilesAt.walk_eq_here (h : FilesAt L t t') (hunmoved : Unmoved L t slash links place names)
    (hends : t.entryAt? place = some .directory → names = []) :
    t'.walk .file slash links place names = t.walk .file slash links place names := by
  rcases h.entry place with hsame | ⟨hplace, bytes, hfile⟩
  · exact walk_congr_here hsame hends
  · rw [← hunmoved place hplace bytes]
    exact walk_congr_file ((h.isSlot place hplace).entryAt?_put_self t (.file bytes)) hfile

theorem walk_refused {purpose : Purpose} {name : String} {rest : List String}
    (hdir : t.entryAt? place = some .directory) (hdot : name ≠ ".") (hup : name ≠ "..")
    (hrefused : ¬ (¬ (rest.isEmpty && slash && purpose = .file) = true ∧
      ¬ maxName < name.utf8ByteSize)) :
    t.walk purpose slash links place (name :: rest) =
      .error (if rest.isEmpty && slash && purpose = .file then .isDirectory else .nameTooLong) := by
  by_cases hslash : (rest.isEmpty && slash && purpose = .file) = true
  · cases links <;> simp only [walk, walkWith, hdir, hdot, hup, hslash, if_true, if_false]
  · have hlong : maxName < name.utf8ByteSize := by simpa [hslash] using hrefused
    cases links <;>
      simp only [walk, walkWith, hdir, hdot, hup, hslash, hlong, if_true, if_false] <;> rfl

/-- The name is one to look up, and the walk goes on behind it with fewer names or fewer links. -/
theorem FilesAt.walk_eq_enters (h : FilesAt L t t') {name : String} {rest : List String}
    (hunmoved : Unmoved L t slash links place (name :: rest))
    (henter : Enters t .file slash place name rest)
    (hrest : Unmoved L t slash links (name :: place) rest →
      t'.walk .file slash links (name :: place) rest =
        t.walk .file slash links (name :: place) rest)
    (hlinks : ∀ n, links = n + 1 → ∀ slash place names, Unmoved L t slash n place names →
      t'.walk .file slash n place names = t.walk .file slash n place names) :
    t'.walk .file slash links place (name :: rest) =
      t.walk .file slash links place (name :: rest) := by
  have hdown {e : Entry} (hentry : t.entryAt? (name :: place) = some e)
      (hnolink : ∀ dest, e ≠ .link dest) : t'.walk .file slash links place (name :: rest) =
        t.walk .file slash links place (name :: rest) := by
    refine h.walk_eq_of_step (fun h'' => ?_) hunmoved hrest
    obtain ⟨e', hentry', hnolink'⟩ := h''.exists_entry hentry hnolink
    exact (h''.enters henter).walk_down links hentry' hnolink'
  match hentry : t.entryAt? (name :: place) with
  | some (.file bytes) => exact hdown hentry (by simp)
  | some .directory => exact hdown hentry (by simp)
  | some (.link dest) =>
    cases links with
    | zero => rw [(h.enters henter).walk, henter.walk, h.link hentry, hentry]
    | succ links =>
      have hstep {L' : Location → Prop} {t'' : FileTree} (h'' : FilesAt L' t t'') :
          t''.walk .file slash (links + 1) place (name :: rest) =
            t''.walk .file (slash || rest.isEmpty && dest.endsInSlash) links
              (if dest.isAbsolute then [] else place) (dest.pieces ++ rest) := by
        rw [(h''.enters henter).walk, h''.link hentry]
        simp
      exact h.walk_eq_of_step hstep hunmoved (hlinks links rfl _ _ _)
  | none =>
    rcases h.entry (name :: place) with hsame | ⟨hplace, bytes, hfile⟩
    · rw [(h.enters henter).walk, henter.walk, hsame, hentry]
    · -- the walk goes down to the new file, just as if it were the only one
      have hslot := h.isSlot _ hplace
      have hput := hslot.entryAt?_put_self t (.file bytes)
      rw [← hunmoved _ hplace bytes, (h.enters henter).walk_down links hfile (by simp),
        ((hslot.filesAt_put bytes).enters henter).walk_down links hput (by simp)]
      exact walk_congr_file hput hfile

/-- Files at several places together change nothing if none of them does so alone. -/
theorem FilesAt.walk_eq (h : FilesAt L t t') (hunmoved : Unmoved L t slash links place names) :
    t'.walk .file slash links place names = t.walk .file slash links place names := by
  induction links using Nat.strongRecOn generalizing slash place names with
  | ind links ihlinks =>
    induction names generalizing place with
    | nil => exact h.walk_eq_here hunmoved fun _ => rfl
    | cons name rest ih =>
      by_cases hdir : t.entryAt? place = some .directory
      · by_cases hdot : name = "."
        · subst hdot
          exact h.walk_eq_of_step (fun h'' => walk_stay (h''.directory hdir)) hunmoved ih
        · by_cases hup : name = ".."
          · subst hup
            exact h.walk_eq_of_step (fun h'' => walk_up (h''.directory hdir)) hunmoved ih
          · by_cases hrefused : ¬ (rest.isEmpty && slash && Purpose.file = .file) = true ∧
                ¬ maxName < name.utf8ByteSize
            · refine h.walk_eq_enters hunmoved ⟨hdir, hdot, hup, hrefused.1, hrefused.2⟩ ih ?_
              rintro n rfl slash place names
              exact ihlinks n (Nat.lt_succ_self n)
            · rw [walk_refused (h.directory hdir) hdot hup hrefused,
                walk_refused hdir hdot hup hrefused]
      · exact h.walk_eq_here hunmoved fun h => absurd h hdir

theorem FilesAt.locate (h : FilesAt L t t') {p : Path} {target : Target}
    (hlocate : t.locate .file p = .ok target) :
    t'.locate .file p = .ok (.ofEntry target.place (t'.entryAt? target.place)) := by
  obtain ⟨hpath, hleads⟩ := locate_eq_ok.mp hlocate
  exact locate_eq_ok.mpr ⟨hpath, h.workingDir ▸ h.leads hleads (.inl rfl)⟩

theorem FilesAt.locate_eq (h : FilesAt L t t') {p : Path}
    (hunmoved : ∀ l, L l → ∀ bytes, (t.put l (.file bytes)).locate .file p = t.locate .file p) :
    t'.locate .file p = t.locate .file p := by
  by_cases hpath : IsPath p
  · have hlocate (t : FileTree) : t.locate .file p = t.walk .file p.endsInSlash maxLinks
        (if p.isAbsolute then [] else t.workingDir) p.pieces := by
      rw [FileTree.locate, if_neg hpath.zeroless, if_neg hpath.nonempty, if_neg hpath.short]
    rw [hlocate, hlocate, h.workingDir]
    refine h.walk_eq fun l hl bytes => ?_
    have hput := hunmoved l hl bytes
    rwa [hlocate, hlocate] at hput
  · unfold FileTree.locate
    split
    · rfl
    · split
      · rfl
      · split
        · rfl
        · exact absurd ⟨‹_›, ‹_›, ‹_›⟩ hpath

end Filled

def slot (t : FileTree) (p : Path) : Except FileError Location := do
  match ← t.locate .file p with
  | .found l (.file _) => return l
  | .found _ .directory => throw .isDirectory
  | .found _ (.link _) => throw .tooManyLinks
  | .missing l => return l

theorem writeBytes_eq (t : FileTree) (p : Path) (bytes : ByteArray) :
    t.writeBytes p bytes = (t.slot p).map fun l => t.put l (.file bytes) := by
  unfold writeBytes update slot
  rcases t.locate .file p with _ | ⟨l, _ | _ | _⟩ | l <;> rfl

theorem slot_of_update {t t' : FileTree} {p : Path} {change : ByteArray → ByteArray}
    (h : t.update p change = .ok t') :
    ∃ l bytes, t.slot p = .ok l ∧ t' = t.put l (.file bytes) := by
  obtain ⟨target, bytes, hlocate, hentry, rfl⟩ := update_eq_ok h
  refine ⟨target.place, _, ?_, rfl⟩
  unfold slot
  rw [hlocate]
  match target, hentry with
  | .found l (.file _), _ => rfl
  | .missing l, _ => rfl
  | .found l .directory, h => simp [Target.entry?] at h
  | .found l (.link _), h => simp [Target.entry?] at h

theorem exists_locate_of_slot {t : FileTree} {p : Path} {l : Location} (h : t.slot p = .ok l) :
    t.IsSlot l ∧ ∃ target, t.locate .file p = .ok target ∧ target.place = l := by
  unfold slot at h
  have hentry {target : Target} (hlocate : t.locate .file p = .ok target) :
      t.entryAt? target.place = target.entry? :=
    (locate_eq_ok.mp hlocate).2.entryAt?_place
  rcases hlocate : t.locate .file p with _ | ⟨k, bytes | _ | _⟩ | k
  all_goals rw [hlocate] at h
  all_goals cases h
  · refine ⟨fun e he => ⟨bytes, ?_⟩, _, rfl, rfl⟩
    have hfound := hentry hlocate
    rw [Target.place, he] at hfound
    exact Option.some.inj hfound
  · refine ⟨fun e he => ?_, _, rfl, rfl⟩
    have hmissing := hentry hlocate
    rw [Target.place, he] at hmissing
    cases hmissing

def SlotOf (t : FileTree) (paths : List Path) (l : Location) : Prop :=
  ∃ p ∈ paths, t.slot p = .ok l

/-- Different paths, where a write at one of them does not change where another one leads. -/
structure Independent (t : FileTree) (paths : List Path) : Prop where
  nodup : paths.Nodup
  undisturbed : ∀ p ∈ paths, ∀ q ∈ paths, p ≠ q → ∀ bytes t', t.writeBytes q bytes = .ok t' →
    t'.locate .file p = t.locate .file p

namespace Independent

variable {t t' : FileTree} {paths : List Path} {p q : Path} {l k : Location}

theorem locate_put (h : t.Independent paths) (hp : p ∈ paths) (hq : q ∈ paths) (hne : p ≠ q)
    (hk : t.slot q = .ok k) (bytes : ByteArray) :
    (t.put k (.file bytes)).locate .file p = t.locate .file p := by
  refine h.undisturbed p hp q hq hne bytes _ ?_
  rw [writeBytes_eq, hk]
  rfl

theorem slot_ne (h : t.Independent paths) (hp : p ∈ paths) (hq : q ∈ paths) (hne : p ≠ q)
    (hl : t.slot p = .ok l) (hk : t.slot q = .ok k) : l ≠ k := by
  rintro rfl
  obtain ⟨hslot, target, hlocate, rfl⟩ := exists_locate_of_slot hl
  -- Whatever bytes are written at `q` would be found at `p`, which can only hold for one of them.
  have hfound (bytes : ByteArray) :
      t.locate .file p = .ok (.found target.place (.file bytes)) := by
    have hafter := (hslot.filesAt_put bytes).locate hlocate
    rw [h.locate_put hp hq hne hk, hslot.entryAt?_put_self] at hafter
    exact hafter
  have hsame := (hfound ⟨#[]⟩).symm.trans (hfound ⟨#[0]⟩)
  simp at hsame

/-- Each path keeps its place while files are written at any of the paths. -/
theorem slot_eq (h : t.Independent paths) (hfiles : FilesAt (t.SlotOf paths) t t')
    (hp : p ∈ paths) : t'.slot p = t.slot p := by
  cases hlocate : t.locate .file p with
  | error e =>
    have hslot : t.slot p = .error e := by
      unfold slot
      rw [hlocate]
      rfl
    have hsame : t'.locate .file p = t.locate .file p := by
      refine hfiles.locate_eq fun k hk bytes => ?_
      obtain ⟨q, hq, hk⟩ := hk
      refine h.locate_put hp hq ?_ hk bytes
      rintro rfl
      rw [hslot] at hk
      cases hk
    unfold slot
    rw [hsame]
  | ok target =>
    have hafter := hfiles.locate hlocate
    have hentry := (locate_eq_ok.mp hlocate).2.entryAt?_place
    unfold slot
    rw [hlocate, hafter]
    rcases hfiles.entry target.place with hsame | ⟨⟨q, _, hq⟩, bytes, hfile⟩
    · rw [hsame, hentry]
      cases target <;> rfl
    · rw [hfile]
      have hslot := (exists_locate_of_slot hq).1
      rcases target with ⟨l, e⟩ | l
      · obtain ⟨_, rfl⟩ := hslot e hentry
        rfl
      · rfl

end Independent

theorem FilesAt.readText {L : Location → Prop} {t t' : FileTree} (h : FilesAt L t t') {p : Path}
    {l : Location} {text : String} (hslot : t.slot p = .ok l)
    (hfile : t'.entryAt? l = some (.file text.toUTF8)) : t'.readText p = .ok text := by
  obtain ⟨-, target, hlocate, rfl⟩ := exists_locate_of_slot hslot
  have hafter := h.locate hlocate
  rw [hfile] at hafter
  obtain ⟨hpath, hleads⟩ := locate_eq_ok.mp hafter
  exact readText_eq_ok.mpr ⟨_, find_eq_ok.mpr (locate_eq_ok.mpr ⟨hpath, hleads.look⟩)⟩

theorem FilesAt.put {t t' : FileTree} {paths : List Path} {p : Path} {l : Location}
    (h : FilesAt (t.SlotOf paths) t t') (hp : p ∈ paths) (hl : t.slot p = .ok l)
    (bytes : ByteArray) : FilesAt (t.SlotOf paths) t (t'.put l (.file bytes)) where
  workingDir := h.workingDir
  isSlot := h.isSlot
  entry k := by
    have hslot := (exists_locate_of_slot hl).1
    rw [entryAt?_put hslot.ne_root]
    by_cases hk : k = l
    · exact .inr ⟨⟨p, hp, hk ▸ hl⟩, bytes, if_pos hk⟩
    · rw [if_neg hk]
      exact h.entry k

theorem filesAt_slotOf (t : FileTree) (paths : List Path) : FilesAt (t.SlotOf paths) t t where
  workingDir := rfl
  isSlot := fun _ ⟨_, _, hl⟩ => (exists_locate_of_slot hl).1
  entry _ := .inl rfl

/-- The place that a path leads to, whether or not there is something. -/
def target? (t : FileTree) (p : Path) : Option Location :=
  (t.locate .file p).toOption.map (·.place)

theorem independent_of_target? {t : FileTree} {paths : List Path}
    (hsome : none ∉ paths.map t.target?) (hnodup : (paths.map t.target?).Nodup) :
    t.Independent paths where
  nodup := hnodup.of_map _
  undisturbed p hp q hq hne bytes t' hwrite := by
    obtain ⟨l, _, hl, rfl⟩ := slot_of_update hwrite
    obtain ⟨hslot, target', hq', rfl⟩ := exists_locate_of_slot hl
    obtain ⟨place, hplace⟩ : ∃ place, t.target? p = some place := by
      rw [← Option.ne_none_iff_exists']
      exact fun hnone => hsome (List.mem_map.mpr ⟨p, hp, hnone⟩)
    cases hlocate : t.locate .file p with
    | error e => simp [target?, hlocate, Except.toOption] at hplace
    | ok target =>
      have hplaces : target.place ≠ target'.place := by
        intro heq
        refine hne (List.inj_on_of_nodup_map hnodup hp hq ?_)
        simp [target?, hlocate, hq', Except.toOption, heq]
      rw [(hslot.filesAt_put _).locate hlocate, entryAt?_put hslot.ne_root, if_neg hplaces,
        (locate_eq_ok.mp hlocate).2.entryAt?_place]
      cases target <;> rfl

end FileTree

end ContractDocs
