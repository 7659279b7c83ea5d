import ContractDocs.Files.Tree
import ContractDocs.Proofs.KeyedLists

/-! What a path leads to, and how it changes when a file is written. A file takes the place of a
file or of nothing, so no directory and no link on the way of another path is touched. -/

namespace ContractDocs

namespace FileTree

theorem entryAt?_put {l : Location} (hl : l ≠ []) (t : FileTree) (e : Entry) (place : Location) :
    (t.put l e).entryAt? place = if place = l then some e else t.entryAt? place := by
  by_cases hroot : place = []
  · simp [entryAt?, hroot, hl.symm]
  · simp only [entryAt?, put, hroot, if_false]
    exact lookup_filter_append t.entries l place e

/-- A name is followed by looking into the directory at `place`. -/
structure Enters (t : FileTree) (purpose : Purpose) (slash : Bool) (place : Location)
    (name : String) (rest : List String) : Prop where
  directory : t.entryAt? place = some .directory
  ne_dot : name ≠ "."
  ne_up : name ≠ ".."
  allowed : ¬ (rest.isEmpty && slash && purpose = .file) = true
  short : ¬ maxName < name.utf8ByteSize

def Target.place : Target → Location
  | found l _ => l
  | missing l => l

def Target.entry? : Target → Option Entry
  | found _ e => some e
  | missing _ => none

def Target.ofEntry (l : Location) : Option Entry → Target
  | some e => .found l e
  | none => .missing l

/-- The steps of a walk that comes to an end without an error. -/
inductive Leads (t : FileTree) (purpose : Purpose) :
    Bool → Nat → Location → List String → Target → Prop where
  | directory {slash : Bool} {links : Nat} {place : Location} :
      t.entryAt? place = some .directory →
      Leads t purpose slash links place [] (.found place .directory)
  | entry {slash : Bool} {links : Nat} {place : Location} {e : Entry} :
      e ≠ .directory → t.entryAt? place = some e →
      ¬ (slash && purpose ≠ .entry) = true →
      Leads t purpose slash links place [] (.found place e)
  | stay {slash : Bool} {links : Nat} {place : Location} {rest : List String} {target : Target} :
      t.entryAt? place = some .directory → Leads t purpose slash links place rest target →
      Leads t purpose slash links place ("." :: rest) target
  | up {slash : Bool} {links : Nat} {place : Location} {rest : List String} {target : Target} :
      t.entryAt? place = some .directory → Leads t purpose slash links place.tail rest target →
      Leads t purpose slash links place (".." :: rest) target
  | missing {slash : Bool} {links : Nat} {place : Location} {name : String} :
      Enters t purpose slash place name [] → t.entryAt? (name :: place) = none →
      Leads t purpose slash links place [name] (.missing (name :: place))
  | link {slash : Bool} {links : Nat} {place : Location} {name : String} {dest : Path} :
      Enters t purpose slash place name [] → t.entryAt? (name :: place) = some (.link dest) →
      purpose = .entry →
      Leads t purpose slash links place [name] (.found (name :: place) (.link dest))
  | follow {slash : Bool} {links : Nat} {place : Location} {name : String} {rest : List String}
      {dest : Path} {target : Target} :
      Enters t purpose slash place name rest → t.entryAt? (name :: place) = some (.link dest) →
      ¬ (rest.isEmpty && purpose = .entry) = true →
      Leads t purpose (slash || rest.isEmpty && dest.endsInSlash) links
        (if dest.isAbsolute then [] else place) (dest.pieces ++ rest) target →
      Leads t purpose slash (links + 1) place (name :: rest) target
  | down {slash : Bool} {links : Nat} {place : Location} {name : String} {rest : List String}
      {e : Entry} {target : Target} :
      Enters t purpose slash place name rest → t.entryAt? (name :: place) = some e →
      (∀ dest, e ≠ .link dest) → Leads t purpose slash links (name :: place) rest target →
      Leads t purpose slash links place (name :: rest) target

theorem leads_of_walkWith {t : FileTree} {purpose : Purpose} {slash : Bool} {links : Nat}
    {follow : Bool → Location → List String → Except FileError Target} {place : Location}
    {names : List String} {target : Target}
    (hfollow : ∀ slash place names, follow slash place names = .ok target →
      ∃ n, links = n + 1 ∧ Leads t purpose slash n place names target)
    (h : t.walkWith purpose slash follow place names = .ok target) :
    Leads t purpose slash links place names target := by
  fun_induction walkWith t purpose slash follow place names with
  | case1 place hdir => cases h; exact .directory hdir
  | case2 => cases h
  | case3 place e hne hentry hslash => cases h; exact .entry hne hentry hslash
  | case4 => cases h
  | case5 place rest hdir ih => exact .stay hdir (ih h)
  | case6 place rest hdir _ ih => exact .up hdir (ih h)
  | case7 => cases h
  | case8 => cases h
  | case9 place name rest hdir hdot hup hallowed hshort hnone hempty =>
    cases h
    obtain rfl := List.isEmpty_iff.mp hempty
    exact .missing ⟨hdir, hdot, hup, hallowed, hshort⟩ hnone
  | case10 => cases h
  | case11 place name rest hdir hdot hup hallowed hshort dest hlink hend =>
    cases h
    simp only [Bool.and_eq_true, decide_eq_true_iff, List.isEmpty_iff] at hend
    obtain ⟨rfl, hpurpose⟩ := hend
    exact .link ⟨hdir, hdot, hup, hallowed, hshort⟩ hlink hpurpose
  | case12 place name rest hdir hdot hup hallowed hshort dest hlink hend =>
    obtain ⟨n, rfl, hleads⟩ := hfollow _ _ _ h
    exact .follow ⟨hdir, hdot, hup, hallowed, hshort⟩ hlink hend hleads
  | case13 place name rest hdir hdot hup hallowed hshort e hnolink hentry ih =>
    exact .down ⟨hdir, hdot, hup, hallowed, hshort⟩ hentry hnolink (ih h)
  | case14 => cases h
  | case15 => cases h

theorem leads_of_walk {t : FileTree} {purpose : Purpose} {slash : Bool} {links : Nat}
    {place : Location} {names : List String} {target : Target}
    (h : t.walk purpose slash links place names = .ok target) :
    Leads t purpose slash links place names target := by
  induction links generalizing slash place names with
  | zero => exact leads_of_walkWith (by simp) h
  | succ n ih => exact leads_of_walkWith (fun _ _ _ hfollow => ⟨n, rfl, ih hfollow⟩) h

section Step

variable {t : FileTree} {purpose : Purpose} {slash : Bool} {links : Nat} {place : Location}
  {name : String} {rest : List String}

theorem walk_stay (hdir : t.entryAt? place = some .directory) :
    t.walk purpose slash links place ("." :: rest) = t.walk purpose slash links place rest := by
  cases links <;> simp [walk, walkWith, hdir]

theorem walk_up (hdir : t.entryAt? place = some .directory) :
    t.walk purpose slash links place (".." :: rest) =
      t.walk purpose slash links place.tail rest := by
  cases links <;> simp [walk, walkWith, hdir]

theorem walk_long (hdir : t.entryAt? place = some .directory) (hdot : name ≠ ".")
    (hup : name ≠ "..") (hlong : maxName < name.utf8ByteSize) (hrest : rest ≠ []) :
    t.walk purpose slash links place (name :: rest) = .error .nameTooLong := by
  cases links <;> simp [walk, walkWith, hdir, hdot, hup, hlong, hrest]

theorem walk_blocked (links : Nat) (hdir : t.entryAt? place ≠ some .directory) :
    ∃ e, ∀ purpose slash name rest, t.walk purpose slash links place (name :: rest) = .error e := by
  match h : t.entryAt? place with
  | none => exact ⟨.notFound, fun _ _ _ _ => by cases links <;> simp [walk, walkWith, h]⟩
  | some (.file bytes) =>
    exact ⟨.notDirectory, fun _ _ _ _ => by cases links <;> simp [walk, walkWith, h]⟩
  | some (.link dest) =>
    exact ⟨.notDirectory, fun _ _ _ _ => by cases links <;> simp [walk, walkWith, h]⟩
  | some .directory => exact absurd h hdir

theorem Enters.walk (h : Enters t purpose slash place name rest) :
    t.walk purpose slash links place (name :: rest) =
      match t.entryAt? (name :: place) with
      | none => if rest.isEmpty then .ok (.missing (name :: place)) else .error .notFound
      | some (.link target) =>
        if rest.isEmpty && purpose = .entry then .ok (.found (name :: place) (.link target))
        else
          match links with
          | 0 => .error .tooManyLinks
          | links + 1 =>
            t.walk purpose (slash || rest.isEmpty && target.endsInSlash) links
              (if target.isAbsolute then [] else place) (target.pieces ++ rest)
      | some _ => t.walk purpose slash links (name :: place) rest := by
  cases links <;>
  · rw [walk, walkWith, h.directory]
    simp only [h.ne_dot, h.ne_up, h.allowed, h.short, if_false]
    rfl

theorem Enters.walk_down (h : Enters t purpose slash place name rest) (links : Nat) {e : Entry}
    (hentry : t.entryAt? (name :: place) = some e) (hnolink : ∀ dest, e ≠ .link dest) :
    t.walk purpose slash links place (name :: rest) =
      t.walk purpose slash links (name :: place) rest := by
  rw [h.walk, hentry]
  cases e with
  | directory => rfl
  | file => rfl
  | link dest => exact absurd rfl (hnolink dest)

end Step

theorem walk_of_leads {t : FileTree} {purpose : Purpose} {slash : Bool} {links : Nat}
    {place : Location} {names : List String} {target : Target}
    (h : Leads t purpose slash links place names target) :
    t.walk purpose slash links place names = .ok target := by
  induction h with
  | @directory _ links _ hdir => cases links <;> simp [walk, walkWith, hdir]
  | @entry _ links _ e hne hentry hslash =>
    cases e with
    | directory => exact absurd rfl hne
    | file => cases links <;> simpa [walk, walkWith, hentry] using hslash
    | link => cases links <;> simpa [walk, walkWith, hentry] using hslash
  | stay hdir _ ih => rw [walk_stay hdir, ih]
  | up hdir _ ih => rw [walk_up hdir, ih]
  | missing henter hnone => rw [henter.walk, hnone]; rfl
  | link henter hlink hpurpose => rw [henter.walk, hlink]; simp [hpurpose]
  | follow henter hlink hend _ ih => rw [henter.walk, hlink]; simp only [hend]; exact ih
  | down henter hentry hnolink _ ih => rw [henter.walk_down _ hentry hnolink, ih]

theorem walk_eq_ok {t : FileTree} {purpose : Purpose} {slash : Bool} {links : Nat}
    {place : Location} {names : List String} {target : Target} :
    t.walk purpose slash links place names = .ok target ↔
      Leads t purpose slash links place names target :=
  ⟨leads_of_walk, walk_of_leads⟩

/-- A file is at a place, or nothing. -/
def IsSlot (t : FileTree) (l : Location) : Prop :=
  ∀ e, t.entryAt? l = some e → ∃ bytes, e = .file bytes

/-- `t'` is `t` but for files at places of `L`, where `t` has files or nothing. -/
structure FilesAt (L : Location → Prop) (t t' : FileTree) : Prop where
  workingDir : t'.workingDir = t.workingDir
  isSlot : ∀ l, L l → t.IsSlot l
  entry : ∀ l, t'.entryAt? l = t.entryAt? l ∨ L l ∧ ∃ bytes, t'.entryAt? l = some (.file bytes)

section Put

variable {L : Location → Prop} {t t' : FileTree} {l : Location} {purpose : Purpose} {slash : Bool}
  {links : Nat} {place : Location} {names : List String}

theorem IsSlot.ne_root (h : t.IsSlot l) : l ≠ [] := by
  rintro rfl
  obtain ⟨bytes, hbytes⟩ := h .directory rfl
  exact Entry.noConfusion hbytes

theorem IsSlot.entryAt?_put (h : t.IsSlot l) (bytes : ByteArray) {e : Entry}
    (hentry : t.entryAt? place = some e) :
    (t.put l (.file bytes)).entryAt? place = some (if place = l then .file bytes else e) := by
  rw [FileTree.entryAt?_put h.ne_root, hentry]
  by_cases hplace : place = l <;> simp [hplace]

theorem IsSlot.entryAt?_put_self (h : t.IsSlot l) (t' : FileTree) (e : Entry) :
    (t'.put l e).entryAt? l = some e := by
  rw [FileTree.entryAt?_put h.ne_root, if_pos rfl]

theorem IsSlot.filesAt_put (h : t.IsSlot l) (bytes : ByteArray) :
    FilesAt (· = l) t (t.put l (.file bytes)) where
  workingDir := rfl
  isSlot k hk := hk ▸ h
  entry k := by
    rw [FileTree.entryAt?_put h.ne_root]
    by_cases hk : k = l
    · exact .inr ⟨hk, bytes, if_pos hk⟩
    · exact .inl (if_neg hk)

theorem FilesAt.directory (h : FilesAt L t t') (hdir : t.entryAt? place = some .directory) :
    t'.entryAt? place = some .directory := by
  rcases h.entry place with hsame | ⟨hplace, -⟩
  · rw [hsame, hdir]
  · obtain ⟨bytes, hfile⟩ := h.isSlot place hplace _ hdir
    exact Entry.noConfusion hfile

theorem FilesAt.link (h : FilesAt L t t') {dest : Path}
    (hlink : t.entryAt? place = some (.link dest)) : t'.entryAt? place = some (.link dest) := by
  rcases h.entry place with hsame | ⟨hplace, -⟩
  · rw [hsame, hlink]
  · obtain ⟨bytes, hfile⟩ := h.isSlot place hplace _ hlink
    exact Entry.noConfusion hfile

theorem FilesAt.exists_entry (h : FilesAt L t t') {e : Entry} (hentry : t.entryAt? place = some e)
    (hnolink : ∀ dest, e ≠ .link dest) :
    ∃ e', t'.entryAt? place = some e' ∧ ∀ dest, e' ≠ .link dest := by
  rcases h.entry place with hsame | ⟨hplace, bytes, hfile⟩
  · exact ⟨e, hsame.trans hentry, hnolink⟩
  · exact ⟨.file bytes, hfile, by simp⟩

theorem FilesAt.enters (h : FilesAt L t t') {name : String} {rest : List String}
    (henter : Enters t purpose slash place name rest) :
    Enters t' purpose slash place name rest :=
  { henter with directory := h.directory henter.directory }

/-- A path that leads somewhere still leads there, to what is there then. Where nothing was, a path
with a slash behind it would not lead to a file, so there it has to be a path for files. -/
theorem FilesAt.leads (h : FilesAt L t t') {target : Target}
    (hleads : Leads t purpose slash links place names target)
    (hfound : purpose = .file ∨ target.entry? ≠ none) :
    Leads t' purpose slash links place names
      (.ofEntry target.place (t'.entryAt? target.place)) := by
  induction hleads with
  | directory hdir =>
    rw [Target.place, h.directory hdir]
    exact .directory (h.directory hdir)
  | @entry _ _ place e hne hentry hslash =>
    rcases h.entry place with hsame | ⟨_, bytes, hfile⟩
    · rw [Target.place, hsame, hentry]
      exact .entry hne (hsame.trans hentry) hslash
    · rw [Target.place, hfile]
      exact .entry Entry.noConfusion hfile hslash
  | stay hdir _ ih => exact .stay (h.directory hdir) (ih hfound)
  | up hdir _ ih => exact .up (h.directory hdir) (ih hfound)
  | @missing _ _ place name henter hnone =>
    obtain rfl : purpose = .file := hfound.resolve_right fun hsome => hsome rfl
    rcases h.entry (name :: place) with hsame | ⟨_, bytes, hfile⟩
    · rw [Target.place, hsame, hnone]
      exact .missing (h.enters henter) (hsame.trans hnone)
    · rw [Target.place, hfile]
      refine .down (h.enters henter) hfile (fun _ => Entry.noConfusion) ?_
      exact .entry Entry.noConfusion hfile (by simpa using henter.allowed)
  | link henter hlink hpurpose =>
    rw [Target.place, h.link hlink]
    exact .link (h.enters henter) (h.link hlink) hpurpose
  | follow henter hlink hend _ ih => exact .follow (h.enters henter) (h.link hlink) hend (ih hfound)
  | down henter hentry hnolink _ ih =>
    obtain ⟨e', hentry', hnolink'⟩ := h.exists_entry hentry hnolink
    exact .down (h.enters henter) hentry' hnolink' (ih hfound)

theorem Leads.entryAt?_place {target : Target}
    (h : Leads t purpose slash links place names target) :
    t.entryAt? target.place = target.entry? := by
  induction h with
  | directory hdir => exact hdir
  | entry _ hentry => exact hentry
  | stay _ _ ih => exact ih
  | up _ _ ih => exact ih
  | missing _ hnone => exact hnone
  | link _ hlink => exact hlink
  | follow _ _ _ _ ih => exact ih
  | down _ _ _ _ ih => exact ih

theorem Enters.look {name : String} {rest : List String}
    (h : Enters t .file slash place name rest) : Enters t .look slash place name rest :=
  { h with allowed := by simp }

theorem Leads.look {target : Target} (h : Leads t .file slash links place names target) :
    Leads t .look slash links place names target := by
  induction h with
  | directory hdir => exact .directory hdir
  | entry hne hentry hslash => exact .entry hne hentry hslash
  | stay hdir _ ih => exact .stay hdir ih
  | up hdir _ ih => exact .up hdir ih
  | missing henter hnone => exact .missing henter.look hnone
  | link _ _ hpurpose => exact Purpose.noConfusion hpurpose
  | follow henter hlink _ _ ih => exact .follow henter.look hlink (by simp) ih
  | down henter hentry hnolink _ ih => exact .down henter.look hentry hnolink ih

/-- A path to a file leads to what was just written there. -/
theorem Leads.written {target : Target} (h : Leads t .file slash links place names target)
    (hslot : t.IsSlot target.place) (bytes : ByteArray) :
    Leads (t.put target.place (.file bytes)) .look slash links place names
      (.found target.place (.file bytes)) := by
  have hleads := (hslot.filesAt_put bytes).leads h (.inl rfl)
  rw [hslot.entryAt?_put_self] at hleads
  exact hleads.look

end Put

/-- The texts that can be paths. -/
structure IsPath (p : Path) : Prop where
  zeroless : ¬ p.text.toList.contains '\x00' = true
  nonempty : ¬ p.text.isEmpty = true
  short : ¬ pathLimit ≤ p.text.utf8ByteSize

theorem locate_eq_ok {t : FileTree} {purpose : Purpose} {p : Path} {target : Target} :
    t.locate purpose p = .ok target ↔ IsPath p ∧
      Leads t purpose p.endsInSlash maxLinks (if p.isAbsolute then [] else t.workingDir) p.pieces
        target := by
  rw [← walk_eq_ok]
  constructor
  · intro h
    unfold locate at h
    split at h
    · cases h
    · split at h
      · cases h
      · split at h
        · cases h
        · exact ⟨⟨‹_›, ‹_›, ‹_›⟩, h⟩
  · rintro ⟨hpath, hwalk⟩
    rw [locate, if_neg hpath.zeroless, if_neg hpath.nonempty, if_neg hpath.short, hwalk]

theorem find_eq_ok {t : FileTree} {p : Path} {l : Location} {e : Entry} :
    t.find p = .ok (l, e) ↔ t.locate .look p = .ok (.found l e) := by
  unfold find
  rcases t.locate .look p with _ | (_ | _) <;>
    simp [bind, Except.bind, pure, Except.pure, throw, throwThe, MonadExceptOf.throw]

theorem entryAt?_of_find {t : FileTree} {p : Path} {l : Location} {e : Entry}
    (h : t.find p = .ok (l, e)) : t.entryAt? l = some e :=
  (locate_eq_ok.mp (find_eq_ok.mp h)).2.entryAt?_place

theorem update_eq_ok {t t' : FileTree} {p : Path} {change : ByteArray → ByteArray}
    (h : t.update p change = .ok t') : ∃ target bytes, t.locate .file p = .ok target ∧
      (target.entry? = some (.file bytes) ∨ target.entry? = none ∧ bytes = .empty) ∧
      t' = t.put target.place (.file (change bytes)) := by
  unfold update at h
  cases hlocate : t.locate .file p with
  | error e => simp [hlocate, bind, Except.bind] at h
  | ok target =>
    refine ⟨target, ?_⟩
    rw [hlocate] at h
    match target, h with
    | .found l (.file bytes), h => exact ⟨bytes, rfl, .inl rfl, (Except.ok.inj h).symm⟩
    | .found l .directory, h => cases h
    | .found l (.link dest), h => cases h
    | .missing l, h => exact ⟨.empty, rfl, .inr ⟨rfl, rfl⟩, (Except.ok.inj h).symm⟩

theorem IsSlot.find_put {t : FileTree} {l : Location} (h : t.IsSlot l) (bytes : ByteArray)
    {q : Path} {k : Location} {e : Entry} (hq : t.find q = .ok (k, e)) :
    (t.put l (.file bytes)).find q = .ok (k, if k = l then .file bytes else e) := by
  obtain ⟨hpath, hleads⟩ := locate_eq_ok.mp (find_eq_ok.mp hq)
  have hafter := (h.filesAt_put bytes).leads hleads (.inr (Option.some_ne_none e))
  rw [Target.place, h.entryAt?_put bytes (entryAt?_of_find hq)] at hafter
  exact find_eq_ok.mpr (locate_eq_ok.mpr ⟨hpath, hafter⟩)

/-- After a write the path leads to what is written, at a place where it already led to a file or
where nothing was. -/
theorem put_of_update {t t' : FileTree} {p : Path} {change : ByteArray → ByteArray}
    (h : t.update p change = .ok t') : ∃ l bytes, t.IsSlot l ∧
      t' = t.put l (.file (change bytes)) ∧ t'.find p = .ok (l, .file (change bytes)) ∧
      (t.entryAt? l = none ∨ t.find p = .ok (l, .file bytes)) := by
  obtain ⟨target, bytes, hlocate, hentry, rfl⟩ := update_eq_ok h
  obtain ⟨hpath, hleads⟩ := locate_eq_ok.mp hlocate
  have hplace := hleads.entryAt?_place
  have hslot : t.IsSlot target.place := by
    intro e he
    rw [hplace] at he
    rcases hentry with hfile | ⟨hnone, _⟩
    · exact ⟨bytes, Option.some.inj (he.symm.trans hfile)⟩
    · simp [hnone] at he
  refine ⟨target.place, bytes, hslot, rfl, ?_, ?_⟩
  · exact find_eq_ok.mpr (locate_eq_ok.mpr ⟨hpath, hleads.written hslot _⟩)
  · cases target with
    | found l e =>
      right
      obtain rfl : e = .file bytes := by simpa [Target.entry?] using hentry
      exact find_eq_ok.mpr (locate_eq_ok.mpr ⟨hpath, hleads.look⟩)
    | missing l => exact .inl hplace

/-- All other paths lead where they did, and find the new file if they lead there. -/
theorem find_of_update {t t' : FileTree} {p : Path} {change : ByteArray → ByteArray}
    (h : t.update p change = .ok t') : ∃ l bytes, t'.find p = .ok (l, .file (change bytes)) ∧
      (t.entryAt? l = none ∨ t.find p = .ok (l, .file bytes)) ∧
      ∀ q k e, t.find q = .ok (k, e) →
        t'.find q = .ok (k, if k = l then .file (change bytes) else e) := by
  obtain ⟨l, bytes, hslot, rfl, hwritten, hbefore⟩ := put_of_update h
  exact ⟨l, bytes, hwritten, hbefore, fun q k e hq => hslot.find_put _ hq⟩

theorem put_of_create {t t' : FileTree} {p : Path} {e : Entry} (h : t.create p e = .ok t') :
    ∃ l, l ≠ [] ∧ t.entryAt? l = none ∧ t' = t.put l e := by
  unfold create at h
  cases hlocate : t.locate .entry p with
  | error e => simp [hlocate, bind, Except.bind] at h
  | ok target =>
    rw [hlocate] at h
    match target, h with
    | .found l e, h => cases h
    | .missing l, h =>
      have hnone : t.entryAt? l = none := (locate_eq_ok.mp hlocate).2.entryAt?_place
      refine ⟨l, ?_, hnone, (Except.ok.inj h).symm⟩
      rintro rfl
      cases hnone

/-- The names lead to a directory, from which a further one is followed, or to an error. Neither
depends on that name or on what it is followed for. -/
def Leaves (t : FileTree) (links : Nat) (place : Location) (names : List String) : Prop :=
  (∃ d links', t.entryAt? d = some .directory ∧ ∀ purpose slash name,
    t.walk purpose slash links place (names ++ [name]) = t.walk purpose slash links' d [name]) ∨
  ∃ e, ∀ purpose slash name, t.walk purpose slash links place (names ++ [name]) = .error e

theorem leaves_of_blocked {t : FileTree} (links : Nat) {place : Location} (names : List String)
    (hdir : t.entryAt? place ≠ some .directory) : t.Leaves links place names := by
  obtain ⟨error, herror⟩ := walk_blocked links hdir
  refine .inr ⟨error, fun purpose slash name => ?_⟩
  cases names with
  | nil => exact herror ..
  | cons piece rest => exact herror ..

theorem leaves_of_enters {t : FileTree} {links : Nat} {place : Location} {piece : String}
    {rest : List String} (hdir : t.entryAt? place = some .directory) (hdot : piece ≠ ".")
    (hup : piece ≠ "..") (hshort : ¬ maxName < piece.utf8ByteSize)
    (hrest : ∀ place, t.Leaves links place rest)
    (hlinks : ∀ n, links = n + 1 → ∀ place names, t.Leaves n place names) :
    t.Leaves links place (piece :: rest) := by
  have henter (purpose : Purpose) (slash : Bool) (name : String) :
      Enters t purpose slash place piece (rest ++ [name]) :=
    ⟨hdir, hdot, hup, by simp, hshort⟩
  have hdown (e : Entry) (hentry : t.entryAt? (piece :: place) = some e)
      (hnolink : ∀ dest, e ≠ .link dest) : t.Leaves links place (piece :: rest) := by
    have hstep (purpose : Purpose) (slash : Bool) (name : String) :=
      (henter purpose slash name).walk_down links hentry hnolink
    simpa only [Leaves, List.cons_append, hstep] using hrest (piece :: place)
  match hentry : t.entryAt? (piece :: place) with
  | none =>
    refine .inr ⟨.notFound, fun purpose slash name => ?_⟩
    rw [List.cons_append, (henter ..).walk, hentry]
    simp
  | some (.link dest) =>
    match links with
    | 0 =>
      refine .inr ⟨.tooManyLinks, fun purpose slash name => ?_⟩
      rw [List.cons_append, (henter ..).walk, hentry]
      simp
    | links + 1 =>
      have hstep (purpose : Purpose) (slash : Bool) (name : String) :
          t.walk purpose slash (links + 1) place (piece :: rest ++ [name]) =
            t.walk purpose slash links (if dest.isAbsolute then [] else place)
              (dest.pieces ++ rest ++ [name]) := by
        have hlast : (rest ++ [name]).isEmpty = false := by simp
        rw [List.cons_append, (henter ..).walk, hentry, hlast]
        simp
      simpa only [Leaves, hstep] using hlinks links rfl _ (dest.pieces ++ rest)
  | some (.file bytes) => exact hdown _ hentry (by simp)
  | some .directory => exact hdown _ hentry (by simp)

-- A link puts further names in front, so the induction on the names is for one number of links.
theorem leaves_of_links {t : FileTree} {links : Nat} (place : Location) (names : List String)
    (hlinks : ∀ n, links = n + 1 → ∀ place names, t.Leaves n place names) :
    t.Leaves links place names := by
  induction names generalizing place with
  | nil =>
    by_cases hdir : t.entryAt? place = some .directory
    · exact .inl ⟨place, links, hdir, fun _ _ _ => rfl⟩
    · exact leaves_of_blocked links [] hdir
  | cons piece rest ih =>
    by_cases hdir : t.entryAt? place = some .directory
    · by_cases hdot : piece = "."
      · simpa only [Leaves, hdot, List.cons_append, walk_stay hdir] using ih place
      · by_cases hup : piece = ".."
        · simpa only [Leaves, hup, List.cons_append, walk_up hdir] using ih place.tail
        · by_cases hlong : maxName < piece.utf8ByteSize
          · exact .inr ⟨.nameTooLong, fun _ _ _ => walk_long hdir hdot hup hlong (by simp)⟩
          · exact leaves_of_enters hdir hdot hup hlong ih hlinks
    · exact leaves_of_blocked links (piece :: rest) hdir

theorem leaves (t : FileTree) (links : Nat) (place : Location) (names : List String) :
    t.Leaves links place names := by
  induction links generalizing place names with
  | zero => exact leaves_of_links place names fun _ h => nomatch h
  | succ n ih => exact leaves_of_links place names fun _ h => Nat.succ.inj h ▸ ih

end FileTree

end ContractDocs
