import ContractDocs.Proofs.Loading

/-! Loading the contracts of a directory whose entries come in some order. -/

namespace ContractDocs

theorem notAfter_trans (a b c : Contract)
    (hab : (!decide (b.contractName < a.contractName)) = true)
    (hbc : (!decide (c.contractName < b.contractName)) = true) :
    (!decide (c.contractName < a.contractName)) = true := by
  simp only [Bool.not_eq_true', decide_eq_false_iff_not, String.not_lt] at *
  exact String.le_trans hab hbc

theorem notAfter_total (a b : Contract) :
    (!decide (b.contractName < a.contractName) ||
      !decide (a.contractName < b.contractName)) = true := by
  simp only [Bool.or_eq_true, Bool.not_eq_true', decide_eq_false_iff_not, String.not_lt]
  exact String.le_total _ _

/-- The contracts of one name, in their order. -/
def named (name : String) (contracts : List Contract) : List Contract :=
  contracts.filter (·.contractName = name)

theorem mem_named {name : String} {contracts : List Contract} {c : Contract} :
    c ∈ named name contracts ↔ c ∈ contracts ∧ c.contractName = name := by
  simp [named]

theorem named_cons (name : String) (c : Contract) (contracts : List Contract) :
    named name (c :: contracts) =
      if c.contractName = name then c :: named name contracts else named name contracts := by
  simp [named, List.filter_cons]

/-- Sorting is stable. -/
theorem named_sortByName (name : String) (contracts : List Contract) :
    named name (sortByName contracts) = named name contracts := by
  have hsorted : (named name contracts).Pairwise fun a b =>
      (!decide (b.contractName < a.contractName)) = true := by
    refine List.pairwise_of_forall_mem_list fun a ha b hb => ?_
    obtain rfl := (mem_named.mp ha).2
    simp [(mem_named.mp hb).2]
  have hsub : (named name contracts).Sublist (sortByName contracts) :=
    List.sublist_mergeSort notAfter_trans notAfter_total hsorted List.filter_sublist
  have hperm : (named name (sortByName contracts)).Perm (named name contracts) :=
    (List.mergeSort_perm _ _).filter _
  have hnamed : named name (named name contracts) = named name contracts := by
    simp [named]
  have hsame : (named name contracts).Sublist (named name (sortByName contracts)) :=
    hnamed ▸ hsub.filter _
  exact (hsame.eq_of_length hperm.length_eq.symm).symm

theorem pairwise_sortByName (contracts : List Contract) :
    (sortByName contracts).Pairwise fun a b => a.contractName ≤ b.contractName := by
  have h := List.pairwise_mergeSort notAfter_trans notAfter_total contracts
  refine h.imp fun hab => ?_
  simpa only [Bool.not_eq_true', decide_eq_false_iff_not, String.not_lt] using hab

theorem mem_of_named {xs ys : List Contract} (h : ∀ name, named name xs = named name ys)
    {c : Contract} (hc : c ∈ xs) : c ∈ ys := by
  have hnamed : c ∈ named c.contractName xs := mem_named.mpr ⟨hc, rfl⟩
  rw [h] at hnamed
  exact (mem_named.mp hnamed).1

theorem head_le {a c : Contract} {xs : List Contract}
    (h : (a :: xs).Pairwise fun a b => a.contractName ≤ b.contractName) (hc : c ∈ a :: xs) :
    a.contractName ≤ c.contractName := by
  rcases List.mem_cons.mp hc with rfl | hc
  · exact String.le_refl _
  · exact (List.pairwise_cons.mp h).1 c hc

/-- A sorted list is known by its contracts of each name. -/
theorem eq_of_named {xs ys : List Contract}
    (hxs : xs.Pairwise fun a b => a.contractName ≤ b.contractName)
    (hys : ys.Pairwise fun a b => a.contractName ≤ b.contractName)
    (h : ∀ name, named name xs = named name ys) : xs = ys := by
  induction xs generalizing ys with
  | nil =>
    refine (List.eq_nil_iff_forall_not_mem.mpr fun c hc => ?_).symm
    exact List.not_mem_nil (mem_of_named (fun name => (h name).symm) hc)
  | cons a xs ih =>
    have ha := mem_of_named h List.mem_cons_self
    cases ys with
    | nil => exact absurd ha List.not_mem_nil
    | cons b ys =>
      have hb := mem_of_named (fun name => (h name).symm) List.mem_cons_self
      have hname : a.contractName = b.contractName :=
        String.le_antisymm (head_le hxs hb) (head_le hys ha)
      have hheads := h a.contractName
      rw [named_cons, named_cons, if_pos rfl, if_pos hname.symm] at hheads
      obtain ⟨rfl, htails⟩ := List.cons.inj hheads
      congr 1
      refine ih hxs.tail hys.tail fun name => ?_
      by_cases heq : a.contractName = name
      · rw [← heq, htails]
      · have hrest := h name
        rwa [named_cons, named_cons, if_neg heq, if_neg heq] at hrest

theorem sortByName_eq_iff {xs ys : List Contract} :
    sortByName xs = sortByName ys ↔ ∀ name, named name xs = named name ys := by
  constructor
  · intro h name
    rw [← named_sortByName name xs, h, named_sortByName]
  · intro h
    refine eq_of_named (pairwise_sortByName xs) (pairwise_sortByName ys) fun name => ?_
    rw [named_sortByName, named_sortByName, h]

theorem sortByName_perm {xs ys : List Contract} (h : xs.Perm ys) :
    (sortByName xs).Perm (sortByName ys) :=
  (List.mergeSort_perm xs _).trans (h.trans (List.mergeSort_perm ys _).symm)

theorem sortByName_eq_of_perm {xs ys : List Contract} (h : xs.Perm ys)
    (hnames : (xs.map (·.contractName)).Nodup) : sortByName xs = sortByName ys := by
  refine List.Perm.eq_of_pairwise (fun a b ha hb hab hba => ?_) (pairwise_sortByName xs)
    (pairwise_sortByName ys) (sortByName_perm h)
  have hax : a ∈ xs := List.mem_mergeSort.mp ha
  have hbx : b ∈ xs := h.mem_iff.mpr (List.mem_mergeSort.mp hb)
  exact List.inj_on_of_nodup_map hnames hax hbx (String.le_antisymm hab hba)

namespace FileTree

/-- The same files and directories, in another order. -/
structure Reordered (t t' : FileTree) : Prop where
  workingDir : t.workingDir = t'.workingDir
  entries : t.entries.Perm t'.entries
  nodup : (t.entries.map (·.1)).Nodup

theorem walkWith_congr {t t' : FileTree} (h : t.entryAt? = t'.entryAt?) (purpose : Purpose)
    (slash : Bool) (follow : Bool → Location → List String → Except FileError Target)
    (place : Location) (names : List String) :
    t.walkWith purpose slash follow place names = t'.walkWith purpose slash follow place names := by
  induction names generalizing place with
  | nil => rw [walkWith, walkWith, h]
  | cons name rest ih => simp only [walkWith, h, ih]

theorem walk_congr {t t' : FileTree} (h : t.entryAt? = t'.entryAt?) (purpose : Purpose)
    (slash : Bool) (links : Nat) : t.walk purpose slash links = t'.walk purpose slash links := by
  induction links generalizing slash with
  | zero => funext place names; exact walkWith_congr h ..
  | succ links ih =>
    funext place names
    rw [walk, walk, walkWith_congr h]
    simp only [ih]

namespace Reordered

variable {t t' : FileTree} (h : t.Reordered t')

include h

theorem entryAt?_eq : t.entryAt? = t'.entryAt? := by
  funext l
  have hnodup := (h.entries.map (·.1)).nodup_iff.mp h.nodup
  by_cases hroot : l = []
  · simp [entryAt?, hroot]
  · simp only [entryAt?, hroot, if_false]
    refine Option.ext fun e => ?_
    rw [lookup_eq_some_iff_mem h.nodup, lookup_eq_some_iff_mem hnodup, h.entries.mem_iff]

theorem find_eq : t.find = t'.find := by
  funext p
  simp only [find, locate, walk_congr h.entryAt?_eq, h.workingDir]

theorem scan_perm (dir : Path) : (t.scan dir).Perm (t'.scan dir) := by
  have hentry (l : Location) : t.scanEntry dir l = t'.scanEntry dir l := by
    funext name e
    unfold scanEntry
    rw [h.find_eq]
  have hchildren (l : Location) : (t.childrenOf l).Perm (t'.childrenOf l) :=
    h.entries.filterMap _
  unfold scan
  rw [h.find_eq]
  match t'.find dir with
  | .ok (l, .directory) => simpa only [hentry] using (hchildren l).map _
  | .ok (l, .file bytes) => exact .refl _
  | .ok (l, .link dest) => exact .refl _
  | .error e => exact .refl _

end Reordered

theorem Reordered.artifactAt_eq {t t' : FileTree} (h : t.Reordered t') :
    t.artifactAt = t'.artifactAt := by
  funext path
  simp only [artifactAt, readText, readBytes, h.find_eq]

theorem Reordered.artifactPaths_perm {t t' : FileTree} (h : t.Reordered t') (dir : Path) :
    (artifactPaths (t.scan dir)).Perm (artifactPaths (t'.scan dir)) :=
  (h.scan_perm dir).filterMap _

theorem Reordered.contractsIn_perm {t t' : FileTree} (h : t.Reordered t') (dir : Path) :
    (t.contractsIn dir).Perm (t'.contractsIn dir) := by
  unfold contractsIn contractsAt
  rw [h.artifactAt_eq]
  exact (h.artifactPaths_perm dir).filterMap _

end FileTree

/-- In another order of the entries the same contracts are loaded. They come in the same order
just if those of each name do, as they do if all names differ. -/
theorem loadContracts_reordered_iff {s s' : Memory} {dir : Path}
    (hfiles : s.files.Reordered s'.files) (hdir : s.files.isDirectory dir = true)
    (hload : ∀ path ∈ artifactPaths (s.files.scan dir),
      (s.files.artifactAt path).isOk = true ∧ s.LogApart path ∧ s'.LogApart path) :
    ∃ cs cs',
      ((loadContracts dir : Memory.Run (List Contract)).run s).1 = .ok cs ∧
      ((loadContracts dir : Memory.Run (List Contract)).run s').1 = .ok cs' ∧
      cs.Perm cs' ∧
      (cs = cs' ↔ ∀ name, named name (s.files.contractsIn dir) =
        named name (s'.files.contractsIn dir)) ∧
      (((s.files.contractsIn dir).map (·.contractName)).Nodup → cs = cs') := by
  have hload' (path : Path) (hpath : path ∈ artifactPaths (s'.files.scan dir)) :
      (s'.files.artifactAt path).isOk = true ∧ s'.LogApart path := by
    obtain ⟨hok, -, hlog⟩ := hload path ((hfiles.artifactPaths_perm dir).mem_iff.mpr hpath)
    rw [← hfiles.artifactAt_eq]
    exact ⟨hok, hlog⟩
  have hdir' : s'.files.isDirectory dir = true := by
    rw [← hdir, FileTree.isDirectory, FileTree.isDirectory, hfiles.find_eq]
  have hperm := hfiles.contractsIn_perm dir
  have hrun := run_loadContracts_of_logApart hdir fun path hpath =>
    (hload path hpath).imp_right And.left
  exact ⟨_, _, hrun, run_loadContracts_of_logApart hdir' hload', sortByName_perm hperm,
    sortByName_eq_iff, sortByName_eq_of_perm hperm⟩

/-- A directory with two artifacts. -/
def builds (first second : String × String) : FileTree where
  entries := [(["build"], .directory), ([first.1, "build"], .file first.2.toUTF8),
    ([second.1, "build"], .file second.2.toUTF8)]

theorem builds_reordered {first second : String × String} (h : first.1 ≠ second.1) :
    (builds first second).Reordered (builds second first) where
  workingDir := rfl
  entries := (List.Perm.swap _ _ []).cons _
  nodup := by simp [builds, h]

def vaultArtifact : String × String :=
  ("A.json", "\x7b\"contractName\":\"Vault\",\"ast\":\x7b\"id\":1\x7d\x7d")

def unnamedArtifact : String × String :=
  ("Token.json", "\x7b\"ast\":\x7b\"id\":2\x7d\x7d")

def loggedBuild : Memory :=
  { files := builds vaultArtifact unnamedArtifact, logFile := some ⟨"run.log"⟩ }

def plainBuild : Memory :=
  { files := builds unnamedArtifact vaultArtifact }

theorem loadContracts_reordered_vault :
    ∃ cs, ((loadContracts ⟨"build"⟩ : Memory.Run (List Contract)).run
        loggedBuild).1 = .ok cs ∧
      ((loadContracts ⟨"build"⟩ : Memory.Run (List Contract)).run
        plainBuild).1 = .ok cs := by
  have hfiles : loggedBuild.files.Reordered plainBuild.files := builds_reordered (by decide)
  have hdir : loggedBuild.files.isDirectory ⟨"build"⟩ = true := by decide +kernel
  obtain ⟨cs, cs', hcs, hcs', -, -, heq⟩ :=
    loadContracts_reordered_iff hfiles hdir (by decide +kernel)
  obtain rfl := heq (by decide +kernel)
  exact ⟨cs, hcs, hcs'⟩

def otherVaultArtifact : String × String :=
  ("B.json", "\x7b\"contractName\":\"Vault\",\"ast\":\x7b\"id\":2\x7d\x7d")

theorem loadedIds_of_sorted {s : Memory} {dir : Path} {ids : List (Option Int)}
    (h : s.files.isDirectory dir = true ∧
      (∀ path ∈ artifactPaths (s.files.scan dir),
        (s.files.artifactAt path).isOk = true ∧ s.LogApart path) ∧
      ((s.files.contractsIn dir).Pairwise fun a b =>
        (!decide (b.contractName < a.contractName)) = true) ∧
      (s.files.contractsIn dir).map (·.ast.id) = ids) :
    ((loadContracts dir : Memory.Run (List Contract)).run s).1.map
      (·.map (·.ast.id)) = .ok ids := by
  obtain ⟨hdir, hload, hsorted, rfl⟩ := h
  rw [run_loadContracts_of_logApart hdir hload, sortByName, List.mergeSort_of_pairwise hsorted]
  rfl

/-- Two contracts of one name come in the order of their files. -/
theorem load_order_shows_in_twins :
    (builds vaultArtifact otherVaultArtifact).Reordered (builds otherVaultArtifact vaultArtifact) ∧
    ((loadContracts ⟨"build"⟩ : Memory.Run (List Contract)).run
      { files := builds vaultArtifact otherVaultArtifact }).1.map (·.map (·.ast.id)) =
        .ok [some 1, some 2] ∧
    ((loadContracts ⟨"build"⟩ : Memory.Run (List Contract)).run
      { files := builds otherVaultArtifact vaultArtifact }).1.map (·.map (·.ast.id)) =
        .ok [some 2, some 1] :=
  ⟨builds_reordered (by decide), loadedIds_of_sorted (by decide +kernel),
    loadedIds_of_sorted (by decide +kernel)⟩

end ContractDocs
