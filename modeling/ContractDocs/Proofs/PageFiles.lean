import ContractDocs.Proofs.HostMemory
import ContractDocs.Proofs.PathNames
import ContractDocs.Site
import Mathlib.Data.List.Dedup

/-! Which pages are in the files of a site after they are written. -/

namespace ContractDocs

namespace FileTree

/-- Whether the path ends at a link. -/
def isLink (t : FileTree) (p : Path) : Bool :=
  match t.locate .entry p with
  | .ok (.found _ (.link _)) => true
  | _ => false

/-- Names that are no links lead into one directory, each to its own place. -/
theorem exists_parent (t : FileTree) (out : Path) : ∃ d, ∀ name l, Path.IsName name →
    t.isLink (out.join ⟨name⟩) = false → t.place? (out.join ⟨name⟩) = some l → l = name :: d := by
  have hlocate (purpose : Purpose) (name : String) (target : Target)
      (hname : Path.IsName name) : t.locate purpose (out.join ⟨name⟩) = .ok target ↔
        IsPath (out.join ⟨name⟩) ∧ t.walk purpose false maxLinks
          (if out.isAbsolute then [] else t.workingDir) (out.pieces ++ [name]) = .ok target := by
    obtain ⟨hpieces, hends, habsolute⟩ := hname.join out
    rw [locate_eq_ok, hpieces, hends, habsolute, walk_eq_ok]
  rcases t.leaves maxLinks (if out.isAbsolute then [] else t.workingDir) out.pieces with
    ⟨d, links, hdir, hwalk⟩ | ⟨error, herror⟩
  · refine ⟨d, fun name l hname hlink hplace => ?_⟩
    obtain ⟨e, hfind⟩ := place?_eq_some.mp hplace
    obtain ⟨hpath, hfound⟩ := (hlocate .look name _ hname).mp (find_eq_ok.mp hfind)
    rw [hwalk, walk_eq_ok] at hfound
    cases hfound with
    | stay => exact absurd rfl hname.ne_dot
    | up => exact absurd rfl hname.ne_up
    | link _ _ hpurpose => cases hpurpose
    | @follow _ _ _ _ _ dest _ henter hentry =>
      -- The same steps, taken for the entry itself, end at the link.
      have hentered : t.walk .entry false maxLinks (if out.isAbsolute then [] else t.workingDir)
          (out.pieces ++ [name]) = .ok (.found (name :: d) (.link dest)) := by
        rw [hwalk, walk_eq_ok]
        exact .link { henter with allowed := by simp } hentry rfl
      have hentry := (hlocate .entry name _ hname).mpr ⟨hpath, hentered⟩
      simp [isLink, hentry] at hlink
    | down _ _ _ hend =>
      cases hend with
      | directory => rfl
      | entry => rfl
  · refine ⟨[], fun name l hname hlink hplace => ?_⟩
    obtain ⟨e, hfind⟩ := place?_eq_some.mp hplace
    obtain ⟨_, hfound⟩ := (hlocate .look name _ hname).mp (find_eq_ok.mp hfind)
    rw [herror] at hfound
    cases hfound

end FileTree

theorem length_eq_dedup_iff {α : Type} [DecidableEq α] (xs : List α) :
    xs.length = xs.dedup.length ↔ xs.Nodup := by
  rw [← List.dedup_eq_self]
  exact ⟨fun h => xs.dedup_sublist.eq_of_length h.symm, fun h => by rw [h]⟩

theorem Contract.isName_pageName {c : Contract} (h : Path.IsName c.contractName) :
    Path.IsName c.pageName :=
  Path.isName_md_iff.mpr h.slashless

namespace Site

/-- The names of the files that are written. -/
def fileNames (site : Site) : List String :=
  site.contracts.map (·.pageName) ++ if site.settings.output.writeIndex then [indexPage] else []

theorem fileNames_nodup_iff {site : Site} (hnames : (site.contracts.map (·.contractName)).Nodup) :
    site.fileNames.Nodup ↔ ¬ (site.settings.output.writeIndex = true ∧
      "README" ∈ site.contracts.map (·.contractName)) := by
  have hpage : site.contracts.map (·.pageName) =
      (site.contracts.map (·.contractName)).map (· ++ ".md") := by
    simp [Contract.pageName]
  have hinj : Function.Injective (· ++ ".md" : String → String) := by
    intro a b h
    simpa [← String.toList_inj] using h
  have hpages : (site.contracts.map (·.pageName)).Nodup := hpage ▸ hnames.map hinj
  have hreadme : indexPage ∈ site.contracts.map (·.pageName) ↔
      "README" ∈ site.contracts.map (·.contractName) := by
    have hindex : indexPage = "README" ++ ".md" := rfl
    rw [hpage, hindex]
    exact List.mem_map_of_injective hinj
  unfold fileNames
  by_cases hindex : site.settings.output.writeIndex
  · simp only [hindex, if_true, true_and, ← hreadme]
    rw [List.nodup_append_comm, List.singleton_append, List.nodup_cons]
    exact and_iff_left hpages
  · simpa [hindex] using hpages

theorem isName_of_mem_fileNames {site : Site} {name : String}
    (hplain : ∀ c ∈ site.contracts, Path.IsName c.contractName) (h : name ∈ site.fileNames) :
    Path.IsName name := by
  rcases List.mem_append.mp h with hpage | hindex
  · obtain ⟨c, hc, rfl⟩ := List.mem_map.mp hpage
    exact Contract.isName_pageName (hplain c hc)
  · split at hindex
    · obtain rfl := List.mem_singleton.mp hindex
      decide
    · cases hindex

theorem map_pages (site : Site) (out : Path) :
    (site.pages out).map (·.1) = site.fileNames.map fun name => out.join ⟨name⟩ := by
  by_cases hindex : site.settings.output.writeIndex <;> simp [pages, fileNames, hindex]

theorem forall_pages {site : Site} {out : Path} {P : Path × String → Prop} :
    (∀ page ∈ site.pages out, P page) ↔
      (∀ c ∈ site.contracts, P (out.join ⟨c.pageName⟩, site.render c)) ∧
        (site.settings.output.writeIndex = true → P (out.join ⟨indexPage⟩, site.renderIndex)) := by
  simp only [pages, List.mem_append, List.mem_map, or_imp, forall_and]
  refine and_congr (by simp) ?_
  by_cases hindex : site.settings.output.writeIndex <;> simp [hindex]

theorem outcome_eq_ok {paths : List Path} {outcomes : List (Except FileError Unit)}
    (hlength : outcomes.length = paths.length) (h : outcome paths outcomes = .ok ()) :
    ∀ o ∈ outcomes, o = .ok () := by
  induction paths generalizing outcomes with
  | nil => simp_all
  | cons path paths ih =>
    obtain ⟨o, outcomes, rfl⟩ := List.exists_cons_of_length_eq_add_one hlength
    cases o with
    | error e => cases h
    | ok u =>
      intro o ho
      rcases List.mem_cons.mp ho with rfl | ho
      · rfl
      · exact ih (by simpa using hlength) h o ho

theorem write_eq_ok {site : Site} {out : Path} {s s' : Memory} {n : Nat}
    (h : (site.write out : Memory.Run Nat).run s = (.ok n, s')) :
    ∃ (t : FileTree) (s₁ : Memory) (line : LogLine), t.Wrote (site.pages out) s₁.files ∧
      s' = s₁.log line ∧ n = (site.pages out).length := by
  unfold write at h
  obtain ⟨_, s₀, _, hrest⟩ := exists_of_run_bind h
  rw [run_bind_of_ok (run_logAll _ _)] at hrest
  obtain ⟨outcomes, s₂, hwrite, hrest⟩ := exists_of_run_bind hrest
  obtain ⟨_, s₃, houtcome, hlast⟩ := exists_of_run_bind hrest
  rw [run_bind_of_ok (run_logAll _ _)] at hlast
  clear hrest
  cases hwrite
  obtain ⟨hall, rfl⟩ := Prod.mk.inj houtcome
  cases hlast
  refine ⟨_, _, _, Memory.wrote_writeEach ?_, rfl, rfl⟩
  exact outcome_eq_ok (by simp [Memory.length_writeEach]) hall

/-- All pages are somewhere when they are written, and those in files of their own can be read. -/
theorem readText_of_write {site : Site} {out : Path} {s s' : Memory} {n : Nat}
    (hrun : (site.write out : Memory.Run Nat).run s = (.ok n, s'))
    (hlog : ∀ page ∈ site.pages out, s'.LogApart page.1) :
    n = (site.pages out).length ∧ none ∉ s'.files.places (site.pages out) ∧
      ((s'.files.places (site.pages out)).Nodup →
        ∀ page ∈ site.pages out, s'.files.readText page.1 = .ok page.2) := by
  obtain ⟨t, s₁, line, hwrote, rfl, rfl⟩ := write_eq_ok hrun
  obtain ⟨hfound, hread⟩ := hwrote.readText
  have hplaces : (s₁.log line).files.places (site.pages out) =
      s₁.files.places (site.pages out) := by
    refine List.map_congr_left fun page hpage => ?_
    have hne : s₁.files.place? page.1 ≠ none := fun h => hfound (List.mem_map.mpr ⟨page, hpage, h⟩)
    obtain ⟨l, hl⟩ := Option.ne_none_iff_exists'.mp hne
    obtain ⟨e, he⟩ := FileTree.place?_eq_some.mp hl
    obtain ⟨e', he', -⟩ := Memory.find_log line he
    rw [hl, FileTree.place?_eq_some.mpr ⟨e', he'⟩]
  rw [hplaces]
  refine ⟨rfl, hfound, fun hnodup page hpage => ?_⟩
  have hbefore := hread hnodup page hpage
  obtain ⟨l, hfind⟩ := FileTree.readText_eq_ok.mp hbefore
  obtain ⟨e, -, -, hapart⟩ := Memory.find_log line hfind
  exact (Memory.readText_log line hbefore (hapart.mpr (hlog page hpage))).1

/-- Without links, the files are those of the names in one directory. -/
theorem exists_places {site : Site} {out : Path} {t : FileTree}
    (hplain : ∀ c ∈ site.contracts, Path.IsName c.contractName)
    (hfound : none ∉ t.places (site.pages out))
    (hlinks : ∀ page ∈ site.pages out, t.isLink page.1 = false) :
    ∃ d, t.places (site.pages out) = site.fileNames.map fun name => some (name :: d) := by
  obtain ⟨d, hd⟩ := t.exists_parent out
  have hplaces : t.places (site.pages out) =
      site.fileNames.map fun name => t.place? (out.join ⟨name⟩) := by
    have hmap := congrArg (List.map t.place?) (site.map_pages out)
    rwa [List.map_map, List.map_map] at hmap
  refine ⟨d, hplaces.trans (List.map_congr_left fun name hname => ?_)⟩
  have hlink : t.isLink (out.join ⟨name⟩) = false := by
    have hpath : out.join ⟨name⟩ ∈ (site.pages out).map (·.1) := by
      rw [map_pages]
      exact List.mem_map_of_mem hname
    obtain ⟨page, hpage, heq⟩ := List.mem_map.mp hpath
    exact heq ▸ hlinks page hpage
  have hne : t.place? (out.join ⟨name⟩) ≠ none := by
    intro h
    exact hfound (hplaces ▸ List.mem_map.mpr ⟨name, hname, h⟩)
  obtain ⟨l, hl⟩ := Option.ne_none_iff_exists'.mp hne
  rw [hl, hd name l (isName_of_mem_fileNames hplain hname) hlink hl]

/-- Each text is in its file and each file is counted once, just if no two pages lead to one file.
Where no page is a link, that is so unless the index takes the file of a contract `README`. -/
theorem write_keeps_pages_iff {site : Site} {out : Path} {s s' : Memory} {n : Nat}
    (hnames : (site.contracts.map (·.contractName)).Nodup)
    (hplain : ∀ c ∈ site.contracts, Path.IsName c.contractName)
    (hrun : (site.write out : Memory.Run Nat).run s = (.ok n, s'))
    (hlog : ∀ page ∈ site.pages out, s'.LogApart page.1) :
    ((∀ c ∈ site.contracts, s'.files.readText (out.join ⟨c.pageName⟩) = .ok (site.render c)) ∧
        (site.settings.output.writeIndex = true →
          s'.files.readText (out.join ⟨indexPage⟩) = .ok site.renderIndex) ∧
        n = (s'.files.places (site.pages out)).dedup.length ↔
      (s'.files.places (site.pages out)).Nodup) ∧
    ((∀ page ∈ site.pages out, s'.files.isLink page.1 = false) →
      ((s'.files.places (site.pages out)).Nodup ↔
        ¬ (site.settings.output.writeIndex = true ∧
          "README" ∈ site.contracts.map (·.contractName)))) := by
  obtain ⟨hn, hfound, hread⟩ := readText_of_write hrun hlog
  have hcount : n = (s'.files.places (site.pages out)).dedup.length ↔
      (s'.files.places (site.pages out)).Nodup := by
    rw [← length_eq_dedup_iff, hn, FileTree.places, List.length_map]
  refine ⟨⟨fun h => hcount.mp h.2.2, fun hnodup => ?_⟩, fun hlinks => ?_⟩
  · obtain ⟨hpages, hindex⟩ := forall_pages.mp (hread hnodup)
    exact ⟨hpages, hindex, hcount.mpr hnodup⟩
  · obtain ⟨d, hplaces⟩ := exists_places hplain hfound hlinks
    rw [← fileNames_nodup_iff hnames, hplaces]
    exact List.nodup_map_iff fun a b h => by simpa using h

def vaultAndToken : Site where
  contracts := [{ contractName := "Vault" }, { contractName := "Token" }]
  template := placeholder "ContractName"

def writtenVaultAndToken : Except Failure Nat × Memory :=
  (vaultAndToken.write ⟨"docs"⟩ : Memory.Run Nat).run
    { logFile := some ⟨"run.log"⟩, verbosity := .info }

theorem write_keeps_vault_and_token :
    writtenVaultAndToken.1 = .ok 3 ∧
      (∀ c ∈ vaultAndToken.contracts, writtenVaultAndToken.2.files.readText
        (Path.join ⟨"docs"⟩ ⟨c.pageName⟩) = .ok (vaultAndToken.render c)) ∧
      writtenVaultAndToken.2.files.readText ⟨"docs/README.md"⟩ = .ok vaultAndToken.renderIndex := by
  have hn : writtenVaultAndToken.1 = .ok 3 := by decide +kernel
  have hrun : writtenVaultAndToken = (.ok 3, writtenVaultAndToken.2) := Prod.ext hn rfl
  have h := write_keeps_pages_iff (by decide) (by decide) hrun (by decide +kernel)
  obtain ⟨hpages, hindex, -⟩ := h.1.mpr ((h.2 (by decide +kernel)).mpr (by decide +kernel))
  exact ⟨hn, hpages, hindex rfl⟩

def readme : Site where
  contracts := [{ contractName := "README" }]
  template := placeholder "ContractName"

/-- A contract of this name shares its file with the index, which is counted once more. -/
theorem write_loses_readme :
    let written := (readme.write ⟨"docs"⟩ : Memory.Run Nat).run {}
    written.1 = .ok 2 ∧ (written.2.files.places (readme.pages ⟨"docs"⟩)).dedup.length = 1 ∧
      ∀ c ∈ readme.contracts, written.2.files.readText (Path.join ⟨"docs"⟩ ⟨c.pageName⟩) ≠
        .ok (readme.render c) := by
  decide +kernel

end Site

end ContractDocs
