import ContractDocs.Artifact
import ContractDocs.Proofs.FileChanges
import ContractDocs.Proofs.PageFiles

/-! Where pages are written. A page is an entry of the output directory just if its contract's name
has no slash in it, or is itself the absolute path of such an entry without the ending. -/

namespace ContractDocs

namespace Path

/-- A directory joined with one name. -/
def IsEntryOf (p out : Path) : Prop :=
  ∃ name, IsName name ∧ p = out.join ⟨name⟩

/-- What stands before the names of the entries of a directory. -/
def front (p : Path) : String :=
  (p.join ⟨""⟩).text

theorem join_eq_front (p : Path) {text : String} (h : (Path.mk text).isAbsolute = false) :
    p.join ⟨text⟩ = ⟨p.front ++ text⟩ := by
  have hempty : (Path.mk "").isAbsolute = false := rfl
  unfold front
  rw [join, join, h, hempty]
  split_ifs <;> simp_all

theorem isAbsolute_append {text : String} (h : (Path.mk text).isAbsolute = true) (more : String) :
    (Path.mk (text ++ more)).isAbsolute = true := by
  simp only [isAbsolute, beq_iff_eq] at h ⊢
  rw [String.toList_append, List.head?_append, h]
  rfl

theorem front_of_isAbsolute {p : Path} (h : p.isAbsolute = true) :
    (Path.mk p.front).isAbsolute = true ∧ ∃ before, p.front = before ++ "/" := by
  rcases p.join_cases (q := ⟨""⟩) rfl with ⟨hempty, -⟩ | ⟨before, hjoin, -, habsolute⟩
  · simp [isAbsolute, hempty] at h
  · have hfront : p.front = before ++ "/" := by
      rw [front, hjoin, String.append_empty]
    exact ⟨by rw [hfront, habsolute, h], before, hfront⟩

/-- A text without slashes, or the absolute path of something directly inside the directory. -/
def Admits (out : Path) (text : String) : Prop :=
  '/' ∉ text.toList ∨
    out.isAbsolute = true ∧ ∃ rest : String, '/' ∉ rest.toList ∧ text = (out.join ⟨rest⟩).text

/-- The ending has no slash, so it belongs to the name of the entry. -/
theorem slashless_of_append_md {text before entry : String}
    (h : text ++ ".md" = before ++ "/" ++ entry) (hentry : '/' ∉ entry.toList) :
    ∃ rest : String, '/' ∉ rest.toList ∧ text = before ++ "/" ++ rest := by
  rw [← String.toList_inj, String.toList_append, String.toList_append] at h
  rcases List.append_eq_append_iff.mp h with ⟨cs, hbefore, hmd⟩ | ⟨cs, htext, hentry'⟩
  · rcases List.eq_nil_or_concat cs with rfl | ⟨cs, c, rfl⟩
    · exact ⟨"", by simp, by simpa [← String.toList_inj] using hbefore.symm⟩
    · have hc : c = '/' := by
        have hlast := congrArg List.getLast? hbefore
        simpa using hlast.symm
      have hmem : '/' ∈ ".md".toList := by
        rw [hmd, hc]
        simp
      exact absurd hmem (by decide)
  · refine ⟨String.ofList cs, ?_, ?_⟩
    · rw [hentry'] at hentry
      simp_all
    · rw [← String.toList_inj, htext]
      simp

theorem isEntryOf_join_md_iff {out : Path} {text : String} :
    (out.join ⟨text ++ ".md"⟩).IsEntryOf out ↔ out.Admits text := by
  constructor
  · rintro ⟨entry, hentry, heq⟩
    have hrelative := isAbsolute_of_slashless hentry.slashless
    cases habsolute : (Path.mk (text ++ ".md")).isAbsolute with
    | false =>
      rw [join_eq_front out habsolute, join_eq_front out hrelative] at heq
      obtain rfl : text ++ ".md" = entry := by simpa [← String.toList_inj] using heq
      exact .inl (isName_md_iff.mp hentry)
    | true =>
      have hself : out.join ⟨text ++ ".md"⟩ = ⟨text ++ ".md"⟩ := by rw [join, habsolute, if_pos rfl]
      rw [hself] at heq
      have hout : out.isAbsolute = true := by
        rw [← (hentry.join out).2.2, ← heq, habsolute]
      obtain ⟨-, before, hbefore⟩ := front_of_isAbsolute hout
      rw [join_eq_front out hrelative, hbefore, Path.mk.injEq] at heq
      obtain ⟨rest, hrest, htext⟩ := slashless_of_append_md heq hentry.slashless
      refine .inr ⟨hout, rest, hrest, ?_⟩
      rw [join_eq_front out (isAbsolute_of_slashless hrest), hbefore, htext]
  · rintro (hslash | ⟨hout, rest, hrest, rfl⟩)
    · exact ⟨_, isName_md_iff.mpr hslash, rfl⟩
    · have hname := isName_md_iff.mpr hrest
      refine ⟨rest ++ ".md", hname, ?_⟩
      rw [join_eq_front out (isAbsolute_of_slashless hrest),
        join_eq_front out (isAbsolute_of_slashless hname.slashless)]
      have habsolute : (Path.mk (out.front ++ rest ++ ".md")).isAbsolute = true :=
        isAbsolute_append (isAbsolute_append (front_of_isAbsolute hout).1 rest) ".md"
      rw [join, habsolute, if_pos rfl, String.append_assoc]

end Path

theorem Artifact.admits_nameAt_iff (a : Artifact) (path out : Path) :
    out.Admits (a.nameAt path) ↔ ∀ name ∈ a.contractName, out.Admits name := by
  have hstem : out.Admits (path.stem?.getD "") := by
    left
    cases hstem : path.stem? with
    | none => simp
    | some stem => exact Path.slashless_stem hstem
  cases hname : a.contractName with
  | none => simpa [nameAt, hname] using hstem
  | some name =>
    by_cases hempty : name = ""
    · have hadmits : out.Admits "" := .inl (by simp)
      simpa [nameAt, hname, hempty, hadmits, Option.filter_some] using hstem
    · simp [nameAt, hname, hempty, Option.filter_some]

namespace Site

/-- The contracts are those of the artifacts with the given texts and paths. -/
def MadeFrom (site : Site) (sources : List (String × Path)) : Prop :=
  ∀ c, c ∈ site.contracts ↔
    ∃ source ∈ sources, Contract.ofArtifact source.1 source.2 = .ok (some c)

theorem isEntryOf_pages_iff (site : Site) (out : Path) :
    (∀ page ∈ site.pages out, page.1.IsEntryOf out) ↔
      ∀ c ∈ site.contracts, out.Admits c.contractName := by
  have hindex : (out.join ⟨indexPage⟩).IsEntryOf out := ⟨indexPage, by decide, rfl⟩
  rw [forall_pages]
  simp only [hindex, implies_true, and_true]
  exact forall₂_congr fun c _ => Path.isEntryOf_join_md_iff

theorem forall_madeFrom {site : Site} {sources : List (String × Path)}
    (h : site.MadeFrom sources) (out : Path) :
    (∀ c ∈ site.contracts, out.Admits c.contractName) ↔
      ∀ source ∈ sources, ∀ a, Artifact.parse source.1 = .ok a → a.ast.isSome = true →
        ∀ name ∈ a.contractName, out.Admits name := by
  constructor
  · intro hall source hsource a hparse hast
    obtain ⟨ast, hast⟩ := Option.isSome_iff_exists.mp hast
    rw [← a.admits_nameAt_iff source.2]
    refine hall { contractName := a.nameAt source.2, ast, abi := a.abi } ((h _).mpr ?_)
    refine ⟨source, hsource, ?_⟩
    simp [Contract.ofArtifact, hparse, Artifact.contractAt?, hast]
  · intro hall c hc
    obtain ⟨source, hsource, hmade⟩ := (h c).mp hc
    unfold Contract.ofArtifact at hmade
    cases hparse : Artifact.parse source.1 with
    | error fault => simp [hparse] at hmade
    | ok a =>
      simp only [hparse, Except.ok.injEq, Artifact.contractAt?, Option.map_eq_some_iff] at hmade
      obtain ⟨ast, hast, rfl⟩ := hmade
      rw [a.admits_nameAt_iff source.2]
      exact hall source hsource a hparse (by simp [hast])

/-- The paths that are written to: those of the pages, and the one the log goes to. -/
def Targets (site : Site) (out : Path) (s : Memory) (p : Path) : Prop :=
  p ∈ (site.pages out).map (·.1) ∨ p ∈ s.logFile

theorem puts_logAll_targets (site : Site) (out : Path) {s s₁ : Memory}
    (h : s₁.logFile = s.logFile) (lines : List LogLine) :
    s₁.files.Puts (site.Targets out s) (lines.foldl Memory.log s₁).files :=
  (s₁.puts_logAll lines).mono fun _ hp => .inr (h ▸ hp)

/-- The directories are made first, and then files are put where the pages and the log go. -/
theorem puts_of_write {site : Site} {out : Path} {s s' : Memory} {r : Except Failure Nat}
    (h : (site.write out : Memory.Run Nat).run s = (r, s')) :
    ∃ t, s.files.AddsDirectories t ∧ t.Puts (site.Targets out s) s'.files := by
  refine ⟨(s.makeDirectories out).2.files, s.files.addsDirectories_makeAlong out.ancestors, ?_⟩
  have hfile₁ : (s.makeDirectories out).2.logFile = s.logFile := rfl
  unfold write at h
  rcases run_bind_cases h with ⟨e, hmake, -⟩ | ⟨_, s₁, hmake, hrest⟩
  · rw [run_makeDirectories] at hmake
    rw [(Prod.mk.inj hmake).2]
    exact .refl _ _
  · rw [run_makeDirectories] at hmake
    rw [(Prod.mk.inj hmake).2] at hfile₁ ⊢
    clear h hmake
    rw [run_bind_of_ok (run_logAll _ _), run_bind_of_ok (run_writeAll _ _)] at hrest
    have hlogged := puts_logAll_targets site out hfile₁ (site.pagesLog out)
    have hfile₂ := (s₁.logFile_logAll (site.pagesLog out)).trans hfile₁
    generalize (site.pagesLog out).foldl Memory.log s₁ = s₂ at hrest hlogged hfile₂
    have hpages : s₂.files.Puts (site.Targets out s) (s₂.writeEach (site.pages out)).2.files :=
      (s₂.puts_writeEach (site.pages out)).mono fun _ hp => .inl hp
    rcases run_bind_cases hrest with ⟨e, houtcome, -⟩ | ⟨_, s₃, houtcome, hlast⟩
    · rw [← (Prod.mk.inj houtcome).2]
      exact hlogged.trans hpages
    · rw [run_bind_of_ok (run_logAll _ _), ← (Prod.mk.inj houtcome).2] at hlast
      rw [← (Prod.mk.inj hlast).2]
      have hfile₃ := (s₂.logFile_writeEach (site.pages out)).trans hfile₂
      exact (hlogged.trans hpages).trans (puts_logAll_targets site out hfile₃ _)

/-- The pages are entries of the output directory just if it admits all names that the artifacts
give. Whatever the names are, nothing is changed but where pages and the log go, and nothing else
is made but directories. -/
theorem pages_inside_iff {site : Site} {sources : List (String × Path)}
    (h : site.MadeFrom sources) (out : Path) :
    ((∀ page ∈ site.pages out, page.1.IsEntryOf out) ↔
      ∀ source ∈ sources, ∀ a, Artifact.parse source.1 = .ok a → a.ast.isSome = true →
        ∀ name ∈ a.contractName, out.Admits name) ∧
    ∀ s s' r, (site.write out : Memory.Run Nat).run s = (r, s') →
      ∀ l, s'.files.entryAt? l ≠ s.files.entryAt? l →
        s.files.entryAt? l = none ∧ s'.files.entryAt? l = some .directory ∨
          ∃ p, site.Targets out s p ∧ s'.files.place? p = some l := by
  refine ⟨(site.isEntryOf_pages_iff out).trans (forall_madeFrom h out), ?_⟩
  intro s s' r hrun l hl
  obtain ⟨t, hdirs, hputs⟩ := puts_of_write hrun
  exact hputs.changed hdirs hl

/-- A site with the contracts of some artifacts. -/
def ofSources (sources : List (String × Path)) : Site where
  contracts := sources.filterMap fun source => (Contract.ofArtifact source.1 source.2).toOption.join
  template := placeholder "ContractName"

theorem madeFrom_ofSources (sources : List (String × Path)) :
    (ofSources sources).MadeFrom sources := by
  intro c
  simp only [ofSources, List.mem_filterMap]
  refine exists_congr fun source => and_congr_right fun _ => ?_
  cases Contract.ofArtifact source.1 source.2 with
  | error e => simp [Except.toOption]
  | ok made => cases made <;> simp [Except.toOption]

/-- An artifact that gives nothing but a name and an empty tree. -/
def namedArtifact (name : String) : String :=
  "\x7b\"contractName\":\"" ++ name ++ "\",\"ast\":\x7b\x7d\x7d"

def spelledOut : List (String × Path) :=
  [(namedArtifact "/docs/Vault", ⟨"build/A.json"⟩), (namedArtifact "", ⟨"build/Token.json"⟩)]

theorem pages_inside_spelledOut :
    ((ofSources spelledOut).pages ⟨"/docs"⟩).map (·.1) =
        [⟨"/docs/Vault.md"⟩, ⟨"/docs/Token.md"⟩, ⟨"/docs/README.md"⟩] ∧
      ∀ page ∈ (ofSources spelledOut).pages ⟨"/docs"⟩, page.1.IsEntryOf ⟨"/docs"⟩ := by
  refine ⟨by decide +kernel, (pages_inside_iff (madeFrom_ofSources spelledOut) ⟨"/docs"⟩).1.mpr ?_⟩
  have hnames : spelledOut.map (fun source => (Artifact.parse source.1).map (·.contractName)) =
      [.ok (some "/docs/Vault"), .ok (some "")] := by decide +kernel
  intro source hsource a hparse _ name hname
  have hmem : Except.ok (some name) ∈
      spelledOut.map fun source => (Artifact.parse source.1).map (·.contractName) := by
    refine List.mem_map.mpr ⟨source, hsource, ?_⟩
    rw [hparse]
    exact congrArg Except.ok hname
  rw [hnames] at hmem
  simp only [List.mem_cons, Except.ok.injEq, Option.some.injEq, List.not_mem_nil, or_false] at hmem
  rcases hmem with rfl | rfl
  · exact .inr ⟨rfl, "Vault", by decide, rfl⟩
  · exact .inl (by decide)

def climbing : List (String × Path) :=
  [(namedArtifact "../evil", ⟨"build/A.json"⟩)]

/-- A name can lead out of the output directory. -/
theorem page_outside_output :
    (ofSources climbing).MadeFrom climbing ∧
      ¬ (∀ page ∈ (ofSources climbing).pages ⟨"docs"⟩, page.1.IsEntryOf ⟨"docs"⟩) ∧
      let written := ((ofSources climbing).write ⟨"docs"⟩ : Memory.Run Nat).run {}
      written.1 = .ok 2 ∧ written.2.files.readText ⟨"evil.md"⟩ = .ok "../evil\n" := by
  refine ⟨madeFrom_ofSources climbing, ?_, by decide +kernel⟩
  have hnames : (ofSources climbing).contracts.map (·.contractName) = ["../evil"] := by
    decide +kernel
  obtain ⟨c, hc, hname⟩ := List.mem_map.mp (hnames ▸ List.mem_singleton_self "../evil")
  rw [isEntryOf_pages_iff]
  intro hall
  rcases hname ▸ hall c hc with hslashless | ⟨habsolute, -⟩
  · exact hslashless (by decide)
  · exact absurd habsolute (by decide)

end Site

end ContractDocs
