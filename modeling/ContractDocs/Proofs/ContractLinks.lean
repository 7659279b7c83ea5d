import ContractDocs.Link
import Mathlib.Data.List.Nodup

/-! Links between the pages of a contract and of its bases. The line of bases goes by the
declarations that the inheritance list refers to, the line of derived contracts by the names
as they are written there, so a link may have no link back. -/

namespace ContractDocs

/-- The reference of an inheritance entry leads to a declaration with this name. -/
def BaseContract.RefersTo (mode : LookupMode) (contracts : List Contract) (e : BaseContract)
    (name : String) : Prop :=
  name ≠ "" ∧ ∃ id l, e.baseName.bind (·.referencedDeclaration) = some id ∧
    locate mode id contracts = some l ∧ l.node.nameText = name

def BaseContract.declaredName? (mode : LookupMode) (contracts : List Contract)
    (e : BaseContract) : Option String := do
  let id ← e.baseName.bind (·.referencedDeclaration)
  let found ← locate mode id contracts
  if found.node.nameText.isEmpty then none else some found.node.nameText

theorem BaseContract.declaredName?_eq_some {mode : LookupMode} {contracts : List Contract}
    {e : BaseContract} {name : String} :
    e.declaredName? mode contracts = some name ↔ e.RefersTo mode contracts name := by
  simp only [declaredName?, RefersTo, Option.bind_eq_bind, Option.bind_eq_some_iff,
    Option.ite_none_left_eq_some, Option.some.injEq, String.isEmpty_iff]
  constructor
  · rintro ⟨id, hid, l, hl, hne, rfl⟩
    exact ⟨hne, id, l, hid, hl, rfl⟩
  · rintro ⟨hne, id, l, hid, hl, rfl⟩
    exact ⟨id, hid, l, hl, hne, rfl⟩

theorem BaseContract.declaredName?_eq_none {mode : LookupMode} {contracts : List Contract}
    {e : BaseContract} :
    e.declaredName? mode contracts = none ↔ ∀ name, ¬ e.RefersTo mode contracts name := by
  simp only [Option.eq_none_iff_forall_ne_some, ← declaredName?_eq_some, ne_eq]

namespace Contract

theorem baseLabel?_eq_some {mode : LookupMode} {contracts : List Contract} {e : BaseContract}
    {name : String} :
    baseLabel? mode contracts e = some name ↔
      e.RefersTo mode contracts name ∨
        e.name? = some name ∧ ∀ other, ¬ e.RefersTo mode contracts other := by
  have hlabel : baseLabel? mode contracts e = (e.declaredName? mode contracts).or e.name? :=
    Option.orElse_eq_or
  rw [hlabel, Option.or_eq_some_iff, BaseContract.declaredName?_eq_some,
    BaseContract.declaredName?_eq_none, and_comm (b := e.name? = some name)]

theorem mem_baseLabels {mode : LookupMode} {contracts : List Contract} {c : Contract}
    {name : String} :
    name ∈ c.baseLabels mode contracts ↔ ∃ e ∈ c.baseContracts,
      e.RefersTo mode contracts name ∨
        e.name? = some name ∧ ∀ other, ¬ e.RefersTo mode contracts other := by
  simp only [baseLabels, List.mem_filterMap, baseLabel?_eq_some]

theorem mem_derivedContracts {contracts : List Contract} {c d : Contract} :
    d ∈ c.derivedContracts contracts ↔
      d ∈ contracts ∧ ∃ e ∈ d.baseContracts, e.name? = some c.contractName := by
  simp [derivedContracts, extendsName]

theorem mem_derivedContracts_iff_name {contracts : List Contract} {c d : Contract}
    (hnames : (contracts.map (·.contractName)).Nodup) (hd : d ∈ contracts) :
    d ∈ c.derivedContracts contracts ↔
      d.contractName ∈ (c.derivedContracts contracts).map (·.contractName) := by
  constructor
  · exact List.mem_map_of_mem
  · intro h
    obtain ⟨d', hd', hname⟩ := List.mem_map.mp h
    have hmem : d' ∈ contracts := (mem_derivedContracts.mp hd').1
    exact List.inj_on_of_nodup_map hnames hmem hd hname ▸ hd'

/-- The two lines link each other unless an entry refers to the contract while none is written
so, or an entry is written so while all of these refer to something else and no entry refers to
the contract. -/
theorem mutual_links_iff {contracts : List Contract} (mode : LookupMode) {c d : Contract}
    (hnames : (contracts.map (·.contractName)).Nodup) (hd : d ∈ contracts) :
    (d ∈ c.derivedContracts contracts ↔
        d.contractName ∈ (c.derivedContracts contracts).map (·.contractName)) ∧
      ((c.contractName ∈ d.baseLabels mode contracts ↔ d ∈ c.derivedContracts contracts) ↔
        ¬ ((∃ e ∈ d.baseContracts, e.RefersTo mode contracts c.contractName) ∧
            ∀ e ∈ d.baseContracts, e.name? ≠ some c.contractName) ∧
        ¬ ((∃ e ∈ d.baseContracts, e.name? = some c.contractName) ∧
            ∀ e ∈ d.baseContracts, ¬ e.RefersTo mode contracts c.contractName ∧
              (e.name? = some c.contractName →
                ∃ other, e.RefersTo mode contracts other))) := by
  refine ⟨mem_derivedContracts_iff_name hnames hd, ?_⟩
  have hderived : d ∈ c.derivedContracts contracts ↔
      ∃ e ∈ d.baseContracts, e.name? = some c.contractName := by
    rw [mem_derivedContracts, and_iff_right hd]
  rw [hderived, mem_baseLabels]
  constructor
  · intro h
    constructor
    · rintro ⟨⟨e, he, hrefers⟩, hnone⟩
      obtain ⟨e', he', hname⟩ := h.mp ⟨e, he, .inl hrefers⟩
      exact hnone e' he' hname
    · rintro ⟨hwritten, helse⟩
      obtain ⟨e, he, hrefers | ⟨hname, hnone⟩⟩ := h.mpr hwritten
      · exact (helse e he).1 hrefers
      · obtain ⟨other, hother⟩ := (helse e he).2 hname
        exact hnone other hother
  · rintro ⟨hback, hforth⟩
    constructor
    · rintro ⟨e, he, hrefers | ⟨hname, _⟩⟩
      · by_contra hnone
        exact hback ⟨⟨e, he, hrefers⟩, fun e' he' hname => hnone ⟨e', he', hname⟩⟩
      · exact ⟨e, he, hname⟩
    · intro hwritten
      by_contra hnone
      refine hforth ⟨hwritten, fun e he => ⟨fun hrefers => ?_, fun hname => ?_⟩⟩
      · exact hnone ⟨e, he, .inl hrefers⟩
      · by_contra hother
        exact hnone ⟨e, he, .inr ⟨hname, fun other h => hother ⟨other, h⟩⟩⟩

def unitOf (id : Int) (name : String) (bases : List BaseContract) : Contract where
  contractName := name
  ast := {
    nodes := some [{
      id := some id
      nodeType := some .contractDefinition
      name := some name
      contractKind := some "contract"
      baseContracts := some bases }] }

def ownable : Contract := unitOf 7 "Ownable" []

def pausable : Contract := unitOf 8 "Pausable" []

/-- One base is named by a path, the other by a plain name with a reference that leads nowhere. -/
def vault : Contract :=
  unitOf 9 "Vault" [
    { baseName := some { name := some "access.Ownable", referencedDeclaration := some 7 } },
    { baseName := some { name := some "Pausable", referencedDeclaration := some 99 } }]

def vaultProject : List Contract := [ownable, pausable, vault]

theorem mutual_links_pausable_vault :
    (vaultProject.map (·.contractName)).Nodup ∧ vault ∈ vaultProject ∧
      pausable.contractName ∈ vault.baseLabels .exhaustive vaultProject ∧
      vault ∈ pausable.derivedContracts vaultProject := by
  have hnames : (vaultProject.map (·.contractName)).Nodup := by decide
  have hvault : vault ∈ vaultProject := by simp [vaultProject]
  have hlast : vault.baseContracts.getLast? = some
      { baseName := some { name := some "Pausable", referencedDeclaration := some 99 } } := by
    decide +kernel
  have hmem := List.mem_of_getLast? hlast
  have hnone := BaseContract.declaredName?_eq_none.mp
    (show BaseContract.declaredName? .exhaustive vaultProject
      { baseName := some { name := some "Pausable", referencedDeclaration := some 99 } } = none by
        decide +kernel)
  have hlink : pausable.contractName ∈ vault.baseLabels .exhaustive vaultProject := by
    decide +kernel
  have hmutual := (mutual_links_iff .exhaustive (c := pausable) hnames hvault).2.mpr ⟨?_, ?_⟩
  · exact ⟨hnames, hvault, hlink, hmutual.mp hlink⟩
  · rintro ⟨_, hwritten⟩
    exact hwritten _ hmem rfl
  · rintro ⟨_, helse⟩
    obtain ⟨other, hother⟩ := (helse _ hmem).2 rfl
    exact hnone other hother

theorem link_without_link_back :
    (vaultProject.map (·.contractName)).Nodup ∧
      ownable ∈ vaultProject ∧ vault ∈ vaultProject ∧
      ¬ (ownable.contractName ∈ vault.baseLabels .exhaustive vaultProject ↔
        vault ∈ ownable.derivedContracts vaultProject) := by
  have hlink : ownable.contractName ∈ vault.baseLabels .exhaustive vaultProject := by
    decide +kernel
  have hwritten : vault.extendsName ownable.contractName = false := by decide +kernel
  refine ⟨by decide, by simp [vaultProject], by simp [vaultProject], fun h => ?_⟩
  have hback := (List.mem_filter.mp (h.mp hlink)).2
  exact absurd hback (by simp [hwritten])

end Contract

end ContractDocs
