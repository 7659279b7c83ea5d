import ContractDocs.Proofs.ContractLinks
import ContractDocs.Proofs.LinkLines
import ContractDocs.Proofs.LocatedNodes

/-! The names that the line of bases links, entry by entry, and what a search by first branches
changes about them. It may miss the declaration that an entry refers to, and then only the name
as it is written is left. -/

namespace ContractDocs

namespace BaseContract

variable (mode : LookupMode) (contracts : List Contract)

def Unresolved (e : BaseContract) : Prop :=
  ∀ name, ¬ e.RefersTo mode contracts name

/-- The name an entry is linked by: that of the declaration it refers to, or else the one that is
written. -/
def LinkedAs (e : BaseContract) (name : String) : Prop :=
  e.RefersTo mode contracts name ∨ e.name? = some name ∧ e.Unresolved mode contracts

/-- The names of all entries in their order. An entry gives the one name it is linked by, or
nothing if it neither refers to a named declaration nor has a name written. -/
inductive LinkedNames : List BaseContract → List String → Prop where
  | nil : LinkedNames [] []
  | linked {e : BaseContract} {entries : List BaseContract} {name : String}
      {names : List String} : e.LinkedAs mode contracts name → LinkedNames entries names →
      LinkedNames (e :: entries) (name :: names)
  | dropped {e : BaseContract} {entries : List BaseContract} {names : List String} :
      e.Unresolved mode contracts → e.name? = none → LinkedNames entries names →
      LinkedNames (e :: entries) names

variable {mode contracts} {e : BaseContract} {name : String}

theorem baseLabel?_eq_some_iff_linkedAs :
    Contract.baseLabel? mode contracts e = some name ↔ e.LinkedAs mode contracts name :=
  Contract.baseLabel?_eq_some

theorem baseLabel?_eq_none :
    Contract.baseLabel? mode contracts e = none ↔
      e.Unresolved mode contracts ∧ e.name? = none := by
  have hlabel : Contract.baseLabel? mode contracts e =
      (e.declaredName? mode contracts).or e.name? := Option.orElse_eq_or
  rw [hlabel, Option.or_eq_none_iff, declaredName?_eq_none]
  rfl

theorem linkedNames_iff {entries : List BaseContract} {names : List String} :
    LinkedNames mode contracts entries names ↔
      entries.filterMap (Contract.baseLabel? mode contracts) = names := by
  constructor
  · intro h
    induction h with
    | nil => rfl
    | linked hlinked _ ih =>
      rw [List.filterMap_cons, baseLabel?_eq_some_iff_linkedAs.mpr hlinked, ih]
    | dropped hnone hname _ ih =>
      rw [List.filterMap_cons, baseLabel?_eq_none.mpr ⟨hnone, hname⟩, ih]
  · rintro rfl
    induction entries with
    | nil => exact .nil
    | cons e entries ih =>
      rw [List.filterMap_cons]
      cases hlabel : Contract.baseLabel? mode contracts e with
      | none =>
        obtain ⟨hnone, hname⟩ := baseLabel?_eq_none.mp hlabel
        exact .dropped hnone hname ih
      | some name => exact .linked (baseLabel?_eq_some_iff_linkedAs.mp hlabel) ih

theorem exists_linkedAs_iff :
    (∃ name, e.LinkedAs mode contracts name) ↔
      e.name?.isSome = true ∨ ∃ name, e.RefersTo mode contracts name := by
  constructor
  · rintro ⟨name, hrefers | ⟨hname, -⟩⟩
    · exact .inr ⟨name, hrefers⟩
    · exact .inl (by simp [hname])
  · intro h
    by_cases hrefers : ∃ name, e.RefersTo mode contracts name
    · exact hrefers.imp fun name => .inl
    · obtain ⟨name, hname⟩ := Option.isSome_iff_exists.mp (h.resolve_right hrefers)
      exact ⟨name, .inr ⟨hname, fun other hother => hrefers ⟨other, hother⟩⟩⟩

end BaseContract

theorem places_le_one {contracts : List Contract}
    (h : ((forest contracts).filterMap (·.id)).Nodup) (id : Int) : places id contracts ≤ 1 := by
  have hcount := List.nodup_iff_count_le_one.mp h id
  rwa [List.count_filterMap] at hcount

/-- With ids that stand in one place each, what a search by first branches finds is what a full
search finds. -/
theorem locate_exhaustive_of_firstBranch {contracts : List Contract} {id : Int} {l : Located}
    (hids : ((forest contracts).filterMap (·.id)).Nodup)
    (h : locate .firstBranch id contracts = some l) : locate .exhaustive id contracts = some l := by
  obtain ⟨before, hbefore⟩ := locate_eq_some_iff.mp h
  obtain ⟨hstands, hid⟩ := standsIn_of_findNode hbefore.exhaustive_found
  have hmem : l.contract ∈ contracts := hbefore.place.subset (by simp)
  have hsome := isSome_locate_exhaustive.mpr ⟨l.contract, hmem, l.node, hstands, hid⟩
  obtain ⟨l', hl'⟩ := Option.isSome_iff_exists.mp hsome
  obtain ⟨earlier, hearlier⟩ := locate_eq_some_iff.mp hl'
  have hone : places id contracts = 1 := by
    obtain ⟨after, hafter⟩ := hbefore.place
    have hsplit := places_append id (before ++ [l.contract]) after
    rw [hafter, places_append] at hsplit
    have hpos := hbefore.places_pos
    have hle := places_le_one hids id
    omega
  rw [hl', (hbefore.eq_of_places hearlier hone).2]

theorem BaseContract.RefersTo.exhaustive {contracts : List Contract} {e : BaseContract}
    {name : String} (hids : ((forest contracts).filterMap (·.id)).Nodup)
    (h : e.RefersTo .firstBranch contracts name) : e.RefersTo .exhaustive contracts name := by
  obtain ⟨hne, id, l, hid, hl, hname⟩ := h
  exact ⟨hne, id, l, hid, locate_exhaustive_of_firstBranch hids hl, hname⟩

namespace Contract

theorem pageLink_eq (name : String) : pageLink name = "[" ++ name ++ "](" ++ name ++ ".md)" := by
  simp [pageLink, link, String.append_assoc]

/-- The line of bases links one name for each entry that has a name written or refers to a named
declaration, in their order, and nothing for the others. If no id stands in two places, a search
by first branches changes a name only to the written one, and drops only what has none. -/
theorem bases_linked_by_modes (contracts : List Contract) (c : Contract) :
    (∀ mode messages, ∃ names filled,
      BaseContract.LinkedNames mode contracts c.baseContracts names ∧
      (∀ others, BaseContract.LinkedNames mode contracts c.baseContracts others → others = names) ∧
      let links := names.map fun name => "[" ++ name ++ "](" ++ name ++ ".md)"
      Fills (messages.listSeparator.intercalate links) messages.extending filled ∧
      c.extendsLine messages mode contracts = (if names = [] then "" else "**" ++ filled ++ "**") ∧
      (Text.Holds messages.extending "\x7b0\x7d" →
        LinkLine (c.extendsLine messages mode contracts) messages.listSeparator links)) ∧
    (∀ mode, ∀ e ∈ c.baseContracts, (∃ name, e.LinkedAs mode contracts name) ↔
      e.name?.isSome = true ∨ ∃ name, e.RefersTo mode contracts name) ∧
    (((forest contracts).filterMap (·.id)).Nodup → ∀ e ∈ c.baseContracts,
      (∀ name, e.LinkedAs .firstBranch contracts name →
        e.LinkedAs .exhaustive contracts name ∨ e.name? = some name) ∧
      ((∃ name, e.LinkedAs .exhaustive contracts name) →
        (¬ ∃ name, e.LinkedAs .firstBranch contracts name) → e.name? = none)) := by
  refine ⟨fun mode messages => ⟨c.baseLabels mode contracts, _,
    BaseContract.linkedNames_iff.mpr rfl, fun others h => ?_, fills_fillMessage _ _, ?_, ?_⟩,
    fun mode e _ => BaseContract.exists_linkedAs_iff, fun hids e _ => ⟨?_, ?_⟩⟩
  · exact (BaseContract.linkedNames_iff.mp h).symm
  · simp only [← pageLink_eq]
    rw [extendsLine]
    cases c.baseLabels mode contracts <;> simp
  · intro hholds
    simp only [← pageLink_eq]
    exact c.linkLine_extendsLine hholds mode contracts
  · rintro name (hrefers | ⟨hname, -⟩)
    · exact .inl (.inl (hrefers.exhaustive hids))
    · exact .inr hname
  · intro _ hnone
    rw [BaseContract.exists_linkedAs_iff, not_or] at hnone
    simpa using hnone.1

/-- The definition of the base stands behind another one, where only a full search looks. The
second entry has no name written. -/
def hiddenBase : Contract where
  contractName := "Ownable"
  ast := {
    nodes := some [
      { id := some 1, name := some "Roles", nodes := some [{ id := some 2 }] },
      { id := some 7, nodeType := some .contractDefinition, name := some "Ownable" }] }

def hiddenBaseVault : Contract :=
  unitOf 9 "Vault" [
    { baseName := some { name := some "access.Ownable", referencedDeclaration := some 7 } },
    { baseName := some { referencedDeclaration := some 7 } }]

theorem bases_linked_by_modes_hiddenBase :
    let contracts := [hiddenBase, hiddenBaseVault]
    hiddenBaseVault.extendsLine {} .exhaustive contracts =
        "**Extends: [Ownable](Ownable.md), [Ownable](Ownable.md)**" ∧
      hiddenBaseVault.extendsLine {} .firstBranch contracts =
        "**Extends: [access.Ownable](access.Ownable.md)**" ∧
      LinkLine (hiddenBaseVault.extendsLine {} .exhaustive contracts) ", "
        ["[Ownable](Ownable.md)", "[Ownable](Ownable.md)"] ∧
      ((forest contracts).filterMap (·.id)).Nodup ∧
      ∀ e ∈ hiddenBaseVault.baseContracts,
        (∀ name, e.LinkedAs .firstBranch contracts name →
          e.LinkedAs .exhaustive contracts name ∨ e.name? = some name) ∧
        ((∃ name, e.LinkedAs .exhaustive contracts name) →
          (¬ ∃ name, e.LinkedAs .firstBranch contracts name) → e.name? = none) := by
  intro contracts
  have hids : ((forest contracts).filterMap (·.id)).Nodup := by decide +kernel
  have hlabels : hiddenBaseVault.baseLabels .exhaustive contracts = ["Ownable", "Ownable"] := by
    decide +kernel
  obtain ⟨hlines, -, hmodes⟩ := bases_linked_by_modes contracts hiddenBaseVault
  obtain ⟨names, _, -, hunique, -, -, hlinks⟩ := hlines .exhaustive {}
  obtain rfl := hunique _ (BaseContract.linkedNames_iff.mpr hlabels)
  exact ⟨by decide +kernel, by decide +kernel, hlinks Settings.usable_default.extending, hids,
    hmodes hids⟩

end Contract

end ContractDocs
