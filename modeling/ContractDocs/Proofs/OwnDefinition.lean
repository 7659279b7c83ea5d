import ContractDocs.Proofs.ContractLinks
import ContractDocs.Proofs.Levels

/-! The definition of a contract in its compilation unit. The page looks for it by the kind of
contract, the inheritance list by the kind of node, and each falls back to something else. As long
as the two kinds go together, both have the same definition before them. -/

namespace ContractDocs

/-- `n` has a property, and no node in front of it does. -/
def IsFirst (p : Node → Prop) (nodes : List Node) (n : Node) : Prop :=
  p n ∧ ∃ before after, nodes = before ++ n :: after ∧ ∀ m ∈ before, ¬ p m

theorem IsFirst.mem {p : Node → Prop} {nodes : List Node} {n : Node} (h : IsFirst p nodes n) :
    n ∈ nodes := by
  obtain ⟨-, before, after, rfl, -⟩ := h
  simp

theorem IsFirst.congr {p q : Node → Prop} {nodes : List Node} {n : Node}
    (hpq : ∀ m ∈ nodes, p m ↔ q m) (h : IsFirst p nodes n) : IsFirst q nodes n := by
  have hn := h.mem
  obtain ⟨hp, before, after, rfl, hbefore⟩ := h
  refine ⟨(hpq n hn).mp hp, before, after, rfl, fun m hm hq => ?_⟩
  exact hbefore m hm ((hpq m (List.mem_append_left _ hm)).mpr hq)

namespace Contract

/-- The nodes that extractors look at: the top level of the unit, and behind it the members. -/
def levelOrder (c : Contract) : List Node :=
  c.declarations ++ c.declarations.flatMap Node.children

/-- Just the definitions of contracts say which kind of contract they are. -/
def KindsAgree (c : Contract) : Prop :=
  ∀ n ∈ c.levelOrder, n.contractKind.isSome = true ↔ n.nodeType = some .contractDefinition

instance (c : Contract) : Decidable c.KindsAgree :=
  inferInstanceAs (Decidable (∀ n ∈ c.levelOrder,
    n.contractKind.isSome = true ↔ n.nodeType = some .contractDefinition))

/-- A definition that carries the contract's name. -/
def Defines (c : Contract) (n : Node) : Prop :=
  n.nodeType = some .contractDefinition ∧ n.name = some c.contractName

instance (c : Contract) (n : Node) : Decidable (c.Defines n) :=
  inferInstanceAs (Decidable (_ ∧ _))

section

variable {c : Contract} {p : Node → Prop} {test : Node → Bool}

theorem declarationWhere?_eq_some_iff (htest : ∀ n, test n = true ↔ p n) {n : Node} :
    c.declarationWhere? test = some n ↔ IsFirst p c.levelOrder n := by
  rw [declarationWhere?, nearDeclarations_eq, List.find?_eq_some_iff_append]
  simp only [IsFirst, levelOrder, ← htest, Bool.not_eq_true, Bool.not_eq_true']

theorem declarationWhere?_eq_none_iff (htest : ∀ n, test n = true ↔ p n) :
    c.declarationWhere? test = none ↔ ∀ n ∈ c.levelOrder, ¬ p n := by
  rw [declarationWhere?, nearDeclarations_eq, List.find?_eq_none]
  simp only [levelOrder, htest]

theorem exists_isFirst (htest : ∀ n, test n = true ↔ p n) (h : ∃ n ∈ c.levelOrder, p n) :
    ∃ n, IsFirst p c.levelOrder n := by
  cases hfind : c.declarationWhere? test with
  | none =>
    obtain ⟨n, hn, hp⟩ := h
    exact absurd hp ((declarationWhere?_eq_none_iff htest).mp hfind n hn)
  | some n => exact ⟨n, (declarationWhere?_eq_some_iff htest).mp hfind⟩

end

variable {c : Contract}

theorem defines_iff (n : Node) :
    (n.is .contractDefinition && n.name == some c.contractName) = true ↔ c.Defines n := by
  simp [Node.is, Defines]

theorem declaresBases_iff (n : Node) : n.declaresBases = true ↔ n.bases ≠ [] := by
  simp [Node.declaresBases]

theorem KindsAgree.definition?_eq (h : c.KindsAgree) {d : Node}
    (hd : IsFirst c.Defines c.levelOrder d) : c.definition? = some d := by
  have hkind : IsFirst (fun n => n.contractKind.isSome = true ∧ n.name = some c.contractName)
      c.levelOrder d :=
    hd.congr fun m hm => and_congr_left' (h m hm).symm
  have hfind : (c.declarationWhere? fun n =>
      n.contractKind.isSome && n.name == some c.contractName) = some d :=
    (declarationWhere?_eq_some_iff fun n => by simp).mpr hkind
  rw [definition?, hfind]
  rfl

theorem baseContracts_of_defines {d : Node} (hd : IsFirst c.Defines c.levelOrder d) :
    c.baseContracts = d.bases := by
  rw [baseContracts, (declarationWhere?_eq_some_iff defines_iff).mpr hd]
  rfl

theorem baseContracts_of_first {n : Node} (hnone : ∀ m ∈ c.levelOrder, ¬ c.Defines m)
    (hn : IsFirst (·.bases ≠ []) c.levelOrder n) : c.baseContracts = n.bases := by
  rw [baseContracts, (declarationWhere?_eq_none_iff defines_iff).mpr hnone,
    (declarationWhere?_eq_some_iff declaresBases_iff).mpr hn]
  rfl

theorem baseContracts_eq_nil (hnone : ∀ m ∈ c.levelOrder, ¬ c.Defines m)
    (hbases : ∀ m ∈ c.levelOrder, ¬ m.bases ≠ []) : c.baseContracts = [] := by
  rw [baseContracts, (declarationWhere?_eq_none_iff defines_iff).mpr hnone,
    (declarationWhere?_eq_none_iff declaresBases_iff).mpr hbases]
  rfl

/-- A contract extends what the first definition of its name lists, even if that is nothing while
other definitions list bases, and this is also the definition that the page describes. Only a
unit without such a definition lends the contract the first list of bases that it has. -/
theorem bases_of_own_definition (h : c.KindsAgree) :
    ((∃ n ∈ c.levelOrder, c.Defines n) →
      ∃ d, IsFirst c.Defines c.levelOrder d ∧ c.definition? = some d ∧
        c.baseContracts = d.bases ∧
        ∀ (base : Contract) (contracts : List Contract), c ∈ contracts →
          (c ∈ base.derivedContracts contracts ↔
            ∃ e ∈ d.bases, e.name? = some base.contractName)) ∧
    ((∀ n ∈ c.levelOrder, ¬ c.Defines n) →
      (c.baseContracts ≠ [] ↔ ∃ n ∈ c.levelOrder, n.bases ≠ []) ∧
      (c.baseContracts ≠ [] →
        ∃ n, IsFirst (·.bases ≠ []) c.levelOrder n ∧ c.baseContracts = n.bases)) := by
  constructor
  · intro hown
    obtain ⟨d, hd⟩ := exists_isFirst defines_iff hown
    have hbases := baseContracts_of_defines hd
    refine ⟨d, hd, h.definition?_eq hd, hbases, fun base contracts hc => ?_⟩
    rw [mem_derivedContracts, and_iff_right hc, hbases]
  · intro hnone
    by_cases hsome : ∃ n ∈ c.levelOrder, n.bases ≠ []
    · obtain ⟨n, hn⟩ := exists_isFirst declaresBases_iff hsome
      have hbases := baseContracts_of_first hnone hn
      exact ⟨iff_of_true (hbases ▸ hn.1) hsome, fun _ => ⟨n, hn, hbases⟩⟩
    · have hbases := baseContracts_eq_nil hnone fun m hm hne => hsome ⟨m, hm, hne⟩
      exact ⟨iff_of_false (· hbases) hsome, fun hne => absurd hbases hne⟩

/-- A definition with a base, and behind it a constant and a definition of the same name. -/
def siblings (name : String) : Contract where
  contractName := name
  ast := {
    nodes := some [
      { id := some 1, nodeType := some .contractDefinition, name := some "Token"
        contractKind := some "contract"
        baseContracts := some [{ baseName := some { name := some "Ownable" } }] },
      { id := some 2, nodeType := some .variableDeclaration, name := some "Vault" },
      { id := some 3, nodeType := some .contractDefinition, name := some "Vault"
        contractKind := some "contract" }] }

theorem bases_of_own_definition_siblings :
    (siblings "Vault").KindsAgree ∧
      (∃ d, (siblings "Vault").definition? = some d ∧ d.id = some 3 ∧
        (siblings "Vault").baseContracts = d.bases ∧ d.bases = [] ∧
        siblings "Vault" ∉ ownable.derivedContracts [ownable, siblings "Vault"]) ∧
      (siblings "Other").KindsAgree ∧
      ∃ n, IsFirst (·.bases ≠ []) (siblings "Other").levelOrder n ∧
        (siblings "Other").baseContracts = n.bases := by
  have hvault : (siblings "Vault").KindsAgree := by decide +kernel
  have hother : (siblings "Other").KindsAgree := by decide +kernel
  obtain ⟨d, -, hdefinition, hbases, hderived⟩ :=
    (bases_of_own_definition hvault).1 (by decide +kernel)
  have hlent := ((bases_of_own_definition hother).2 (by decide +kernel)).2 (by decide +kernel)
  have hid : (siblings "Vault").definition?.map (·.id) = some (some 3) := by decide +kernel
  have hempty : (siblings "Vault").baseContracts = [] := by decide +kernel
  rw [hdefinition] at hid
  refine ⟨hvault, ⟨d, hdefinition, by simpa using hid, hbases, hbases ▸ hempty, ?_⟩, hother, hlent⟩
  rw [hderived ownable _ (by simp), ← hbases, hempty]
  simp

end Contract

end ContractDocs
