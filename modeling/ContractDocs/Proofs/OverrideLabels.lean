import ContractDocs.Proofs.OverridingNodes

/-! The contract that a link to an override names. It is the one whose unit was searched, so an
override is linked under the name of every contract that comes with the unit, and not only of the
one whose definition it stands in. -/

namespace ContractDocs

/-- In the unit of `c`, the node is a member of the contract definition `d`. -/
structure Contract.Declares (c : Contract) (d n : Node) : Prop where
  top_level : d ∈ c.declarations
  definition : d.is .contractDefinition = true
  member : n ∈ d.children

theorem Contract.Declares.mem_overridingNodes_iff {contracts : List Contract} {root : Int}
    {c : Contract} {d n : Node} (h : ¬ CycleReachable contracts root) (hc : c ∈ contracts)
    (hdeclares : c.Declares d n) :
    ⟨c, n⟩ ∈ overridingNodes contracts root ↔
      ∃ target ∈ n.overriddenIds, OverrideReachable contracts root target := by
  have hplace : ⟨c, n⟩ ∈ occurrences contracts :=
    mem_occurrences.mpr ⟨hc, mem_preorder_of_child hdeclares.top_level hdeclares.member⟩
  rw [mem_overridingNodes h, and_iff_right hplace]

/-- An override that a definition declares is linked for each contract that comes with this
definition. So all links name the contract that declares the override if and only if no definition
with an override comes with a contract of another name. -/
theorem labels_name_definition_iff {contracts : List Contract} {root : Int}
    (h : ¬ CycleReachable contracts root) :
    (∀ c ∈ contracts, ∀ d n, c.Declares d n →
        (⟨c, n⟩ ∈ overridingNodes contracts root ↔
          ∃ target ∈ n.overriddenIds, OverrideReachable contracts root target)) ∧
      ((∀ l ∈ overridingNodes contracts root, ∀ d, l.contract.Declares d l.node →
          d.name = some l.contract.contractName) ↔
        ∀ d n, (∃ target ∈ n.overriddenIds, OverrideReachable contracts root target) →
          ∀ c ∈ contracts, c.Declares d n → d.name = some c.contractName) := by
  have hlinked : ∀ c ∈ contracts, ∀ d n, c.Declares d n →
      (⟨c, n⟩ ∈ overridingNodes contracts root ↔
        ∃ target ∈ n.overriddenIds, OverrideReachable contracts root target) :=
    fun c hc d n hdeclares => hdeclares.mem_overridingNodes_iff h hc
  refine ⟨hlinked, ?_, ?_⟩
  · intro hnames d n hoverrides c hc hdeclares
    exact hnames ⟨c, n⟩ ((hlinked c hc d n hdeclares).mpr hoverrides) d hdeclares
  · intro hnames l hl d hdeclares
    obtain ⟨hplace, hoverrides⟩ := (mem_overridingNodes h).mp hl
    exact hnames d l.node hoverrides l.contract (mem_occurrences.mp hplace).1 hdeclares

def payFunction (id : Int) (overridden : List Int) : Node where
  id := some id
  nodeType := some .functionDefinition
  name := some "pay"
  baseFunctions := some overridden

def payDefinition (name : String) (pay : Node) : Node where
  nodeType := some .contractDefinition
  name := some name
  contractKind := some "contract"
  nodes := some [pay]

/-- `Vault` overrides the function of `Base`. -/
def payDefinitions : List Node :=
  [payDefinition "Base" (payFunction 1 []), payDefinition "Vault" (payFunction 2 [1])]

def separateUnits : List Contract :=
  payDefinitions.map fun d => { contractName := d.nameText, ast := { nodes := some [d] } }

/-- The two contracts are defined in one unit, with which each of them comes. -/
def sharedUnit : List Contract :=
  ["Base", "Vault"].map fun name =>
    { contractName := name, ast := { nodes := some payDefinitions } }

theorem separateUnits_acyclic : ¬ CycleReachable separateUnits 1 := by
  refine not_cycleReachable_of_increasing 1 ?_
  simp [forest, declarations, separateUnits, payDefinitions, payDefinition, payFunction,
    Contract.declarations, Node.children, Node.overriddenIds, Node.nodeId?]

theorem sharedUnit_acyclic : ¬ CycleReachable sharedUnit 1 := by
  refine not_cycleReachable_of_increasing 1 ?_
  simp [forest, declarations, sharedUnit, payDefinitions, payDefinition, payFunction,
    Contract.declarations, Node.children, Node.overriddenIds, Node.nodeId?]

theorem labels_name_definition_separateUnits :
    ¬ CycleReachable separateUnits 1 ∧
      (overridingNodes separateUnits 1).map (·.label) = ["Vault.pay"] ∧
      ∀ l ∈ overridingNodes separateUnits 1, ∀ d, l.contract.Declares d l.node →
        d.name = some l.contract.contractName := by
  have hnamed : ∀ d ∈ payDefinitions, d.name = some d.nameText := by
    simp [payDefinitions, payDefinition, Node.nameText]
  refine ⟨separateUnits_acyclic, by decide +kernel,
    (labels_name_definition_iff separateUnits_acyclic).2.mpr ?_⟩
  intro d n _ c hc hdeclares
  obtain ⟨own, hown, rfl⟩ := List.mem_map.mp hc
  obtain rfl : d = own := by
    simpa [Contract.declarations, Node.children] using hdeclares.top_level
  exact hnamed d hown

theorem label_names_other_contract :
    ¬ CycleReachable sharedUnit 1 ∧
      (overridingNodes sharedUnit 1).map (·.label) = ["Base.pay", "Vault.pay"] ∧
      ¬ ∀ l ∈ overridingNodes sharedUnit 1, ∀ d, l.contract.Declares d l.node →
        d.name = some l.contract.contractName := by
  refine ⟨sharedUnit_acyclic, by decide +kernel, fun hnames => ?_⟩
  have hdeclares : Contract.Declares
      { contractName := "Base", ast := { nodes := some payDefinitions } }
      (payDefinition "Vault" (payFunction 2 [1])) (payFunction 2 [1]) :=
    ⟨by simp [Contract.declarations, Node.children, payDefinitions], rfl,
      by simp [Node.children, payDefinition]⟩
  have hlinked := (hdeclares.mem_overridingNodes_iff sharedUnit_acyclic
    (by simp [sharedUnit])).mpr ⟨1, by simp [Node.overriddenIds, payFunction], .refl⟩
  have hname := hnames _ hlinked _ hdeclares
  exact absurd hname (by simp [payDefinition])

end ContractDocs
