import ContractDocs.Page
import ContractDocs.Proofs.Levels
import ContractDocs.Proofs.OverridingNodes

/-! Links to the functions that override another one, and the headings they should lead to. The
link takes the name of the function, the heading has another text if there is no name. -/

namespace ContractDocs

namespace Text

theorem lowerAfter_eq_nil {before cs : List Char} : lowerAfter before cs = [] ↔ cs = [] := by
  cases cs with
  | nil => simp [lowerAfter]
  | cons c rest =>
    simp only [lowerAfter, List.append_eq_nil_iff, reduceCtorEq, iff_false, not_and]
    intro hsmall
    split at hsmall
    · simp at hsmall
    · split at hsmall <;> simp at hsmall

theorem lower_eq_empty {text : String} : lower text = "" ↔ text = "" := by
  have hlist : (lower text).toList = [] ↔ text.toList = [] := by
    simp [lower, lowerAfter_eq_nil]
  simpa using hlist

@[simp] theorem lower_empty : lower "" = "" :=
  lower_eq_empty.mpr rfl

end Text

theorem exists_intercalate_of_mem (separator : String) {part : String} {parts : List String}
    (h : part ∈ parts) : ∃ before after,
      separator ++ separator.intercalate parts = before ++ separator ++ part ++ after := by
  induction parts with
  | nil => simp at h
  | cons first more ih =>
    cases more with
    | nil =>
      obtain rfl : part = first := by simpa using h
      exact ⟨"", "", by simp⟩
    | cons second more =>
      rw [String.intercalate_cons_cons]
      rcases List.mem_cons.mp h with rfl | hmore
      · exact ⟨"", separator ++ separator.intercalate (second :: more), by
          simp [String.append_assoc]⟩
      · obtain ⟨before, after, heq⟩ := ih hmore
        refine ⟨separator ++ first ++ before, after, ?_⟩
        calc separator ++ (first ++ separator ++ separator.intercalate (second :: more))
            = separator ++ first ++ (separator ++ separator.intercalate (second :: more)) := by
              simp only [String.append_assoc]
          _ = separator ++ first ++ before ++ separator ++ part ++ after := by
              rw [heq]
              simp only [String.append_assoc]

namespace Node

theorem functionBlock_starts (site : Site) (n : Node) :
    ∃ after, n.functionBlock site = "### " ++ n.heading ++ "\n\n" ++ after := by
  simp only [functionBlock, List.append_assoc, List.cons_append]
  rw [String.intercalate_cons_of_ne_nil (by simp)]
  exact ⟨_, rfl⟩

end Node

namespace Contract

theorem mem_plainFunctions {c : Contract} {n : Node} :
    n ∈ c.plainFunctions ↔
      n ∈ c.nearDeclarations ∧ n.is .functionDefinition = true ∧ n.constructs = false := by
  simp [plainFunctions, functions, declarationsOfKind, declarationsWhere, and_comm]

theorem heading_mem_functionsSection {c : Contract} {n : Node} (site : Site)
    (h : n ∈ c.plainFunctions) : ∃ before after, c.functionsSection site =
      before ++ "\n\n" ++ "### " ++ n.heading ++ "\n\n" ++ after := by
  have hblock : n.functionBlock site ∈ c.plainFunctions.map (·.functionBlock site) :=
    List.mem_map_of_mem h
  obtain ⟨after, hstarts⟩ := n.functionBlock_starts site
  obtain ⟨before, rest, hparts⟩ := exists_intercalate_of_mem "\n\n" hblock
  have hsection : c.functionsSection site = "## Functions" ++
      ("\n\n" ++ "\n\n".intercalate (c.plainFunctions.map (·.functionBlock site))) := by
    unfold functionsSection
    split
    · simp_all
    · rw [← String.append_assoc]
      rfl
  refine ⟨"## Functions" ++ before, after ++ rest, ?_⟩
  rw [hsection, hparts, hstarts]
  simp only [String.append_assoc]

end Contract

namespace Located

theorem anchor_eq_iff {l : Located} {fragment : String} :
    l.anchor = l.contract.pageName ++ "#" ++ fragment ↔ Text.lower l.node.nameText = fragment := by
  simp [anchor, String.append_right_inj]

/-- The place that a link names is the heading of the function if the function has a name. One
without a name has a heading all the same, and only an empty kind keeps that empty too. -/
theorem lower_name_eq_heading_iff {n : Node} (h : n.constructs = false) :
    Text.lower n.nameText = Text.lower n.heading ↔ n.nameText ≠ "" ∨ n.kind = some "" := by
  by_cases hname : n.nameText = ""
  · have hheading : n.heading = n.kind.getD "fallback" := by
      simp [Node.heading, hname, h]
    rw [hheading, hname, Text.lower_empty, eq_comm, Text.lower_eq_empty]
    cases n.kind <;> simp
  · have hheading : n.heading = n.nameText := by
      simp [Node.heading, hname]
    simp [hheading, hname]

theorem anchor_lands_iff (site : Site) {function : Int} {l : Located}
    (hl : l ∈ overridingNodes site.contracts function)
    (hkind : l.node.is .functionDefinition = true) (hplain : l.node.constructs = false)
    (hnear : l.node ∈ l.contract.nearDeclarations) :
    l.contract ∈ site.contracts ∧
      (∃ before after, l.contract.functionsSection site =
        before ++ "\n\n" ++ "### " ++ l.node.heading ++ "\n\n" ++ after) ∧
      (l.anchor = l.contract.pageName ++ "#" ++ Text.lower l.node.heading ↔
        l.node.nameText ≠ "" ∨ l.node.kind = some "") := by
  rw [overridingNodes_eq, List.mem_filter, mem_occurrences] at hl
  refine ⟨hl.1.1, ?_, ?_⟩
  · exact Contract.heading_mem_functionsSection site
      (Contract.mem_plainFunctions.mpr ⟨hnear, hkind, hplain⟩)
  · rw [anchor_eq_iff, lower_name_eq_heading_iff hplain]

/-- A function in the contract `Vault` that overrides function 1. -/
def overrideIn (name kind : String) : Located :=
  let function : Node :=
    { id := some 2
      nodeType := some .functionDefinition
      name := some name
      kind := some kind
      baseFunctions := some [1] }
  let definition : Node :=
    { nodeType := some .contractDefinition, name := some "Vault", nodes := some [function] }
  ⟨{ contractName := "Vault", ast := { nodes := some [definition] } }, function⟩

theorem overrideIn_near (name kind : String) :
    (overrideIn name kind).node ∈ (overrideIn name kind).contract.nearDeclarations := by
  simp [Contract.mem_nearDeclarations, overrideIn, Contract.declarations, Node.children]

theorem overrideIn_mem (name kind : String) :
    overrideIn name kind ∈ overridingNodes [(overrideIn name kind).contract] 1 := by
  rw [overridingNodes_eq, List.mem_filter, mem_occurrences]
  refine ⟨⟨List.mem_cons_self, ?_⟩, ?_⟩
  · simp [overrideIn, Contract.declarations, Node.children]
  · simp [overrideIn, Node.overridesAny, Node.overriddenIds, overrideClosure, forest, declarations,
      Contract.declarations, Node.children, overridesWithin]

theorem overrideIn_acyclic (name kind : String) :
    ¬ CycleReachable [(overrideIn name kind).contract] 1 := by
  refine not_cycleReachable_of_increasing 1 ?_
  simp [forest, declarations, overrideIn, Contract.declarations, Node.children,
    Node.overriddenIds, Node.nodeId?]

theorem anchor_lands_transfer :
    ¬ CycleReachable [(overrideIn "Transfer" "function").contract] 1 ∧
      overrideIn "Transfer" "function" ∈
        overridingNodes [(overrideIn "Transfer" "function").contract] 1 ∧
      (∃ before after, (overrideIn "Transfer" "function").contract.functionsSection
          ⟨[(overrideIn "Transfer" "function").contract], {}, defaultTemplate⟩ =
        before ++ "\n\n" ++ "### " ++ "Transfer" ++ "\n\n" ++ after) ∧
      (overrideIn "Transfer" "function").anchor = "Vault.md#" ++ Text.lower "Transfer" := by
  have hmem := overrideIn_mem "Transfer" "function"
  have hnear := overrideIn_near "Transfer" "function"
  obtain ⟨_, hheading, hlands⟩ := anchor_lands_iff
    ⟨[(overrideIn "Transfer" "function").contract], {}, defaultTemplate⟩
    hmem (by decide) (by decide) hnear
  exact ⟨overrideIn_acyclic _ _, hmem, hheading, hlands.mpr (.inl (by decide))⟩

theorem anchor_misses_fallback :
    ¬ CycleReachable [(overrideIn "" "fallback").contract] 1 ∧
      overrideIn "" "fallback" ∈ overridingNodes [(overrideIn "" "fallback").contract] 1 ∧
      (overrideIn "" "fallback").node.is .functionDefinition = true ∧
      (overrideIn "" "fallback").node.constructs = false ∧
      (overrideIn "" "fallback").node ∈ (overrideIn "" "fallback").contract.nearDeclarations ∧
      (overrideIn "" "fallback").anchor ≠ (overrideIn "" "fallback").contract.pageName ++ "#" ++
        Text.lower (overrideIn "" "fallback").node.heading := by
  refine ⟨overrideIn_acyclic _ _, overrideIn_mem _ _, by decide, by decide,
    overrideIn_near _ _, ?_⟩
  decide +kernel

end Located

end ContractDocs
