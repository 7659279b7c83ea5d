import ContractDocs.Proofs.FirstBranch

/-! The contract in which a node is found. One contract after another is searched, which gives the
same node as a single walk over all of them. A search by first branches may miss a node that a full
search finds, so its answer may come from a later contract but never from an earlier one. -/

namespace ContractDocs

theorem hasId_iff {n : Node} {id : Int} : n.hasId id = true ↔ n.id = some id := by
  simp [Node.hasId]

theorem findNode_exhaustive_eq_none {id : Int} {roots : List Node} :
    findNode .exhaustive id roots = none ↔ ∀ n, StandsIn roots n → n.id ≠ some id := by
  simp only [findNode, List.find?_eq_none, hasId_iff, mem_preorder_iff, ne_eq]

theorem standsIn_of_findNode {id : Int} {roots : List Node} {n : Node}
    (h : findNode .exhaustive id roots = some n) : StandsIn roots n ∧ n.id = some id := by
  have hfind : (preorder roots).find? (·.hasId id) = some n := h
  have hid := List.find?_some hfind
  exact ⟨mem_preorder_iff.mp (List.mem_of_find?_eq_some hfind), hasId_iff.mp hid⟩

theorem findNode_exhaustive_of_firstBranch {id : Int} {roots : List Node} {n : Node}
    (h : findNode .firstBranch id roots = some n) : findNode .exhaustive id roots = some n := by
  obtain ⟨above, last, hdescends⟩ := exists_descends roots
  have hfind : (above ++ last).find? (·.hasId id) = some n :=
    (hdescends.findInFirstBranch_eq_find id).symm.trans h
  exact hdescends.isPrefix.find?_eq_some hfind

/-- The contracts `before` have been searched in vain when `l` is found in the next one. -/
structure FoundBehind (mode : LookupMode) (id : Int) (contracts before : List Contract)
    (l : Located) : Prop where
  place : before ++ [l.contract] <+: contracts
  missed : ∀ c ∈ before, findNode mode id c.declarations = none
  found : findNode mode id l.contract.declarations = some l.node

theorem locate_eq_some_iff {mode : LookupMode} {id : Int} {contracts : List Contract}
    {l : Located} :
    locate mode id contracts = some l ↔ ∃ before, FoundBehind mode id contracts before l := by
  rw [locate, List.findSome?_eq_some_iff]
  simp only [Option.map_eq_some_iff, Option.map_eq_none_iff]
  constructor
  · rintro ⟨before, c, after, rfl, ⟨n, hn, rfl⟩, hmissed⟩
    exact ⟨before, ⟨after, by simp⟩, hmissed, hn⟩
  · rintro ⟨before, ⟨after, rfl⟩, hmissed, hfound⟩
    exact ⟨before, l.contract, after, by simp, ⟨l.node, hfound, rfl⟩, hmissed⟩

theorem isSome_locate_exhaustive {id : Int} {contracts : List Contract} :
    (locate .exhaustive id contracts).isSome = true ↔
      ∃ c ∈ contracts, ∃ n, StandsIn c.declarations n ∧ n.id = some id := by
  rw [Option.isSome_iff_ne_none, ne_eq, locate, List.findSome?_eq_none_iff]
  simp only [Option.map_eq_none_iff, findNode_exhaustive_eq_none]
  simp

theorem find_forest_of_locate {id : Int} {contracts : List Contract} {l : Located}
    (h : locate .exhaustive id contracts = some l) :
    (forest contracts).find? (·.hasId id) = some l.node := by
  have hnode : (locate .exhaustive id contracts).map (·.node) =
      (forest contracts).find? (·.hasId id) := by
    rw [forest_eq_flatMap, List.find?_flatMap, locate, List.map_findSome?]
    congr 1
    funext c
    rw [Function.comp_apply, Option.map_map]
    exact Option.map_id'
  rw [← hnode, h]
  rfl

/-- In how many places of all contracts a node with this id stands. -/
def places (id : Int) (contracts : List Contract) : Nat :=
  (forest contracts).countP (·.hasId id)

theorem places_append (id : Int) (xs ys : List Contract) :
    places id (xs ++ ys) = places id xs + places id ys := by
  rw [places, forest_append, List.countP_append]
  rfl

namespace FoundBehind

variable {mode : LookupMode} {id : Int} {contracts before earlier : List Contract}
  {l l' : Located}

theorem exhaustive_found (h : FoundBehind mode id contracts before l) :
    findNode .exhaustive id l.contract.declarations = some l.node := by
  cases mode with
  | exhaustive => exact h.found
  | firstBranch => exact findNode_exhaustive_of_firstBranch h.found

theorem places_pos (h : FoundBehind mode id contracts before l) :
    0 < places id [l.contract] := by
  obtain ⟨hstands, hid⟩ := standsIn_of_findNode h.exhaustive_found
  rw [places, List.countP_pos_iff]
  refine ⟨l.node, ?_, hasId_iff.mpr hid⟩
  exact mem_forest.mpr ⟨l.contract, List.mem_singleton_self _, mem_preorder_iff.mpr hstands⟩

/-- A full search stops no later than any other one. -/
theorem isPrefix (h : FoundBehind mode id contracts before l)
    (h' : FoundBehind .exhaustive id contracts earlier l') : earlier <+: before := by
  have hmissing : l.contract ∉ earlier := by
    intro hmem
    have hnone := h'.missed l.contract hmem
    rw [h.exhaustive_found] at hnone
    exact Option.some_ne_none _ hnone
  have hearlier : earlier <+: contracts := (List.prefix_append _ _).trans h'.place
  rcases List.prefix_or_prefix_of_prefix hearlier h.place with hshort | hlong
  · rcases List.prefix_concat_iff.mp hshort with rfl | hshort
    · exact absurd (by simp) hmissing
    · exact hshort
  · exact absurd (hlong.subset (by simp)) hmissing

theorem eq_of_places (h : FoundBehind mode id contracts before l)
    (h' : FoundBehind .exhaustive id contracts earlier l') (hone : places id contracts = 1) :
    earlier = before ∧ l' = l := by
  obtain ⟨between, rfl⟩ := h.isPrefix h'
  obtain ⟨after, rfl⟩ := h.place
  have hnext : [l'.contract] <+: between ++ [l.contract] ++ after := by
    have hplace := h'.place
    rwa [List.append_assoc, List.append_assoc, List.prefix_append_right_inj,
      ← List.append_assoc] at hplace
  cases between with
  | nil =>
    have hcontract : l'.contract = l.contract := by simpa using hnext
    have hnode : l'.node = l.node := by
      have hfound := h'.found
      rw [hcontract, h.exhaustive_found] at hfound
      exact (Option.some.inj hfound).symm
    refine ⟨(List.append_nil earlier).symm, ?_⟩
    obtain ⟨c', n'⟩ := l'
    obtain ⟨c, n⟩ := l
    obtain rfl : c' = c := hcontract
    obtain rfl : n' = n := hnode
    rfl
  -- if they stop at different contracts, both of these have a node with the id
  | cons c between =>
    obtain rfl : l'.contract = c := by simpa using hnext
    have hpos := h.places_pos
    have hpos' := h'.places_pos
    rw [← List.singleton_append] at hone
    simp only [places_append] at hone
    omega

end FoundBehind

/-- A full search gives a result just when some contract has the id at any depth. It is the first
node with the id in one walk over all contracts, together with the first contract that has such a
node. What a search by first branches finds stands in the same contract or a later one, and it is
the same if the id stands in one place only. -/
theorem locate_finds_first (contracts : List Contract) (id : Int) :
    ((locate .exhaustive id contracts).isSome = true ↔
        ∃ c ∈ contracts, ∃ n, StandsIn c.declarations n ∧ n.id = some id) ∧
      (∀ l, locate .exhaustive id contracts = some l →
        (preorder (declarations contracts)).find? (·.hasId id) = some l.node ∧
          ∃ before, before ++ [l.contract] <+: contracts ∧
            (∀ c ∈ before, ∀ n, StandsIn c.declarations n → n.id ≠ some id) ∧
            StandsIn l.contract.declarations l.node ∧ l.node.id = some id) ∧
      ∀ l, locate .firstBranch id contracts = some l →
        ∃ before earlier l', FoundBehind .firstBranch id contracts before l ∧
          locate .exhaustive id contracts = some l' ∧
          FoundBehind .exhaustive id contracts earlier l' ∧ earlier <+: before ∧
          ((preorder (declarations contracts)).countP (·.hasId id) = 1 →
            earlier = before ∧ l' = l) := by
  refine ⟨isSome_locate_exhaustive, ?_, ?_⟩
  · intro l hl
    obtain ⟨before, hplace, hmissed, hfound⟩ := locate_eq_some_iff.mp hl
    refine ⟨find_forest_of_locate hl, before, hplace, ?_, standsIn_of_findNode hfound⟩
    intro c hc
    exact findNode_exhaustive_eq_none.mp (hmissed c hc)
  · intro l hl
    obtain ⟨before, hbefore⟩ := locate_eq_some_iff.mp hl
    have hsome : (locate .exhaustive id contracts).isSome = true := by
      obtain ⟨hstands, hid⟩ := standsIn_of_findNode hbefore.exhaustive_found
      have hmem : l.contract ∈ contracts := hbefore.place.subset (by simp)
      exact isSome_locate_exhaustive.mpr ⟨l.contract, hmem, l.node, hstands, hid⟩
    obtain ⟨l', hl'⟩ := Option.isSome_iff_exists.mp hsome
    obtain ⟨earlier, hearlier⟩ := locate_eq_some_iff.mp hl'
    exact ⟨before, earlier, l', hbefore, hl', hearlier, hbefore.isPrefix hearlier,
      hbefore.eq_of_places hearlier⟩

/-- The first contract has id 7 behind its first branch, where only a full search looks. -/
def hiddenTwin : List Contract :=
  let leaf (id : Int) : Node := { id := some id }
  let branch (id : Int) (below : List Node) : Node := { id := some id, nodes := some below }
  [{ contractName := "Old", ast := { nodes := some [branch 1 [leaf 2], branch 3 [leaf 7]] } },
    { contractName := "New", ast := { nodes := some [leaf 7, branch 4 [leaf 8]] } }]

theorem locate_finds_first_hiddenTwin :
    ((locate .firstBranch 7 hiddenTwin).map (·.contract.contractName) = some "New" ∧
        (locate .exhaustive 7 hiddenTwin).map (·.contract.contractName) = some "Old") ∧
      (preorder (declarations hiddenTwin)).countP (·.hasId 8) = 1 ∧
      ∃ l, locate .firstBranch 8 hiddenTwin = some l ∧ locate .exhaustive 8 hiddenTwin = some l ∧
        ∃ before, FoundBehind .firstBranch 8 hiddenTwin before l ∧
          FoundBehind .exhaustive 8 hiddenTwin before l := by
  have hsome : (locate .firstBranch 8 hiddenTwin).isSome = true := by decide +kernel
  have hone : (preorder (declarations hiddenTwin)).countP (·.hasId 8) = 1 := by decide +kernel
  obtain ⟨l, hl⟩ := Option.isSome_iff_exists.mp hsome
  obtain ⟨before, earlier, l', hbefore, hl', hearlier, _, hsame⟩ :=
    (locate_finds_first hiddenTwin 8).2.2 l hl
  obtain ⟨rfl, rfl⟩ := hsame hone
  exact ⟨by decide +kernel, hone, l', hl, hl', earlier, hbefore, hearlier⟩

end ContractDocs
