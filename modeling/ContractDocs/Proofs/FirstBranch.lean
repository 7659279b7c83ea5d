import ContractDocs.Lookup
import ContractDocs.Proofs.Preorder

/-! The search that enters the first node with children on each level and no other. What it
looks at is the beginning of the document order, because the nodes before the entered one have
nothing below them and those behind it come after its whole subtree. -/

namespace ContractDocs

/-- Looking for `id` from a level on, node by node, inspects the nodes `seen` and ends with
`found`. -/
inductive Inspects (id : Int) : List Node → List Node → Option Node → Prop where
  | nothing : Inspects id [] [] none
  | hit {n : Node} {rest : List Node} : n.hasId id = true → Inspects id (n :: rest) [n] (some n)
  | enter {n : Node} {rest seen : List Node} {found : Option Node} : n.hasId id = false →
      n.hasChildren = true → Inspects id n.children seen found →
      Inspects id (n :: rest) (n :: seen) found
  | pass {n : Node} {rest seen : List Node} {found : Option Node} : n.hasId id = false →
      n.hasChildren = false → Inspects id rest seen found →
      Inspects id (n :: rest) (n :: seen) found

/-- Going from a level into its first node with children, and on like this, leads by the nodes
`above` to `last`, the first level in which no node has children. -/
inductive Descends : List Node → List Node → List Node → Prop where
  | bottom {level : List Node} : (∀ n ∈ level, n.hasChildren = false) → Descends level [] level
  | enter {leaves siblings above last : List Node} {n : Node} :
      (∀ m ∈ leaves, m.hasChildren = false) → n.hasChildren = true →
      Descends n.children above last →
      Descends (leaves ++ n :: siblings) (leaves ++ n :: above) last

theorem exists_descends (level : List Node) : ∃ above last, Descends level above last := by
  induction hw : weight level using Nat.strongRecOn generalizing level with
  | ind w ih =>
    cases hfind : level.find? Node.hasChildren with
    | none =>
      have hleaves : ∀ n ∈ level, n.hasChildren = false := by simpa using hfind
      exact ⟨[], level, .bottom hleaves⟩
    | some n =>
      have hlt : weight n.children < w := by
        have hchildren := weight_children_lt n
        have hle := sizeOf_le_weight (List.mem_of_find?_eq_some hfind)
        omega
      obtain ⟨above, last, hbelow⟩ := ih _ hlt n.children rfl
      obtain ⟨hn, leaves, siblings, rfl, hleaves⟩ := List.find?_eq_some_iff_append.mp hfind
      exact ⟨leaves ++ n :: above, last, .enter (by simpa using hleaves) hn hbelow⟩

theorem children_eq_nil {n : Node} (h : n.hasChildren = false) : n.children = [] := by
  simpa [Node.hasChildren] using h

theorem preorder_of_leaves {level : List Node} (h : ∀ n ∈ level, n.hasChildren = false) :
    preorder level = level := by
  induction level with
  | nil => exact preorder_nil
  | cons n level ih =>
    have hn := children_eq_nil (h n List.mem_cons_self)
    have hrest := ih fun m hm => h m (List.mem_cons_of_mem n hm)
    rw [preorder_cons, hn, preorder_nil, hrest, List.nil_append]

theorem Descends.isPrefix {level above last : List Node} (h : Descends level above last) :
    above ++ last <+: preorder level := by
  induction h with
  | bottom hleaves => simp [preorder_of_leaves hleaves]
  | @enter leaves siblings above last n hleaves _ _ ih =>
    -- the siblings behind the entered node come after all that is below it
    obtain ⟨after, hafter⟩ := ih
    refine ⟨after ++ preorder siblings, ?_⟩
    rw [preorder_append, preorder_cons, preorder_of_leaves hleaves, ← hafter]
    simp only [List.append_assoc, List.cons_append]

/-- The nodes up to the first one with the id. -/
def upTo (id : Int) : List Node → List Node
  | [] => []
  | n :: rest => n :: if n.hasId id then [] else upTo id rest

theorem upTo_of_absent {id : Int} {nodes : List Node} (h : ∀ n ∈ nodes, n.hasId id = false) :
    upTo id nodes = nodes := by
  induction nodes with
  | nil => rfl
  | cons n nodes ih =>
    have hn := h n List.mem_cons_self
    have hrest := ih fun m hm => h m (List.mem_cons_of_mem n hm)
    simp [upTo, hn, hrest]

theorem upTo_append_cons {id : Int} {before after : List Node} {n : Node}
    (h : ∀ m ∈ before, m.hasId id = false) (hn : n.hasId id = true) :
    upTo id (before ++ n :: after) = before ++ [n] := by
  induction before with
  | nil => simp [upTo, hn]
  | cons m before ih =>
    have hm := h m List.mem_cons_self
    have hrest := ih fun k hk => h k (List.mem_cons_of_mem m hk)
    simp [upTo, hm, hrest]

namespace Inspects

variable {id : Int}

theorem past_leaves {leaves level nodes : List Node} (hleaves : ∀ n ∈ leaves, n.hasChildren = false)
    (h : Inspects id level (upTo id nodes) (nodes.find? (·.hasId id))) :
    Inspects id (leaves ++ level) (upTo id (leaves ++ nodes))
      ((leaves ++ nodes).find? (·.hasId id)) := by
  induction leaves with
  | nil => exact h
  | cons n leaves ih =>
    have hrest := ih fun m hm => hleaves m (List.mem_cons_of_mem n hm)
    rw [List.cons_append, List.cons_append, upTo, List.find?_cons]
    cases hn : n.hasId id with
    | true => exact .hit hn
    | false => exact .pass hn (hleaves n List.mem_cons_self) hrest

theorem of_descends {level above last : List Node} (h : Descends level above last) :
    Inspects id level (upTo id (above ++ last)) ((above ++ last).find? (·.hasId id)) := by
  induction h with
  | @bottom level hleaves =>
    have hnothing : Inspects id [] (upTo id []) (List.find? (·.hasId id) []) := .nothing
    simpa using Inspects.past_leaves hleaves hnothing
  | @enter leaves siblings above last n hleaves hn _ ih =>
    rw [List.append_assoc]
    apply Inspects.past_leaves hleaves
    rw [List.cons_append, upTo, List.find?_cons]
    cases hid : n.hasId id with
    | true => exact .hit hid
    | false => exact .enter hid hn ih

theorem unique {level seen seen' : List Node} {found found' : Option Node}
    (h : Inspects id level seen found) (h' : Inspects id level seen' found') :
    seen = seen' ∧ found = found' := by
  induction h generalizing seen' found' with
  | nothing =>
    cases h'
    exact ⟨rfl, rfl⟩
  | hit hid =>
    cases h' <;> simp_all
  | enter hid hn _ ih =>
    cases h' with
    | hit hid' => simp [hid] at hid'
    | enter _ _ hbelow =>
      obtain ⟨rfl, rfl⟩ := ih hbelow
      exact ⟨rfl, rfl⟩
    | pass _ hn' _ => simp [hn] at hn'
  | pass hid hn _ ih =>
    cases h' with
    | hit hid' => simp [hid] at hid'
    | enter _ hn' _ => simp [hn] at hn'
    | pass _ _ hrest =>
      obtain ⟨rfl, rfl⟩ := ih hrest
      exact ⟨rfl, rfl⟩

end Inspects

theorem findInFirstBranch_eq (id : Int) (level : List Node) :
    findInFirstBranch id level =
      (level.find? fun n => n.hasId id || n.hasChildren).bind fun n =>
        if n.hasId id then some n else findInFirstBranch id n.children := by
  rw [findInFirstBranch]
  split
  · next h => rw [h]; rfl
  · next n h => rw [h]; rfl

theorem exists_inspects (id : Int) (level : List Node) :
    ∃ seen, Inspects id level seen (findInFirstBranch id level) := by
  -- the search goes on below a node or behind it
  induction level using preorder_induction with
  | hnil =>
    have hnone : findInFirstBranch id [] = none := findInFirstBranch_eq id []
    exact ⟨[], hnone ▸ .nothing⟩
  | hcons n rest ihbelow ihrest =>
    rw [findInFirstBranch_eq, List.find?_cons]
    cases hid : n.hasId id with
    | true => exact ⟨[n], by simpa [hid] using Inspects.hit hid⟩
    | false =>
      cases hn : n.hasChildren with
      | true =>
        obtain ⟨seen, hseen⟩ := ihbelow
        exact ⟨n :: seen, by simpa [hid] using Inspects.enter hid hn hseen⟩
      | false =>
        obtain ⟨seen, hseen⟩ := ihrest
        rw [findInFirstBranch_eq] at hseen
        exact ⟨n :: seen, .pass hid hn hseen⟩

theorem Descends.findInFirstBranch_eq_find {level above last : List Node}
    (h : Descends level above last) (id : Int) :
    findInFirstBranch id level = (above ++ last).find? (·.hasId id) := by
  obtain ⟨seen, hseen⟩ := exists_inspects id level
  exact (hseen.unique (.of_descends h)).2

theorem Inspects.iff_of_descends {level above last seen : List Node} {found : Option Node}
    {id : Int} (h : Descends level above last) :
    Inspects id level seen found ↔
      seen = upTo id (above ++ last) ∧ found = (above ++ last).find? (·.hasId id) := by
  constructor
  · intro hseen
    exact hseen.unique (.of_descends h)
  · rintro ⟨rfl, rfl⟩
    exact .of_descends h

/-- The search by first branches looks at a beginning of the document order, which ends with the
first level on the way down that has no children, and it gives the first node there with the id. A
search of the whole forest stops at the same place. -/
theorem firstBranch_inspects_beginning (roots : List Node) :
    ∃ above last, Descends roots above last ∧ above ++ last <+: preorder roots ∧
      (∀ id, (∀ n ∈ preorder roots, n.hasId id = false) → ∀ seen found,
        Inspects id roots seen found ↔ seen = above ++ last ∧ found = none) ∧
      (∀ id, (∃ seen, Inspects id roots seen (findNode .firstBranch id roots)) ∧
        findNode .firstBranch id roots = (above ++ last).find? (·.hasId id)) ∧
      ∀ id n, findNode .firstBranch id roots = some n →
        findNode .exhaustive id roots = some n ∧ ∃ before after,
          preorder roots = before ++ n :: after ∧ (∀ m ∈ before, m.hasId id = false) ∧
          Inspects id roots (before ++ [n]) (some n) := by
  obtain ⟨above, last, hdescends⟩ := exists_descends roots
  have hfront := hdescends.isPrefix
  have hfind : ∀ id, findNode .firstBranch id roots = (above ++ last).find? (·.hasId id) :=
    hdescends.findInFirstBranch_eq_find
  refine ⟨above, last, hdescends, hfront, ?_, fun id => ⟨exists_inspects id roots, hfind id⟩, ?_⟩
  · intro id habsent seen found
    have hnone : ∀ n ∈ above ++ last, n.hasId id = false :=
      fun n hn => habsent n (hfront.subset hn)
    rw [Inspects.iff_of_descends hdescends, upTo_of_absent hnone,
      List.find?_eq_none.mpr (by simpa using hnone)]
  · intro id n hn
    rw [hfind] at hn
    obtain ⟨hid, before, after, hsplit, hbefore⟩ := List.find?_eq_some_iff_append.mp hn
    have hclear : ∀ m ∈ before, m.hasId id = false := by simpa using hbefore
    obtain ⟨behind, hbehind⟩ := hfront
    have hplace : preorder roots = before ++ n :: (after ++ behind) := by
      rw [← hbehind, hsplit, List.append_assoc, List.cons_append]
    refine ⟨?_, before, after ++ behind, hplace, hclear, ?_⟩
    · exact List.find?_eq_some_iff_append.mpr ⟨hid, before, after ++ behind, hplace, hbefore⟩
    · rw [Inspects.iff_of_descends hdescends, hsplit, upTo_append_cons hclear hid]
      exact ⟨rfl, by rw [← hsplit, hn]⟩

/-- Two definitions with members. Only the first of them is entered. -/
def twoDefinitions : List Node :=
  let leaf (id : Int) : Node := { id := some id }
  let function : Node := { id := some 3, body := some { nodes := some [leaf 4] } }
  [{ id := some 1, nodes := some [leaf 2, function] }, { id := some 5, nodes := some [leaf 6] }]

theorem firstBranch_inspects_twoDefinitions :
    (∀ n ∈ preorder twoDefinitions, n.hasId 99 = false) ∧
      (findNode .firstBranch 4 twoDefinitions).isSome = true ∧
      (findNode .firstBranch 6 twoDefinitions).isSome = false ∧
      (findNode .exhaustive 6 twoDefinitions).isSome = true ∧
      ∃ above last, Descends twoDefinitions above last ∧
        (∀ seen found, Inspects 99 twoDefinitions seen found ↔
          seen = above ++ last ∧ found = none) ∧
        ∃ n, findNode .firstBranch 4 twoDefinitions = some n ∧
          findNode .exhaustive 4 twoDefinitions = some n := by
  have habsent : ∀ n ∈ preorder twoDefinitions, n.hasId 99 = false := by decide +kernel
  have hfound : (findNode .firstBranch 4 twoDefinitions).isSome = true := by decide +kernel
  obtain ⟨above, last, hdescends, _, hinspects, _, hsame⟩ :=
    firstBranch_inspects_beginning twoDefinitions
  obtain ⟨n, hn⟩ := Option.isSome_iff_exists.mp hfound
  exact ⟨habsent, hfound, by decide +kernel, by decide +kernel, above, last, hdescends,
    hinspects 99 habsent, n, hn, (hsame 4 n hn).1⟩

end ContractDocs
