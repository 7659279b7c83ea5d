import ContractDocs.Override

/-! What a depth-first walk still has to visit. A walk over several trees visits them one
after another, and a search that stops in between leaves exactly the nodes behind it. All nodes
that stand in the trees are visited, and no others. -/

namespace ContractDocs

/-- Calling `next?` until it gives nothing gives exactly the items. -/
inductive GivesAll {σ α : Type} (next? : σ → Option (α × σ)) : σ → List α → Prop where
  | done {s : σ} : next? s = none → GivesAll next? s []
  | more {s t : σ} {a : α} {items : List α} :
      next? s = some (a, t) → GivesAll next? t items → GivesAll next? s (a :: items)

theorem GivesAll.unique {σ α : Type} {next? : σ → Option (α × σ)} {s : σ} {items others : List α}
    (h : GivesAll next? s items) (h' : GivesAll next? s others) : items = others := by
  induction h generalizing others with
  | done h =>
    cases h' with
    | done => rfl
    | more h' => simp [h] at h'
  | more h _ ih =>
    cases h' with
    | done h' => simp [h] at h'
    | more h' hrest =>
      rw [h, Option.some.injEq, Prod.mk.injEq] at h'
      obtain ⟨rfl, rfl⟩ := h'
      rw [ih hrest]

namespace Preorder

@[simp] theorem toList_nil : (Preorder.mk []).toList = [] := by
  rw [toList]; rfl

theorem toList_cons (n : Node) (rest : List Node) :
    (Preorder.mk (n :: rest)).toList = n :: (Preorder.mk (n.children ++ rest)).toList := by
  rw [toList]; rfl

theorem toList_of_next {p q : Preorder} {n : Node} (h : p.next? = some (n, q)) :
    p.toList = n :: q.toList := by
  obtain ⟨_ | ⟨m, rest⟩⟩ := p
  · simp [next?] at h
  · simp only [next?, Option.some.injEq, Prod.mk.injEq] at h
    obtain ⟨rfl, rfl⟩ := h
    exact toList_cons m rest

theorem toList_of_next_none {p : Preorder} (h : p.next? = none) : p.toList = [] := by
  obtain ⟨_ | ⟨m, rest⟩⟩ := p
  · exact toList_nil
  · simp [next?] at h

theorem suffix_of_next {p q : Preorder} {n : Node} (h : p.next? = some (n, q)) :
    q.toList <:+ p.toList := by
  rw [toList_of_next h]
  exact List.suffix_cons n q.toList

theorem mem_of_next {p q : Preorder} {n : Node} (h : p.next? = some (n, q)) :
    n ∈ p.toList := by
  simp [toList_of_next h]

theorem toList_append (xs ys : List Node) :
    (Preorder.mk (xs ++ ys)).toList = (Preorder.mk xs).toList ++ (Preorder.mk ys).toList := by
  -- the children of the first node come before its siblings, so the list gets longer but lighter
  induction hw : weight xs using Nat.strongRecOn generalizing xs with
  | ind w ih =>
    cases xs with
    | nil => simp
    | cons n xs =>
      have hlt : weight (n.children ++ xs) < w := by
        have := weight_children_lt n
        rw [← hw, weight_append, weight_cons]
        omega
      have hh := ih _ hlt (n.children ++ xs) rfl
      rw [List.append_assoc] at hh
      rw [List.cons_append, toList_cons, toList_cons, hh, List.cons_append]

theorem seek?_of_next_none {α : Type} (result : Node → Option α) {p : Preorder}
    (h : p.next? = none) : p.seek? result = none := by
  rw [seek?]
  split
  · rfl
  · simp_all

theorem seek?_of_next {α : Type} (result : Node → Option α) {p q : Preorder} {n : Node}
    (h : p.next? = some (n, q)) :
    p.seek? result = match result n with
      | some a => some (a, q)
      | none => q.seek? result := by
  rw [seek?]
  split
  · simp_all
  · next m r hr =>
    obtain ⟨rfl, rfl⟩ : n = m ∧ q = r := by simpa using h.symm.trans hr
    rfl

theorem filterMap_of_seek_none {α : Type} {result : Node → Option α} {p : Preorder}
    (h : p.seek? result = none) : p.toList.filterMap result = [] := by
  fun_induction seek? result p with
  | case1 p hp => simp [toList_of_next_none hp]
  | case2 p n q hp a ha => simp at h
  | case3 p n q hp ha ih => simp [toList_of_next hp, ha, ih h]

/-- The walk behind a search holds the later results, and only those. -/
theorem filterMap_of_seek {α : Type} {result : Node → Option α} {p q : Preorder} {a : α}
    (h : p.seek? result = some (a, q)) :
    p.toList.filterMap result = a :: q.toList.filterMap result := by
  -- nodes without a result drop out on both sides
  fun_induction seek? result p with
  | case1 p hp => simp at h
  | case2 p n r hp b hb =>
    simp only [Option.some.injEq, Prod.mk.injEq] at h
    obtain ⟨rfl, rfl⟩ := h
    simp [toList_of_next hp, hb]
  | case3 p n r hp hb ih => simp [toList_of_next hp, hb, ih h]

end Preorder

@[simp] theorem preorder_nil : preorder [] = [] :=
  Preorder.toList_nil

theorem preorder_append (xs ys : List Node) :
    preorder (xs ++ ys) = preorder xs ++ preorder ys :=
  Preorder.toList_append xs ys

@[simp] theorem preorder_cons (n : Node) (rest : List Node) :
    preorder (n :: rest) = n :: (preorder n.children ++ preorder rest) := by
  rw [← preorder_append]
  exact Preorder.toList_cons n rest

theorem mem_preorder_of_mem {roots : List Node} {n : Node} (h : n ∈ roots) :
    n ∈ preorder roots := by
  induction roots with
  | nil => simp at h
  | cons m roots ih =>
    rw [preorder_cons, List.mem_cons, List.mem_append]
    rcases List.mem_cons.mp h with rfl | h
    · exact .inl rfl
    · exact .inr (.inr (ih h))

theorem preorder_induction {P : List Node → Prop} (hnil : P [])
    (hcons : ∀ n rest, P n.children → P rest → P (n :: rest)) (roots : List Node) : P roots := by
  induction hw : weight roots using Nat.strongRecOn generalizing roots with
  | ind w ih =>
    cases roots with
    | nil => exact hnil
    | cons n rest =>
      have hweight := weight_cons n rest
      have hlight := weight_children_lt n
      exact hcons n rest (ih _ (by omega) n.children rfl) (ih _ (by omega) rest rfl)

theorem mem_preorder_of_parent {roots : List Node} {n parent : Node}
    (hparent : parent ∈ preorder roots) (hn : n ∈ parent.children) : n ∈ preorder roots := by
  induction roots using preorder_induction with
  | hnil => simp at hparent
  | hcons m rest ihbelow ihrest =>
    rw [preorder_cons, List.mem_cons, List.mem_append] at hparent ⊢
    rcases hparent with rfl | hbelow | hrest
    · exact .inr (.inl (mem_preorder_of_mem hn))
    · exact .inr (.inl (ihbelow hbelow))
    · exact .inr (.inr (ihrest hrest))

theorem mem_preorder_of_child {roots : List Node} {d n : Node} (hd : d ∈ roots)
    (hn : n ∈ d.children) : n ∈ preorder roots :=
  mem_preorder_of_parent (mem_preorder_of_mem hd) hn

/-- A node stands in a forest as a root, or as a child of a node that stands there. -/
inductive StandsIn (roots : List Node) : Node → Prop where
  | root {n : Node} : n ∈ roots → StandsIn roots n
  | child {n parent : Node} : StandsIn roots parent → n ∈ parent.children → StandsIn roots n

theorem StandsIn.of_children {roots : List Node} {n parent : Node} (hparent : parent ∈ roots)
    (h : StandsIn parent.children n) : StandsIn roots n := by
  induction h with
  | root hn => exact .child (.root hparent) hn
  | child _ hn ih => exact .child ih hn

theorem StandsIn.mono {roots others : List Node} {n : Node} (hsub : roots ⊆ others)
    (h : StandsIn roots n) : StandsIn others n := by
  induction h with
  | root hn => exact .root (hsub hn)
  | child _ hn ih => exact .child ih hn

theorem mem_preorder_iff {roots : List Node} {n : Node} :
    n ∈ preorder roots ↔ StandsIn roots n := by
  constructor
  · intro h
    induction roots using preorder_induction with
    | hnil => simp at h
    | hcons m rest ihbelow ihrest =>
      rw [preorder_cons, List.mem_cons, List.mem_append] at h
      rcases h with rfl | hbelow | hrest
      · exact .root List.mem_cons_self
      · exact .of_children List.mem_cons_self (ihbelow hbelow)
      · exact (ihrest hrest).mono (List.subset_cons_self m rest)
  · intro h
    induction h with
    | root hn => exact mem_preorder_of_mem hn
    | child _ hn ih => exact mem_preorder_of_parent ih hn

theorem forest_eq_flatMap (contracts : List Contract) :
    forest contracts = contracts.flatMap fun c => preorder c.declarations := by
  induction contracts with
  | nil => exact preorder_nil
  | cons c contracts ih =>
    rw [List.flatMap_cons, ← ih]
    exact preorder_append c.declarations (declarations contracts)

theorem forest_append (xs ys : List Contract) : forest (xs ++ ys) = forest xs ++ forest ys := by
  simp only [forest_eq_flatMap, List.flatMap_append]

theorem mem_forest {contracts : List Contract} {n : Node} :
    n ∈ forest contracts ↔ ∃ c ∈ contracts, n ∈ preorder c.declarations := by
  rw [forest_eq_flatMap, List.mem_flatMap]

end ContractDocs
