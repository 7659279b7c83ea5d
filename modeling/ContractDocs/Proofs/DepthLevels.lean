import ContractDocs.Proofs.DocumentOrder
import ContractDocs.Proofs.Levels
import Mathlib.Data.List.Nodup
import Mathlib.Data.List.Shortlex

/-! The order of a walk by levels. It gives the roots, then all their children, and so on down to a
depth: the nodes of a forest in the order of their addresses, where a shorter address always comes
before a longer one. Deep enough, it gives the nodes of a depth-first walk in another order. -/

namespace ContractDocs

/-- The nodes at a depth: the roots, or the children of the nodes that are one step higher. -/
def nodesAtDepth (roots : List Node) : Nat → List Node
  | 0 => roots
  | depth + 1 => (nodesAtDepth roots depth).flatMap Node.children

/-- The nodes of all depths up to the given one. -/
def nodesDownTo (roots : List Node) (depth : Nat) : List Node :=
  (List.range (depth + 1)).flatMap (nodesAtDepth roots)

/-- The depth of the deepest nodes. -/
def forestHeight : List Node → Nat
  | [] => 0
  | n :: rest =>
    max (if n.hasChildren then forestHeight n.children + 1 else 0) (forestHeight rest)
termination_by nodes => weight nodes
decreasing_by
  all_goals
    have hn : weight n.children < sizeOf n := weight_children_lt n
    rw [weight_cons]
    omega

namespace Levels

theorem givesAll_toList (l : Levels) : GivesAll next? l l.toList := by
  fun_induction toList l with
  | case1 l hl => exact .done hl
  | case2 l n m hl ih => exact .more hl ih

/-- Once a level is reached, the walk goes through it and through all levels below. -/
theorem toList_from (roots : List Node) {depth maxDepth : Nat} (h : depth ≤ maxDepth) :
    (Levels.mk ((nodesAtDepth roots depth).map (·, depth)) maxDepth).toList =
      (List.range' depth (maxDepth + 1 - depth)).flatMap (nodesAtDepth roots) := by
  induction hleft : maxDepth - depth generalizing depth with
  | zero =>
    have hlevel := toList_level (nodesAtDepth roots depth) [] depth maxDepth
    have hlast : maxDepth = depth := by omega
    subst hlast
    simpa using hlevel
  | succ left ih =>
    have hlevel := toList_level (nodesAtDepth roots depth) [] depth maxDepth
    have hlt : depth < maxDepth := by omega
    have hmore : maxDepth + 1 - depth = (maxDepth + 1 - (depth + 1)) + 1 := by omega
    have hbelow := @ih (depth + 1) hlt (by omega)
    rw [hmore, List.range'_succ, List.flatMap_cons, ← hbelow]
    simpa [hlt, nodesAtDepth] using hlevel

theorem toList_ofRoots (roots : List Node) (depth : Nat) :
    (ofRoots depth roots).toList = nodesDownTo roots depth := by
  rw [nodesDownTo, List.range_eq_range']
  exact toList_from roots (Nat.zero_le depth)

end Levels

theorem nodeAt?_concat (roots : List Node) {a : List Nat} (ha : a ≠ []) (i : Nat) :
    nodeAt? roots (a ++ [i]) = (nodeAt? roots a).bind (·.children[i]?) := by
  induction a generalizing roots with
  | nil => contradiction
  | cons j a ih =>
    cases a with
    | nil => rfl
    | cons k a =>
      simp only [List.cons_append, nodeAt?, Option.bind_assoc] at ih ⊢
      congr 1
      funext n
      exact ih n.children (List.cons_ne_nil k a)

theorem lex_concat {a b : List Nat} (h : List.Lex (· < ·) a b) (hlength : a.length = b.length)
    (i j : Nat) : List.Lex (· < ·) (a ++ [i]) (b ++ [j]) := by
  induction h with
  | nil => simp at hlength
  | cons _ ih => exact .cons (ih (Nat.succ.inj hlength))
  | rel h => exact .rel h

theorem pairwise_zipIdx {α : Type} (xs : List α) : xs.zipIdx.Pairwise fun x y => x.2 < y.2 := by
  rw [← List.pairwise_map (f := Prod.snd) (R := (· < ·)), List.zipIdx_map_snd]
  exact List.pairwise_lt_range'

theorem listsNodes_nodesAtDepth (roots : List Node) (depth : Nat) :
    ListsNodes roots (·.length = depth + 1) (List.Lex (· < ·)) (nodesAtDepth roots depth) := by
  induction depth with
  | zero =>
    refine ⟨roots.zipIdx.map fun x => ([x.2], x.1), ?_, ?_, fun a n => ?_⟩
    · simp [nodesAtDepth, Function.comp_def]
    · rw [List.pairwise_map]
      exact (pairwise_zipIdx roots).imp .rel
    · simp only [List.mem_map, Prod.mk.injEq, List.mem_zipIdx_iff_getElem?]
      constructor
      · rintro ⟨x, hx, rfl, rfl⟩
        exact ⟨rfl, hx⟩
      · rintro ⟨hlength, hn⟩
        obtain ⟨i, rfl⟩ := List.length_eq_one_iff.mp hlength
        exact ⟨(n, i), hn, rfl, rfl⟩
  | succ depth ih =>
    obtain ⟨places, hnodes, horder, hmem⟩ := ih
    have hlength (x : List Nat × Node) (hx : x ∈ places) : x.1.length = depth + 1 :=
      ((hmem x.1 x.2).mp hx).1
    refine ⟨places.flatMap fun x => x.2.children.zipIdx.map fun y => (x.1 ++ [y.2], y.1),
      ?_, ?_, fun a n => ?_⟩
    · simp [nodesAtDepth, hnodes, List.flatMap_map, List.map_flatMap, Function.comp_def]
    · rw [List.pairwise_flatMap]
      constructor
      · intro x _
        rw [List.pairwise_map]
        exact (pairwise_zipIdx x.2.children).imp fun h => .append_left _ (.rel h) x.1
      · refine horder.imp_of_mem fun {x y} hx hy h => ?_
        simp only [List.mem_map]
        rintro _ ⟨v, _, rfl⟩ _ ⟨w, _, rfl⟩
        exact lex_concat h ((hlength x hx).trans (hlength y hy).symm) v.2 w.2
    · simp only [List.mem_flatMap, List.mem_map, Prod.mk.injEq, List.mem_zipIdx_iff_getElem?]
      constructor
      · rintro ⟨x, hx, y, hy, rfl, rfl⟩
        have hnode := ((hmem x.1 x.2).mp hx).2
        refine ⟨by simp [hlength x hx], ?_⟩
        rw [nodeAt?_concat roots (ne_nil_of_nodeAt? hnode), hnode]
        exact hy
      · rintro ⟨hdepth, hn⟩
        rcases List.eq_nil_or_concat' a with rfl | ⟨b, i, rfl⟩
        · simp at hn
        · have hb : b.length = depth + 1 := by simpa using hdepth
          rw [nodeAt?_concat roots (List.ne_nil_of_length_eq_add_one hb)] at hn
          obtain ⟨m, hm, hi⟩ := Option.bind_eq_some_iff.mp hn
          exact ⟨(b, m), (hmem b m).mpr ⟨hb, hm⟩, (n, i), hi, rfl, rfl⟩

theorem listsNodes_nodesDownTo (roots : List Node) (depth : Nat) :
    ListsNodes roots (·.length ≤ depth + 1) (List.Shortlex (· < ·)) (nodesDownTo roots depth) := by
  choose places hnodes horder hmem using listsNodes_nodesAtDepth roots
  have hlength (k : Nat) (x : List Nat × Node) (hx : x ∈ places k) : x.1.length = k + 1 :=
    ((hmem k x.1 x.2).mp hx).1
  refine ⟨(List.range (depth + 1)).flatMap places, ?_, ?_, fun a n => ?_⟩
  · rw [nodesDownTo, funext hnodes, List.map_flatMap]
  · rw [List.pairwise_flatMap]
    constructor
    · intro k _
      refine (horder k).imp_of_mem fun {x y} hx hy h => ?_
      exact .of_lex ((hlength k x hx).trans (hlength k y hy).symm) h
    · refine List.pairwise_lt_range.imp fun {i j} hij x hx y hy => .of_length_lt ?_
      have hx' := hlength i x hx
      have hy' := hlength j y hy
      omega
  · simp only [List.mem_flatMap, List.mem_range, hmem]
    constructor
    · rintro ⟨k, hk, hlen, hn⟩
      exact ⟨by omega, hn⟩
    · rintro ⟨hlen, hn⟩
      have hpos := List.length_pos_of_ne_nil (ne_nil_of_nodeAt? hn)
      exact ⟨a.length - 1, by omega, by omega, hn⟩

theorem ListsNodes.perm {roots : List Node} {within within' : List Nat → Prop}
    {before before' : List Nat → List Nat → Prop} [Std.Irrefl before] [Std.Irrefl before']
    {nodes nodes' : List Node} (h : ListsNodes roots within before nodes)
    (h' : ListsNodes roots within' before' nodes')
    (hsame : ∀ a n, nodeAt? roots a = some n → (within a ↔ within' a)) : nodes.Perm nodes' := by
  obtain ⟨places, rfl, horder, hmem⟩ := h
  obtain ⟨places', rfl, horder', hmem'⟩ := h'
  have hnodup : places.Nodup := (List.pairwise_map.mpr horder).nodup.of_map _
  have hnodup' : places'.Nodup := (List.pairwise_map.mpr horder').nodup.of_map _
  refine List.Perm.map _ ((List.perm_ext_iff_of_nodup hnodup hnodup').mpr fun x => ?_)
  rw [hmem x.1 x.2, hmem' x.1 x.2]
  exact and_congr_left (hsame x.1 x.2)

theorem length_le_of_nodeAt? {roots : List Node} {a : List Nat} {n : Node}
    (h : nodeAt? roots a = some n) : a.length ≤ forestHeight roots + 1 := by
  induction roots using preorder_induction generalizing a with
  | hnil => simp at h
  | hcons m rest ihbelow ihrest =>
    rw [forestHeight]
    rcases nodeAt?_cons_eq_some.mp h with ⟨rfl, -⟩ | ⟨b, hb, rfl⟩ | ⟨b, hb, rfl⟩
    · simp
    · have hchildren : m.hasChildren = true := by
        cases hnil : m.children with
        | nil => simp [hnil] at hb
        | cons c cs => simp [Node.hasChildren, hnil]
      have := ihbelow hb
      simp only [hchildren, if_true, List.length_cons]
      omega
    · have := ihrest hb
      rw [List.length_modifyHead]
      omega

theorem nodesDownTo_perm_preorder {roots : List Node} {depth : Nat}
    (h : forestHeight roots ≤ depth) : (nodesDownTo roots depth).Perm (preorder roots) := by
  refine (listsNodes_nodesDownTo roots depth).perm (listsNodes_preorder roots) fun a n hn => ?_
  have hlength := length_le_of_nodeAt? hn
  exact iff_of_true (by omega) trivial

/-- A walk by levels gives one level after the other and nothing below its depth, so each address
that is short enough gives its node once. What is looked for among declarations is therefore found
on the top level before it is looked for inside the definitions. -/
theorem Levels.visits_level_by_level (roots : List Node) (depth : Nat) :
    (∃ nodes, GivesAll next? (ofRoots depth roots) nodes ∧
      nodes = (List.range (depth + 1)).flatMap (nodesAtDepth roots) ∧
      ListsNodes roots (·.length ≤ depth + 1) (List.Shortlex (· < ·)) nodes ∧
      (forestHeight roots ≤ depth → nodes.Perm (preorder roots))) ∧
    ∀ (c : Contract) (p : Node → Bool),
      c.declarationWhere? p =
        (c.declarations.find? p).or ((c.declarations.flatMap Node.children).find? p) ∧
      c.declarationsWhere p =
        c.declarations.filter p ++ (c.declarations.flatMap Node.children).filter p := by
  constructor
  · have hgives := (ofRoots depth roots).givesAll_toList
    rw [toList_ofRoots] at hgives
    exact ⟨_, hgives, rfl, listsNodes_nodesDownTo roots depth, nodesDownTo_perm_preorder⟩
  · intro c p
    rw [Contract.declarationWhere?, Contract.declarationsWhere, Contract.nearDeclarations_eq,
      List.filter_append, List.find?_append]
    exact ⟨rfl, rfl⟩

/-- A definition with a function that has a statement in its body, and a second definition. -/
def statementBelow : List Node := [
  { id := some 1
    nodes := some [
      { id := some 2, body := some { nodes := some [{ id := some 3 }] } },
      { id := some 4 }] },
  { id := some 5 }]

theorem visits_level_by_level_statementBelow :
    forestHeight statementBelow = 2 ∧ ∃ nodes,
      GivesAll Levels.next? (Levels.ofRoots 2 statementBelow) nodes ∧
      nodes.map (·.id) = [some 1, some 5, some 2, some 4, some 3] ∧
      nodes.Perm (preorder statementBelow) := by
  have hheight : forestHeight statementBelow = 2 := by
    simp [forestHeight, statementBelow, Node.children, Node.hasChildren]
  obtain ⟨nodes, hgives, hnodes, -, hperm⟩ := (Levels.visits_level_by_level statementBelow 2).1
  refine ⟨hheight, nodes, hgives, ?_, hperm hheight.le⟩
  rw [hnodes]
  rfl

end ContractDocs
