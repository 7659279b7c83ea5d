import ContractDocs.Proofs.Preorder
import Mathlib.Data.List.Lex

/-! The order of a depth-first walk. A node of a forest has an address for each place it stands at:
the position of a root, then the positions of children down to the node. The walk goes through
the trees on its stack as a recursion over each of them would, and through all addresses in the
order of a dictionary. -/

namespace ContractDocs

namespace Node

def plainChildren (n : Node) : List Node :=
  n.nodes.getD []

def bodyChildren (n : Node) : List Node :=
  (n.body.bind (·.nodes)).getD []

theorem children_eq (n : Node) : n.children = n.plainChildren ++ n.bodyChildren := rfl

/-- A tree by recursion: the node, then the trees of its plain children, then those of its body's
children. -/
def inOrder (n : Node) : List Node :=
  n :: (n.plainChildren.attach.flatMap (fun c => inOrder c.1) ++
    n.bodyChildren.attach.flatMap fun c => inOrder c.1)
termination_by sizeOf n
decreasing_by
  · exact sizeOf_lt_of_mem_children (List.mem_append_left _ c.2)
  · exact sizeOf_lt_of_mem_children (List.mem_append_right _ c.2)

theorem inOrder_eq (n : Node) : n.inOrder =
    n :: (n.plainChildren.flatMap inOrder ++ n.bodyChildren.flatMap inOrder) := by
  rw [inOrder]
  simp

end Node

theorem preorder_eq_flatMap (roots : List Node) : preorder roots = roots.flatMap Node.inOrder := by
  induction roots using preorder_induction with
  | hnil => exact preorder_nil
  | hcons n rest ihbelow ihrest =>
    rw [preorder_cons, ihbelow, ihrest, List.flatMap_cons, Node.inOrder_eq, Node.children_eq,
      List.flatMap_append, List.cons_append]

theorem Preorder.givesAll_toList (p : Preorder) : GivesAll next? p p.toList := by
  fun_induction toList p with
  | case1 p hp => exact .done hp
  | case2 p n q hp ih => exact .more hp ih

/-- The node at an address, if there is one. -/
def nodeAt? : List Node → List Nat → Option Node
  | _, [] => none
  | nodes, [i] => nodes[i]?
  | nodes, i :: j :: below => nodes[i]?.bind fun n => nodeAt? n.children (j :: below)

@[simp] theorem nodeAt?_root (roots : List Node) : nodeAt? roots [] = none := by
  simp [nodeAt?]

@[simp] theorem nodeAt?_nil (a : List Nat) : nodeAt? [] a = none := by
  match a with
  | [] => rfl
  | [_] => rfl
  | _ :: _ :: _ => rfl

theorem ne_nil_of_nodeAt? {roots : List Node} {a : List Nat} {n : Node}
    (h : nodeAt? roots a = some n) : a ≠ [] := by
  rintro rfl
  simp at h

/-- An address is that of the first root, leads below it, or belongs to the later roots. -/
theorem nodeAt?_cons_eq_some {n m : Node} {rest : List Node} {a : List Nat} :
    nodeAt? (n :: rest) a = some m ↔ a = [0] ∧ n = m ∨
      (∃ b, nodeAt? n.children b = some m ∧ 0 :: b = a) ∨
      ∃ b, nodeAt? rest b = some m ∧ b.modifyHead (· + 1) = a := by
  match a with
  | [] => simp +contextual
  | 0 :: below =>
    have hlater (b : List Nat) (hb : nodeAt? rest b = some m) :
        b.modifyHead (· + 1) ≠ 0 :: below := by
      obtain ⟨i, c, rfl⟩ := List.exists_cons_of_ne_nil (ne_nil_of_nodeAt? hb)
      simp
    cases below <;> simp +contextual [nodeAt?, hlater]
  | (i + 1) :: below =>
    have hlater (b : List Nat) : b.modifyHead (· + 1) = (i + 1) :: below ↔ b = i :: below := by
      cases b <;> simp
    cases below <;> simp [nodeAt?, hlater]

/-- The nodes at the addresses that are `within`, one for each address and in the given order. -/
def ListsNodes (roots : List Node) (within : List Nat → Prop)
    (before : List Nat → List Nat → Prop) (nodes : List Node) : Prop :=
  ∃ places : List (List Nat × Node), nodes = places.map (·.2) ∧
    places.Pairwise (fun x y => before x.1 y.1) ∧
    ∀ a n, (a, n) ∈ places ↔ within a ∧ nodeAt? roots a = some n

theorem lex_modifyHead {a b : List Nat} (h : List.Lex (· < ·) a b) (ha : a ≠ []) :
    List.Lex (· < ·) (a.modifyHead (· + 1)) (b.modifyHead (· + 1)) := by
  cases h with
  | nil => contradiction
  | cons h => exact .cons h
  | rel h => exact .rel (Nat.succ_lt_succ h)

theorem lex_zero_modifyHead (a : List Nat) {b : List Nat} (hb : b ≠ []) :
    List.Lex (· < ·) (0 :: a) (b.modifyHead (· + 1)) := by
  obtain ⟨i, c, rfl⟩ := List.exists_cons_of_ne_nil hb
  exact .rel (Nat.succ_pos i)

theorem listsNodes_preorder (roots : List Node) :
    ListsNodes roots (fun _ => True) (List.Lex (· < ·)) (preorder roots) := by
  induction roots using preorder_induction with
  | hnil => exact ⟨[], by simp⟩
  | hcons n rest ihbelow ihrest =>
    obtain ⟨below, hbelow, horder, hmem⟩ := ihbelow
    obtain ⟨later, hlater, horder', hmem'⟩ := ihrest
    have hne (x : List Nat × Node) (hx : x ∈ later) : x.1 ≠ [] :=
      ne_nil_of_nodeAt? ((hmem' x.1 x.2).mp hx).2
    refine ⟨([0], n) :: (below.map (fun x => (0 :: x.1, x.2)) ++
      later.map fun x => (x.1.modifyHead (· + 1), x.2)), ?_, ?_, fun a m => ?_⟩
    · simp [hbelow, hlater, Function.comp_def]
    · simp only [List.pairwise_cons, List.pairwise_append, List.pairwise_map, List.mem_append,
        List.mem_map]
      refine ⟨?_, horder.imp .cons, ?_, ?_⟩
      -- the address of the first root is the beginning of all addresses below it
      · rintro _ (⟨x, hx, rfl⟩ | ⟨x, hx, rfl⟩)
        · obtain ⟨j, a, ha⟩ :=
            List.exists_cons_of_ne_nil (ne_nil_of_nodeAt? ((hmem x.1 x.2).mp hx).2)
          rw [ha]
          exact .cons .nil
        · exact lex_zero_modifyHead [] (hne x hx)
      · exact horder'.imp_of_mem fun hx _ h => lex_modifyHead h (hne _ hx)
      · rintro _ ⟨x, hx, rfl⟩ _ ⟨y, hy, rfl⟩
        exact lex_zero_modifyHead x.1 (hne y hy)
    · rw [nodeAt?_cons_eq_some]
      simp [hmem, hmem', eq_comm]

/-- From any stack a walk comes to its end and has gone through the stacked trees by recursion. A
new walk gives the nodes at all addresses of the forest, each once, where an address comes before
all that are longer by something and before those of later siblings. -/
theorem Preorder.visits_in_document_order :
    (∀ p : Preorder, GivesAll next? p (p.stack.flatMap Node.inOrder)) ∧
    (∀ roots : List Node, ∃ nodes, GivesAll next? (Preorder.mk roots) nodes ∧
      ListsNodes roots (fun _ => True) (List.Lex (· < ·)) nodes) ∧
    ∀ contracts : List Contract, preorder (declarations contracts) =
      contracts.flatMap fun c => preorder c.declarations := by
  refine ⟨fun p => ?_, fun roots => ?_, forest_eq_flatMap⟩
  · rw [← preorder_eq_flatMap]
    exact p.givesAll_toList
  · exact ⟨preorder roots, givesAll_toList _, listsNodes_preorder roots⟩

end ContractDocs
