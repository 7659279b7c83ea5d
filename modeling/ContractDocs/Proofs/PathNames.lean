import ContractDocs.Path
import ContractDocs.Proofs.Texts

/-! Names, the pieces of a path that ends in one, and the names that paths have. -/

namespace ContractDocs

namespace Path

/-- A text that names an entry of a directory. -/
structure IsName (name : String) : Prop where
  ne_empty : name ≠ ""
  ne_dot : name ≠ "."
  ne_up : name ≠ ".."
  slashless : '/' ∉ name.toList

instance (name : String) : Decidable (IsName name) :=
  decidable_of_iff (name ≠ "" ∧ name ≠ "." ∧ name ≠ ".." ∧ '/' ∉ name.toList)
    ⟨fun ⟨hempty, hdot, hup, hslash⟩ => ⟨hempty, hdot, hup, hslash⟩,
      fun h => ⟨h.ne_empty, h.ne_dot, h.ne_up, h.slashless⟩⟩

theorem isAbsolute_of_slashless {text : String} (h : '/' ∉ text.toList) :
    (Path.mk text).isAbsolute = false := by
  simp only [isAbsolute, beq_eq_false_iff_ne]
  exact fun hhead => h (List.mem_of_mem_head? hhead)

theorem pieces_slash (a b : String) :
    (Path.mk (a ++ "/" ++ b)).pieces = (Path.mk a).pieces ++ (Path.mk b).pieces := by
  simp [pieces, Text.pieces_append]

theorem IsName.pieces {name : String} (h : IsName name) : (Path.mk name).pieces = [name] := by
  have hlist : name.toList ≠ [] := by simpa using h.ne_empty
  simp [Path.pieces, Text.pieces_of_notMem h.slashless, hlist]

/-- Something relative stands alone, or behind a slash and what the slash leaves as it is. -/
theorem join_cases (p : Path) {q : Path} (hq : q.isAbsolute = false) :
    p.text = "" ∧ p.join q = q ∨ ∃ before, p.join q = ⟨before ++ "/" ++ q.text⟩ ∧
      (Path.mk before).pieces = p.pieces ∧ (Path.mk (before ++ "/")).isAbsolute = p.isAbsolute := by
  obtain ⟨text⟩ := p
  by_cases hempty : text = ""
  · left
    simp [join, hq, hempty]
  · right
    by_cases hend : (Path.mk text).endsInSlash = true
    · have hlast : text.toList.getLast? = some '/' := by simpa [endsInSlash] using hend
      obtain ⟨cs, hcs⟩ := List.getLast?_eq_some_iff.mp hlast
      obtain rfl : text = String.ofList cs ++ "/" := by
        rw [← String.toList_inj, hcs]
        simp
      refine ⟨String.ofList cs, by simp [join, hq, hend], ?_, rfl⟩
      have hpieces := pieces_slash (String.ofList cs) ""
      rw [String.append_empty] at hpieces
      rw [hpieces]
      simp [pieces, Text.pieces]
    · refine ⟨text, by simp [join, hq, hend, hempty], rfl, ?_⟩
      have hlist : text.toList ≠ [] := by simpa using hempty
      simp [isAbsolute, List.head?_append_of_ne_nil _ hlist]

/-- A name is the last piece of the path it is joined to. -/
theorem IsName.join {name : String} (h : IsName name) (out : Path) :
    (out.join ⟨name⟩).pieces = out.pieces ++ [name] ∧ (out.join ⟨name⟩).endsInSlash = false ∧
      (out.join ⟨name⟩).isAbsolute = out.isAbsolute := by
  have hlist : name.toList ≠ [] := by simpa using h.ne_empty
  have hrelative := isAbsolute_of_slashless h.slashless
  have hlast (before : String) : (Path.mk (before ++ name)).endsInSlash = false := by
    simp only [endsInSlash, String.toList_append, beq_eq_false_iff_ne]
    rw [List.getLast?_append_of_ne_nil _ hlist]
    exact fun hmem => h.slashless (List.mem_of_getLast? hmem)
  rcases out.join_cases hrelative with ⟨hempty, hjoin⟩ | ⟨before, hjoin, hpieces, habsolute⟩
  · obtain ⟨text⟩ := out
    subst hempty
    rw [hjoin, h.pieces, hrelative]
    exact ⟨rfl, by simpa using hlast "", rfl⟩
  · rw [hjoin, pieces_slash, hpieces, h.pieces, ← habsolute]
    exact ⟨rfl, hlast _, by simp [isAbsolute]⟩

theorem isName_md_iff {text : String} : IsName (text ++ ".md") ↔ '/' ∉ text.toList where
  mp h hslash := h.slashless (by simp [hslash])
  mpr h := {
    ne_empty := by simp
    ne_dot h := by simpa using congrArg (·.toList.length) h
    ne_up h := by simpa using congrArg (·.toList.length) h
    slashless := by simp [h] }

theorem slashless_of_mem_pieces {p : Path} {piece : String} (h : piece ∈ p.pieces) :
    '/' ∉ piece.toList := by
  obtain ⟨cs, hcs, rfl⟩ := List.mem_map.mp h
  rw [String.toList_ofList]
  exact fun hslash => (Text.mem_of_mem_pieces (List.mem_of_mem_filter hcs) hslash).2 rfl

theorem mem_pieces_of_name {p : Path} {n : String} (h : .name n ∈ p.components) :
    n ∈ p.pieces := by
  have hnamed (pieces : List String)
      (h : .name n ∈ (pieces.filter (· ≠ ".")).map componentOf) : n ∈ pieces := by
    obtain ⟨piece, hpiece, heq⟩ := List.mem_map.mp h
    unfold componentOf at heq
    split at heq
    · cases heq
    · cases heq
      exact List.mem_of_mem_filter hpiece
  unfold components at h
  split at h
  · exact hnamed _ (by simpa using h)
  · split at h
    · rename_i more hpieces
      rw [hpieces]
      exact List.mem_cons_of_mem _ (hnamed _ (by simpa using h))
    · exact hnamed _ h

theorem slashless_splitName {name : String} (h : '/' ∉ name.toList) :
    '/' ∉ (splitName name).1.toList := by
  unfold splitName
  split
  · exact h
  · split
    · rename_i last before more hpieces
      dsimp only
      split
      · exact h
      · intro hslash
        rcases Text.mem_of_mem_intercalate hslash with hdot | ⟨part, hpart, hc⟩
        · simp at hdot
        · obtain ⟨piece, hpiece, rfl⟩ := List.mem_map.mp hpart
          have hmem : piece ∈ Text.pieces '.' name.toList := by
            rw [← List.mem_reverse, hpieces]
            exact List.mem_cons_of_mem _ (List.mem_reverse.mp hpiece)
          rw [String.toList_ofList] at hc
          exact h (Text.mem_of_mem_pieces hmem hc).1
    · exact h

theorem slashless_stem {p : Path} {stem : String} (h : p.stem? = some stem) :
    '/' ∉ stem.toList := by
  obtain ⟨n, hn, rfl⟩ := Option.map_eq_some_iff.mp h
  unfold fileName? at hn
  split at hn
  · rename_i n' hlast
    cases hn
    exact slashless_splitName (slashless_of_mem_pieces
      (mem_pieces_of_name (List.mem_of_getLast? hlast)))
  · cases hn

end Path

end ContractDocs
