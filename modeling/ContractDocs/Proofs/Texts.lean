import ContractDocs.Text.Lines
import ContractDocs.Text.Replace
import Mathlib.Data.List.Basic
import Mathlib.Data.List.Infix

/-! Texts that are cut into pieces, put together from parts, and searched for a piece. -/

namespace ContractDocs.Text

theorem pieces_ne_nil (separator : Char) (cs : List Char) : pieces separator cs ≠ [] := by
  fun_cases pieces separator cs <;> simp

theorem pieces_append (separator : Char) (a b : List Char) :
    pieces separator (a ++ separator :: b) = pieces separator a ++ pieces separator b := by
  induction a with
  | nil => simp [pieces]
  | cons c a ih =>
    by_cases hc : c = separator
    · simp [pieces, hc, ih]
    · simp only [List.cons_append, pieces, hc, if_false, ih]
      obtain ⟨first, more, hfirst⟩ := List.exists_cons_of_ne_nil (pieces_ne_nil separator a)
      rw [hfirst]
      rfl

theorem pieces_of_notMem {separator : Char} {cs : List Char} (h : separator ∉ cs) :
    pieces separator cs = [cs] := by
  induction cs with
  | nil => rfl
  | cons c cs ih =>
    simp only [List.mem_cons, not_or] at h
    simp [pieces, Ne.symm h.1, ih h.2]

theorem mem_of_mem_pieces {separator c : Char} {cs piece : List Char}
    (h : piece ∈ pieces separator cs) (hc : c ∈ piece) : c ∈ cs ∧ c ≠ separator := by
  induction cs generalizing piece with
  | nil =>
    obtain rfl : piece = [] := by simpa [pieces] using h
    cases hc
  | cons d cs ih =>
    obtain ⟨first, more, hfirst⟩ := List.exists_cons_of_ne_nil (pieces_ne_nil separator cs)
    have hmore (hpiece : piece ∈ pieces separator cs) : c ∈ d :: cs ∧ c ≠ separator :=
      (ih hpiece hc).imp_left (List.mem_cons_of_mem d)
    by_cases hd : d = separator
    · simp only [pieces, hd, if_true, List.mem_cons] at h
      rcases h with rfl | h
      · cases hc
      · exact hmore h
    · simp only [pieces, hd, if_false, hfirst, List.mem_cons] at h
      rcases h with rfl | h
      · rcases List.mem_cons.mp hc with rfl | hc
        · exact ⟨List.mem_cons_self, hd⟩
        · exact (ih (hfirst ▸ List.mem_cons_self) hc).imp_left (List.mem_cons_of_mem d)
      · exact hmore (hfirst ▸ List.mem_cons_of_mem _ h)

theorem mem_of_mem_intercalate {separator : String} {parts : List String} {c : Char}
    (h : c ∈ (separator.intercalate parts).toList) :
    c ∈ separator.toList ∨ ∃ part ∈ parts, c ∈ part.toList := by
  induction parts with
  | nil => simp at h
  | cons first parts ih =>
    cases parts with
    | nil => exact .inr ⟨first, by simp, by simpa using h⟩
    | cons second more =>
      rw [String.intercalate_cons_cons] at h
      simp only [String.toList_append, List.mem_append] at h
      rcases h with (hfirst | hseparator) | hmore
      · exact .inr ⟨first, List.mem_cons_self, hfirst⟩
      · exact .inl hseparator
      · exact (ih hmore).imp_right fun ⟨part, hpart, hc⟩ => ⟨part, List.mem_cons_of_mem _ hpart, hc⟩

/-- `piece` stands somewhere in `text`. -/
def Holds (text piece : String) : Prop :=
  ∃ before after, text = before ++ piece ++ after

theorem holds_iff {text piece : String} : Holds text piece ↔ piece.toList <:+: text.toList := by
  constructor
  · rintro ⟨before, after, rfl⟩
    exact ⟨before.toList, after.toList, by simp⟩
  · rintro ⟨before, after, heq⟩
    refine ⟨String.ofList before, String.ofList after, ?_⟩
    rw [← String.toList_inj, ← heq]
    simp

theorem occursIn_iff {piece text : List Char} : occursIn piece text = true ↔ piece <:+: text := by
  induction text with
  | nil => simp [occursIn]
  | cons c rest ih =>
    rw [occursIn, Bool.or_eq_true, List.isPrefixOf_iff_prefix, ih, List.infix_cons_iff]

theorem contains_iff {text piece : String} : contains text piece = true ↔ Holds text piece := by
  rw [contains, occursIn_iff, holds_iff]

theorem Holds.append {text piece : String} (h : Holds text piece) (front back : String) :
    Holds (front ++ text ++ back) piece := by
  obtain ⟨before, after, rfl⟩ := h
  exact ⟨front ++ before, after ++ back, by simp only [String.append_assoc]⟩

theorem exists_first_place {piece text : List Char} (hne : piece ≠ []) (h : piece <:+: text) :
    ∃ before after, text = before ++ (piece ++ after) ∧ ¬ piece <:+: before := by
  induction text with
  | nil => exact absurd (List.eq_nil_of_infix_nil h) hne
  | cons c rest ih =>
    by_cases hhere : piece <+: c :: rest
    · obtain ⟨after, heq⟩ := hhere
      exact ⟨[], after, heq.symm, fun hnil => hne (List.eq_nil_of_infix_nil hnil)⟩
    · obtain ⟨before, after, rfl, hbefore⟩ := ih ((List.infix_cons_iff.mp h).resolve_left hhere)
      refine ⟨c :: before, after, rfl, fun hinfix => ?_⟩
      rcases List.infix_cons_iff.mp hinfix with hpre | hinner
      · exact hhere (hpre.trans (List.prefix_append (c :: before) _))
      · exact hbefore hinner

theorem replaceFrom_of_not_infix {piece text : List Char} (value : List Char)
    (h : ¬ piece <:+: text) : replaceFrom piece value 0 text = text := by
  induction text with
  | nil => rfl
  | cons c rest ih =>
    rw [List.infix_cons_iff, not_or, ← List.isPrefixOf_iff_prefix] at h
    rw [replaceFrom, if_neg h.1, ih h.2]

end ContractDocs.Text
