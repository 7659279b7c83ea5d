import ContractDocs.Proofs.AbiBlock

/-! What tidying makes of a page. It thins out the newlines and trims what is left. White space at
the ends goes whether or not it is thinned out before, so between its first and its last visible
character a page is just thinned out, and once tidied it stays as it is. -/

namespace ContractDocs

namespace Text

/-- Each run of newlines, taken as far as it goes, is cut down to two, and all else stays. -/
inductive Thinned : List Char → List Char → Prop where
  | nil : Thinned [] []
  | char {c : Char} {text thinned : List Char} :
      c ≠ '\n' → Thinned text thinned → Thinned (c :: text) (c :: thinned)
  | run (n : Nat) {text thinned : List Char} : text.head? ≠ some '\n' → Thinned text thinned →
      Thinned (List.replicate n '\n' ++ text) (List.replicate (min n 2) '\n' ++ thinned)

section Thin

variable {a b cs : List Char}

theorem thinAfter_cons_of_ne (run : Nat) {c : Char} (hc : c ≠ '\n') (rest : List Char) :
    thinAfter run (c :: rest) = c :: thinAfter 0 rest := by
  rw [thinAfter, if_neg hc]

theorem thinAfter_of_head (run : Nat) (h : cs.head? ≠ some '\n') :
    thinAfter run cs = thinAfter 0 cs := by
  cases cs with
  | nil => rfl
  | cons c rest =>
    have hc : c ≠ '\n' := by simpa using h
    rw [thinAfter_cons_of_ne run hc, thinAfter_cons_of_ne 0 hc]

theorem thinAfter_newlines (n : Nat) {run : Nat} (hrun : run ≤ 2) (h : cs.head? ≠ some '\n') :
    thinAfter run (List.replicate n '\n' ++ cs) =
      List.replicate (min n (2 - run)) '\n' ++ thinAfter 0 cs := by
  induction n generalizing run with
  | zero => simpa using thinAfter_of_head run h
  | succ n ih =>
    rw [List.replicate_succ, List.cons_append, thinAfter, if_pos rfl]
    by_cases hless : run < 2
    · have hmin : min (n + 1) (2 - run) = min n (2 - (run + 1)) + 1 := by omega
      rw [if_pos hless, ih (by omega), hmin, List.replicate_succ, List.cons_append]
    · have hmin : min (n + 1) (2 - run) = min n (2 - run) := by omega
      rw [if_neg hless, ih hrun, hmin]

theorem exists_newlines (cs : List Char) :
    ∃ n rest, cs = List.replicate n '\n' ++ rest ∧ rest.head? ≠ some '\n' := by
  induction cs with
  | nil => exact ⟨0, [], rfl, by simp⟩
  | cons c cs ih =>
    by_cases hc : c = '\n'
    · obtain ⟨n, rest, rfl, hrest⟩ := ih
      exact ⟨n + 1, rest, by simp [hc, List.replicate_succ], hrest⟩
    · exact ⟨0, c :: cs, rfl, by simpa using hc⟩

theorem thinned_thinAfter (cs : List Char) : Thinned cs (thinAfter 0 cs) := by
  induction hlength : cs.length using Nat.strongRecOn generalizing cs with
  | ind length ih =>
    obtain ⟨n, rest, rfl, hrest⟩ := exists_newlines cs
    rw [thinAfter_newlines n (Nat.zero_le 2) hrest]
    refine .run n hrest ?_
    cases rest with
    | nil => exact .nil
    | cons c rest =>
      have hc : c ≠ '\n' := by simpa using hrest
      rw [thinAfter_cons_of_ne 0 hc]
      refine .char hc (ih rest.length ?_ rest rfl)
      rw [← hlength, List.length_append, List.length_cons]
      omega

theorem thinAfter_thinAfter (run : Nat) (cs : List Char) :
    thinAfter run (thinAfter run cs) = thinAfter run cs := by
  fun_induction thinAfter run cs with
  | case1 => rfl
  | case2 run rest hless ih => rw [thinAfter, if_pos rfl, if_pos hless, ih]
  | case3 run rest hless ih => exact ih
  | case4 run c rest hc ih => rw [thinAfter_cons_of_ne run hc, ih]

/-- With the newlines that came before, there are never three in a row. -/
theorem not_infix_thinAfter (run : Nat) (hrun : run ≤ 2) (cs : List Char) :
    ¬ ['\n', '\n', '\n'] <:+: List.replicate run '\n' ++ thinAfter run cs := by
  fun_induction thinAfter run cs with
  | case1 run =>
    intro h
    have hlength := h.length_le
    simp at hlength
    omega
  | case2 run rest hless ih =>
    have hrun' := ih hless
    rwa [List.replicate_succ', List.append_assoc] at hrun'
  | case3 run rest hless ih => exact ih hrun
  | case4 run c rest hc ih =>
    have hrest := ih (Nat.zero_le 2)
    rw [List.replicate_zero, List.nil_append] at hrest
    have hcases : run = 0 ∨ run = 1 ∨ run = 2 := by omega
    rcases hcases with rfl | rfl | rfl <;> simp [List.infix_cons_iff, hrest, Ne.symm hc]

theorem thinAfter_sublist (run : Nat) (cs : List Char) : (thinAfter run cs).Sublist cs := by
  fun_induction thinAfter run cs with
  | case1 => exact .slnil
  | case2 run rest hless ih => exact ih.cons_cons _
  | case3 run rest hless ih => exact ih.cons _
  | case4 run c rest hc ih => exact ih.cons_cons c

theorem filter_thinAfter (run : Nat) (cs : List Char) :
    (thinAfter run cs).filter (!isBlank ·) = cs.filter (!isBlank ·) := by
  have hnewline : isBlank '\n' = true := by decide
  fun_induction thinAfter run cs <;> simp_all [List.filter_cons]

theorem Blank.thinAfter (h : Blank cs) (run : Nat) : Blank (thinAfter run cs) :=
  fun c hc => h c ((thinAfter_sublist run cs).subset hc)

theorem ne_newline_of_not_blank {c : Char} (h : isBlank c = false) : c ≠ '\n' := by
  rintro rfl
  exact absurd h (by decide)

theorem thinAfter_append_of_head (run : Nat) (h : ∀ c ∈ b.head?, isBlank c = false)
    (hb : b ≠ []) : thinAfter run (a ++ b) = thinAfter run a ++ thinAfter 0 b := by
  obtain ⟨c, rest, rfl⟩ := List.exists_cons_of_ne_nil hb
  have hc := ne_newline_of_not_blank (h c rfl)
  rw [thinAfter_cons_of_ne 0 hc]
  exact (Kept.of_ne hc).thinAfter_around run a rest

theorem thinAfter_append_of_last (run : Nat) (h : ∀ c ∈ a.getLast?, isBlank c = false)
    (ha : a ≠ []) : thinAfter run (a ++ b) = thinAfter run a ++ thinAfter 0 b := by
  obtain ⟨front, c, rfl⟩ := (List.eq_nil_or_concat' a).resolve_left ha
  have hc := ne_newline_of_not_blank (h c (by simp))
  have haround := (Kept.of_ne hc).thinAfter_around run front
  have hfront := haround []
  rw [List.append_nil] at hfront
  rw [hfront, List.append_assoc, haround]
  simp [thinAfter]

theorem Trimmed.thinAfter (h : Trimmed cs) : Trimmed (thinAfter 0 cs) := by
  rcases eq_or_ne cs [] with rfl | hne
  · exact h
  constructor
  · obtain ⟨c, rest, rfl⟩ := List.exists_cons_of_ne_nil hne
    rw [thinAfter_cons_of_ne 0 (ne_newline_of_not_blank (h.head c rfl))]
    exact h.head
  · obtain ⟨front, c, rfl⟩ := (List.eq_nil_or_concat' cs).resolve_left hne
    have hblank := h.last c (by simp)
    rw [thinAfter_append_of_head 0 (by simpa using hblank) (List.cons_ne_nil c []),
      thinAfter_cons_of_ne 0 (ne_newline_of_not_blank hblank)]
    simpa [Text.thinAfter] using hblank

theorem trim_thinAfter {before inner behind : List Char} (hbefore : Blank before)
    (hinner : Trimmed inner) (hbehind : Blank behind) :
    trim (thinAfter 0 (before ++ inner ++ behind)) = thinAfter 0 inner := by
  rw [trim_eq_iff]
  refine ⟨hinner.thinAfter, ?_⟩
  rcases eq_or_ne inner [] with rfl | hne
  · refine ⟨thinAfter 0 (before ++ behind), [], (hbefore.append hbehind).thinAfter 0, by decide, ?_⟩
    simp [Text.thinAfter]
  · refine ⟨thinAfter 0 before, thinAfter 0 behind, hbefore.thinAfter 0, hbehind.thinAfter 0, ?_⟩
    have hhead : ∀ c ∈ (inner ++ behind).head?, isBlank c = false := by
      rw [List.head?_append_of_ne_nil _ hne]
      exact hinner.head
    have hne' : inner ++ behind ≠ [] := List.append_ne_nil_of_left_ne_nil hne _
    rw [List.append_assoc, thinAfter_append_of_head 0 hhead hne',
      thinAfter_append_of_last 0 hinner.last hne, List.append_assoc]

theorem tidy_of_padded {page : String} {before inner behind : List Char}
    (hpage : page.toList = before ++ inner ++ behind) (hbefore : Blank before)
    (hinner : Trimmed inner) (hbehind : Blank behind) :
    (tidy page).toList = thinAfter 0 inner ++ ['\n'] := by
  rw [tidy, String.toList_ofList, hpage, trim_thinAfter hbefore hinner hbehind]

end Thin

/-- What tidying makes of a page. -/
structure Tidied (page tidied : String) : Prop where
  thin : ¬ Holds tidied "\n\n\n"
  /-- White space is at no end, but one newline stands behind. -/
  framed : ∃ text, Trimmed text ∧ tidied.toList = text ++ ['\n']
  visible : tidied.toList.filter (!isBlank ·) = page.toList.filter (!isBlank ·)
  /-- From its first to its last visible character, the page only loses long runs of newlines. -/
  inner : ∃ before inner behind text, page.toList = before ++ inner ++ behind ∧
    Blank before ∧ Trimmed inner ∧ Blank behind ∧
    Thinned inner text ∧ tidied.toList = text ++ ['\n']
  stable : tidy tidied = tidied

theorem tidied_tidy (page : String) : Tidied page (tidy page) := by
  obtain ⟨hinner, before, behind, hbefore, hbehind, hpage⟩ :=
    trim_eq_iff.mp (rfl : trim page.toList = trim page.toList)
  generalize trim page.toList = inner at hinner hpage
  have htidy := tidy_of_padded hpage hbefore hinner hbehind
  have hnewline : Blank ['\n'] := by decide
  constructor
  · have hthin : thinAfter 0 (inner ++ ['\n']) = thinAfter 0 inner ++ ['\n'] := by
      rcases eq_or_ne inner [] with rfl | hne
      · rfl
      · exact thinAfter_append_of_last 0 hinner.last hne
    rw [holds_iff, htidy, ← hthin]
    exact not_infix_thinAfter 0 (Nat.zero_le 2) _
  · exact ⟨_, hinner.thinAfter, htidy⟩
  · have hnone {cs : List Char} (h : Blank cs) : cs.filter (!isBlank ·) = [] := by
      simpa [Blank] using h
    rw [htidy, hpage, List.filter_append, filter_thinAfter, List.filter_append, List.filter_append,
      hnone hnewline, hnone hbefore, hnone hbehind, List.nil_append]
  · have hthinned := thinned_thinAfter inner
    exact ⟨before, inner, behind, _, hpage, hbefore, hinner, hbehind, hthinned, htidy⟩
  · have hpadded : (tidy page).toList = [] ++ thinAfter 0 inner ++ ['\n'] := htidy
    have hagain := tidy_of_padded hpadded (by decide) hinner.thinAfter hnewline
    rw [← String.toList_inj, hagain, thinAfter_thinAfter, htidy]

end Text

open Text in
/-- Tidying does this to every text, and so to the pages of all contracts and to the index. -/
theorem Site.pages_tidied (page : String) (site : Site) (c : Contract) :
    Tidied page (tidy page) ∧
    Tidied (fill site.template (site.values c)) (site.render c) ∧
    Tidied ("# Contracts\n\n" ++ contractLinks site.contracts ++ "\n") site.renderIndex :=
  ⟨tidied_tidy page, tidied_tidy _, tidied_tidy _⟩

end ContractDocs
