import ContractDocs.Page
import Mathlib.Data.List.Basic

/-! Texts folded into one line. A text is a line, or a line with a line break and another text
behind it, and folding puts a space for each break. It can be done part by part unless a carriage
return and its newline go to different parts. -/

namespace ContractDocs

namespace Text

def OneLine (cs : List Char) : Prop := '\r' ∉ cs ∧ '\n' ∉ cs

instance (cs : List Char) : Decidable (OneLine cs) :=
  inferInstanceAs (Decidable (_ ∧ _))

/-- The text starts with a line break, and the rest follows. A carriage return is a break of its
own only if no newline comes next. -/
inductive BreakThen : List Char → List Char → Prop
  | both (rest : List Char) : BreakThen ('\r' :: '\n' :: rest) rest
  | carriageReturn {rest : List Char} : rest.head? ≠ some '\n' → BreakThen ('\r' :: rest) rest
  | newline (rest : List Char) : BreakThen ('\n' :: rest) rest

/-- The pieces that a text has between its line breaks. -/
inductive BrokenInto : List Char → List (List Char) → Prop
  | last {piece : List Char} : OneLine piece → BrokenInto piece [piece]
  | before {piece text rest : List Char} {more : List (List Char)} :
      OneLine piece → BreakThen text rest → BrokenInto rest more →
        BrokenInto (piece ++ text) (piece :: more)

/-- The cut between two texts is inside a line break. -/
def CutsBreak (a b : List Char) : Prop := a.getLast? = some '\r' ∧ b.head? = some '\n'

section Fold

variable {a b cs text rest other : List Char}

theorem oneLine_nil : OneLine [] := by decide

theorem oneLine_cons {c : Char} : OneLine (c :: cs) ↔ c ≠ '\r' ∧ c ≠ '\n' ∧ OneLine cs := by
  simp only [OneLine, List.mem_cons, not_or, ne_comm (a := c)]
  tauto

theorem oneLine_append : OneLine (a ++ b) ↔ OneLine a ∧ OneLine b := by
  simp only [OneLine, List.mem_append, not_or]
  tauto

theorem BreakThen.head (h : BreakThen text rest) :
    text.head? = some '\r' ∨ text.head? = some '\n' := by
  cases h <;> simp

theorem BreakThen.not_oneLine (h : BreakThen text rest) : ¬ OneLine text := by
  rintro ⟨hreturn, hnewline⟩
  rcases h.head with hhead | hhead
  · exact hreturn (List.mem_of_head? hhead)
  · exact hnewline (List.mem_of_head? hhead)

theorem BreakThen.not_cons {c : Char} (hreturn : c ≠ '\r') (hnewline : c ≠ '\n') :
    ¬ BreakThen (c :: cs) rest := by
  intro h
  rcases h.head with hhead | hhead
  · exact hreturn (Option.some.inj hhead)
  · exact hnewline (Option.some.inj hhead)

theorem BreakThen.suffix (h : BreakThen text rest) : rest <:+ text := by
  cases h with
  | both => exact ⟨['\r', '\n'], rfl⟩
  | carriageReturn => exact ⟨['\r'], rfl⟩
  | newline => exact ⟨['\n'], rfl⟩

theorem BreakThen.unique (h : BreakThen text rest) (hother : BreakThen text other) :
    rest = other := by
  cases h <;> cases hother <;> simp_all

theorem CutsBreak.of_suffix (h : CutsBreak rest b) (hsuffix : rest <:+ text) :
    CutsBreak text b := by
  obtain ⟨front, rfl⟩ := hsuffix
  refine ⟨?_, h.2⟩
  rw [List.getLast?_append, h.1, Option.some_or]

theorem BreakThen.append (h : BreakThen text rest) (hcut : ¬ CutsBreak text b) :
    BreakThen (text ++ b) (rest ++ b) := by
  cases h with
  | both => exact .both _
  | newline => exact .newline _
  | carriageReturn hrest =>
    refine .carriageReturn ?_
    cases rest with
    | nil => simpa [CutsBreak] using hcut
    | cons c rest => exact hrest

/-- A text is read from its beginning, a character of the line or a whole break at a time. -/
theorem break_induction {motive : List Char → Prop} (nil : motive [])
    (char : ∀ c rest, c ≠ '\r' → c ≠ '\n' → motive rest → motive (c :: rest))
    (lineBreak : ∀ text rest, BreakThen text rest → motive rest → motive text)
    (text : List Char) : motive text := by
  fun_induction singleLine text with
  | case1 => exact nil
  | case2 rest ih => exact lineBreak _ rest (.both rest) ih
  | case3 c rest hboth ih =>
    by_cases hreturn : c = '\r'
    · subst hreturn
      refine lineBreak _ rest (.carriageReturn fun hhead => ?_) ih
      obtain ⟨more, rfl⟩ := List.head?_eq_some_iff.mp hhead
      exact hboth more rfl rfl
    · by_cases hnewline : c = '\n'
      · subst hnewline
        exact lineBreak _ rest (.newline rest) ih
      · exact char c rest hreturn hnewline ih

theorem singleLine_cons {c : Char} (hreturn : c ≠ '\r') (hnewline : c ≠ '\n') (rest : List Char) :
    singleLine (c :: rest) = c :: singleLine rest := by
  simp [singleLine, hreturn, hnewline]

theorem BreakThen.singleLine_eq (h : BreakThen text rest) :
    singleLine text = ' ' :: singleLine rest := by
  cases h with
  | both => rfl
  | newline => simp [singleLine]
  | carriageReturn hrest =>
    cases rest with
    | nil => rfl
    | cons c rest =>
      have hc : c ≠ '\n' := by simpa using hrest
      simp [singleLine, hc]

theorem oneLine_singleLine (cs : List Char) : OneLine (singleLine cs) := by
  induction cs using break_induction with
  | nil => exact oneLine_nil
  | char c rest hreturn hnewline ih =>
    rw [singleLine_cons hreturn hnewline]
    exact oneLine_cons.mpr ⟨hreturn, hnewline, ih⟩
  | lineBreak text rest h ih =>
    rw [h.singleLine_eq]
    exact oneLine_cons.mpr ⟨by decide, by decide, ih⟩

theorem OneLine.singleLine_eq (h : OneLine cs) : singleLine cs = cs := by
  induction cs with
  | nil => rfl
  | cons c cs ih =>
    obtain ⟨hreturn, hnewline, hcs⟩ := oneLine_cons.mp h
    rw [singleLine_cons hreturn hnewline, ih hcs]

theorem singleLine_append (hcut : ¬ CutsBreak a b) :
    singleLine (a ++ b) = singleLine a ++ singleLine b := by
  induction a using break_induction with
  | nil => rfl
  | char c rest hreturn hnewline ih =>
    have hrest := ih fun h => hcut (h.of_suffix (List.suffix_cons c rest))
    rw [List.cons_append, singleLine_cons hreturn hnewline, singleLine_cons hreturn hnewline, hrest,
      List.cons_append]
  | lineBreak text rest h ih =>
    have hrest := ih fun hcut' => hcut (hcut'.of_suffix h.suffix)
    rw [(h.append hcut).singleLine_eq, h.singleLine_eq, hrest, List.cons_append]

theorem singleLine_append_iff :
    singleLine (a ++ b) = singleLine a ++ singleLine b ↔ ¬ CutsBreak a b := by
  refine ⟨?_, singleLine_append⟩
  rintro heq ⟨hlast, hhead⟩
  obtain ⟨front, rfl⟩ := List.getLast?_eq_some_iff.mp hlast
  obtain ⟨rest, rfl⟩ := List.head?_eq_some_iff.mp hhead
  have hreturn (text : List Char) :
      singleLine (front ++ '\r' :: text) = singleLine front ++ singleLine ('\r' :: text) :=
    singleLine_append (by simp [CutsBreak])
  -- folded on their own, the two halves of the break give a space each
  have hlength := congrArg List.length heq
  rw [List.append_assoc, List.singleton_append, hreturn, hreturn,
    (BreakThen.both rest).singleLine_eq, (BreakThen.newline rest).singleLine_eq] at hlength
  simp [singleLine] at hlength

theorem BrokenInto.ne_nil {pieces : List (List Char)} (h : BrokenInto text pieces) :
    pieces ≠ [] := by
  cases h <;> simp

theorem brokenInto_nil {pieces : List (List Char)} : BrokenInto [] pieces ↔ pieces = [[]] := by
  refine ⟨fun h => ?_, fun h => h ▸ .last oneLine_nil⟩
  generalize htext : [] = text at h
  cases h with
  | last => rw [← htext]
  | before _ hbreak =>
    obtain ⟨-, rfl⟩ := List.append_eq_nil_iff.mp htext.symm
    cases hbreak

theorem brokenInto_cons {c : Char} (hreturn : c ≠ '\r') (hnewline : c ≠ '\n')
    {pieces : List (List Char)} : BrokenInto (c :: cs) pieces ↔
      ∃ piece more, pieces = (c :: piece) :: more ∧ BrokenInto cs (piece :: more) := by
  constructor
  · intro h
    generalize htext : c :: cs = text at h
    cases h with
    | last hpiece =>
      subst htext
      exact ⟨cs, [], rfl, .last (oneLine_cons.mp hpiece).2.2⟩
    | @before piece text rest more hpiece hbreak hmore =>
      cases piece with
      | nil =>
        obtain rfl : c :: cs = text := htext
        exact absurd hbreak (BreakThen.not_cons hreturn hnewline)
      | cons d piece =>
        obtain ⟨rfl, rfl⟩ := List.cons.inj htext
        exact ⟨piece, more, rfl, .before (oneLine_cons.mp hpiece).2.2 hbreak hmore⟩
  · rintro ⟨piece, more, rfl, h⟩
    have hline {piece : List Char} (hpiece : OneLine piece) : OneLine (c :: piece) :=
      oneLine_cons.mpr ⟨hreturn, hnewline, hpiece⟩
    cases h with
    | last hpiece => exact .last (hline hpiece)
    | before hpiece hbreak hmore => exact .before (hline hpiece) hbreak hmore

theorem BreakThen.brokenInto_iff (h : BreakThen text rest) {pieces : List (List Char)} :
    BrokenInto text pieces ↔ ∃ more, pieces = [] :: more ∧ BrokenInto rest more := by
  constructor
  · intro hpieces
    cases hpieces with
    | last hpiece => exact absurd hpiece h.not_oneLine
    | @before piece text rest' more hpiece hbreak hmore =>
      cases piece with
      | nil =>
        obtain rfl := h.unique hbreak
        exact ⟨more, rfl, hmore⟩
      | cons c piece =>
        obtain ⟨hreturn, hnewline, -⟩ := oneLine_cons.mp hpiece
        exact absurd h (BreakThen.not_cons hreturn hnewline)
  · rintro ⟨more, rfl, hmore⟩
    exact .before oneLine_nil h hmore

/-- There is exactly one way to break a text. -/
theorem exists_pieces (text : List Char) :
    ∃ pieces, ∀ others, BrokenInto text others ↔ others = pieces := by
  induction text using break_induction with
  | nil => exact ⟨[[]], fun _ => brokenInto_nil⟩
  | char c rest hreturn hnewline ih =>
    obtain ⟨pieces, hpieces⟩ := ih
    obtain ⟨piece, more, rfl⟩ := List.exists_cons_of_ne_nil ((hpieces pieces).mpr rfl).ne_nil
    refine ⟨(c :: piece) :: more, fun others => ?_⟩
    rw [brokenInto_cons hreturn hnewline]
    constructor
    · rintro ⟨first, others, rfl, h⟩
      obtain ⟨rfl, rfl⟩ := List.cons.inj ((hpieces _).mp h)
      rfl
    · rintro rfl
      exact ⟨piece, more, rfl, (hpieces _).mpr rfl⟩
  | lineBreak text rest h ih =>
    obtain ⟨pieces, hpieces⟩ := ih
    refine ⟨[] :: pieces, fun others => ?_⟩
    simp only [h.brokenInto_iff, hpieces, exists_eq_right]

theorem BrokenInto.singleLine_eq {pieces : List (List Char)} (h : BrokenInto text pieces) :
    singleLine text = [' '].intercalate pieces := by
  induction h with
  | last hpiece => simpa using hpiece.singleLine_eq
  | @before piece text rest more hpiece hbreak hmore ih =>
    have hlast : piece.getLast? ≠ some '\r' := fun h => hpiece.1 (List.mem_of_getLast? h)
    calc singleLine (piece ++ text) = singleLine piece ++ singleLine text :=
          singleLine_append fun h => hlast h.1
      _ = piece ++ ' ' :: [' '].intercalate more := by
          rw [hpiece.singleLine_eq, hbreak.singleLine_eq, ih]
      _ = [' '].intercalate (piece :: more) := by
          rw [List.intercalate_cons_of_ne_nil hmore.ne_nil, List.append_assoc,
            List.singleton_append]

end Fold

end Text

open Text (OneLine BrokenInto CutsBreak oneLine_append)

theorem toList_singleLine (text : String) :
    (singleLine text).toList = Text.singleLine text.toList :=
  String.toList_ofList

theorem Contract.oneLine_pageTitle (c : Contract) :
    OneLine c.pageTitle.toList ↔ OneLine c.contractName.toList := by
  have hopening : OneLine " (".toList := by decide
  have hclosing : OneLine ".sol)".toList := by decide
  have hending : OneLine ".sol".toList := by decide
  rw [pageTitle]
  cases c.natspec.title? with
  | none => simp only [String.toList_append, oneLine_append, hending, and_true]
  | some title =>
    have htitle : OneLine (singleLine title).toList := by
      rw [toList_singleLine]
      exact Text.oneLine_singleLine title.toList
    simp only [String.toList_append, oneLine_append, htitle, hopening, hclosing, true_and, and_true]

/-- Folding a text gives its pieces with spaces between them, on one line that stays as it is; two
texts can be folded apart unless a break is cut in two. So only a name can break a page's title. -/
theorem Site.titles_on_one_line (text a b : String) (site : Site) (c : Contract) :
    OneLine (singleLine text).toList ∧
    (∃ pieces, (∀ others, BrokenInto text.toList others ↔ others = pieces) ∧
      (singleLine text).toList = [' '].intercalate pieces) ∧
    singleLine (singleLine text) = singleLine text ∧
    (singleLine (a ++ b) = singleLine a ++ singleLine b ↔ ¬ CutsBreak a.toList b.toList) ∧
    ∃ title, (∀ value, ("ContractTitle", value) ∈ site.values c ↔ value = title) ∧
      (OneLine title.toList ↔ OneLine c.contractName.toList) := by
  have hline := Text.oneLine_singleLine text.toList
  obtain ⟨pieces, hpieces⟩ := Text.exists_pieces text.toList
  refine ⟨?_, ⟨pieces, hpieces, ?_⟩, ?_, ?_, c.pageTitle, ?_, c.oneLine_pageTitle⟩
  · rwa [toList_singleLine]
  · rw [toList_singleLine, ((hpieces pieces).mpr rfl).singleLine_eq]
  · rw [← String.toList_inj, toList_singleLine, toList_singleLine, hline.singleLine_eq]
  · simp only [← String.toList_inj, String.toList_append, toList_singleLine]
    exact Text.singleLine_append_iff
  · intro value
    simp [values]

example : singleLine "a\r\nb\rc\nd" = "a b c d" := by decide

example : (Natspec.parse "@title Safe\rvault\n@title of tokens").title?.map singleLine =
    some "Safe vault of tokens" := by decide

end ContractDocs
