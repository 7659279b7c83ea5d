import ContractDocs.Natspec
import ContractDocs.Proofs.Texts
import Mathlib.Data.List.DropRight

/-! The lines of a comment. Only what a line has between white space and stars is read, so lines
may be decorated with them, and lines that are nothing but decoration may be put in. -/

namespace ContractDocs

namespace Text

def Blank (cs : List Char) : Prop := ∀ c ∈ cs, isBlank c = true

instance (cs : List Char) : Decidable (Blank cs) :=
  decidable_of_iff (cs.all isBlank = true) List.all_eq_true

/-- Nothing to trim: there is no white space at the ends. -/
@[mk_iff]
structure Trimmed (cs : List Char) : Prop where
  head : ∀ c ∈ cs.head?, isBlank c = false
  last : ∀ c ∈ cs.getLast?, isBlank c = false

instance (cs : List Char) : Decidable (Trimmed cs) :=
  decidable_of_iff (cs.head?.all (!isBlank ·) = true ∧ cs.getLast?.all (!isBlank ·) = true)
    (by simp [trimmed_iff, Option.all_eq_true])

theorem Blank.append {a b : List Char} (ha : Blank a) (hb : Blank b) : Blank (a ++ b) :=
  List.forall_mem_append.mpr ⟨ha, hb⟩

theorem trimStart_of_head {cs : List Char} (h : ∀ c ∈ cs.head?, isBlank c = false) :
    trimStart cs = cs := by
  cases cs with
  | nil => rfl
  | cons c more => simp [trimStart, h c rfl]

theorem trimEnd_of_last {cs : List Char} (h : ∀ c ∈ cs.getLast?, isBlank c = false) :
    trimEnd cs = cs := by
  apply List.rdropWhile_eq_self_iff.mpr
  intro hne
  simp [h _ (List.getLast?_eq_some_getLast hne)]

theorem trimEnd_append {behind : List Char} (h : Blank behind) (cs : List Char) :
    trimEnd (cs ++ behind) = trimEnd cs := by
  have hreverse : ∀ c ∈ behind.reverse, isBlank c = true := by
    intro c hc
    exact h c (List.mem_reverse.mp hc)
  simp only [trimEnd, List.reverse_append, List.dropWhile_append_of_pos hreverse]

theorem trimmed_trim (cs : List Char) : Trimmed (trim cs) := by
  constructor
  · intro c hc
    have hsplit : trim cs ++ (trimStart cs).rtakeWhile isBlank = trimStart cs :=
      List.rdropWhile_append_rtakeWhile
    have hhead : (cs.dropWhile isBlank).head? = some c := by
      rw [← trimStart, ← hsplit, List.head?_append, hc, Option.some_or]
    have hstop := List.head?_dropWhile_not isBlank cs
    rwa [hhead] at hstop
  · intro c hc
    have hne : trim cs ≠ [] := by
      rintro hnil
      simp [hnil] at hc
    have hlast : (trim cs).getLast hne = c := by
      rw [List.getLast?_eq_some_getLast hne] at hc
      exact Option.some.inj hc
    rw [← hlast]
    exact Bool.eq_false_iff.mpr (List.rdropWhile_last_not isBlank (trimStart cs) hne)

/-- Trimming leaves the part that has no white space at its ends and only white space around it. -/
theorem trim_eq_iff {cs core : List Char} :
    trim cs = core ↔ Trimmed core ∧
      ∃ before behind, Blank before ∧ Blank behind ∧ cs = before ++ core ++ behind := by
  constructor
  · rintro rfl
    refine ⟨trimmed_trim cs, cs.takeWhile isBlank, (trimStart cs).rtakeWhile isBlank,
      fun c hc => List.mem_takeWhile_imp hc, fun c hc => List.mem_rtakeWhile_imp hc, ?_⟩
    have hend : trim cs ++ (trimStart cs).rtakeWhile isBlank = trimStart cs :=
      List.rdropWhile_append_rtakeWhile
    rw [List.append_assoc, hend]
    exact List.takeWhile_append_dropWhile.symm
  · rintro ⟨hcore, before, behind, hbefore, hbehind, rfl⟩
    have hstart : trimStart (before ++ core ++ behind) = trimStart (core ++ behind) := by
      rw [List.append_assoc]
      exact List.dropWhile_append_of_pos hbefore
    rw [trim, hstart]
    by_cases hnil : core = []
    · have hblank : trimStart behind = [] := List.dropWhile_eq_nil_iff.mpr hbehind
      simp [hnil, hblank, trimEnd]
    · have hkeep : trimStart (core ++ behind) = core ++ behind := by
        apply trimStart_of_head
        obtain ⟨c, more, rfl⟩ := List.exists_cons_of_ne_nil hnil
        simpa using hcore.head
      rw [hkeep, trimEnd_append hbehind, trimEnd_of_last hcore.last]

theorem Trimmed.trim_eq {cs : List Char} (h : Trimmed cs) : trim cs = cs :=
  trim_eq_iff.mpr ⟨h, [], [], by decide, by decide, by simp⟩

theorem trim_padded {before behind : List Char} (hbefore : Blank before) (hbehind : Blank behind)
    (cs : List Char) : trim (before ++ cs ++ behind) = trim cs := by
  obtain ⟨htrimmed, front, back, hfront, hback, heq⟩ := trim_eq_iff.mp (rfl : trim cs = trim cs)
  refine trim_eq_iff.mpr ⟨htrimmed, before ++ front, back ++ behind, hbefore.append hfront,
    hback.append hbehind, ?_⟩
  conv_lhs => rw [heq]
  simp only [List.append_assoc]

/-- A text that consists of the given lines. A line ends with a newline or with a carriage return
and a newline; the last one need not. -/
inductive WrittenAs : List Char → List (List Char) → Prop
  | empty : WrittenAs [] []
  | last {line : List Char} : '\n' ∉ line → WrittenAs line [line]
  | newline {line text : List Char} {more : List (List Char)} :
      '\n' ∉ line → WrittenAs text more → WrittenAs (line ++ '\n' :: text) (line :: more)
  | carriageReturn {line text : List Char} {more : List (List Char)} :
      '\n' ∉ line → WrittenAs text more → WrittenAs (line ++ '\r' :: '\n' :: text) (line :: more)

theorem WrittenAs.cons {c : Char} (hc : c ≠ '\n') {text line : List Char}
    {more : List (List Char)} (h : WrittenAs text (line :: more)) :
    WrittenAs (c :: text) ((c :: line) :: more) := by
  have hline {line : List Char} (hline : '\n' ∉ line) : '\n' ∉ c :: line := by
    simp [hc.symm, hline]
  cases h with
  | last h => exact .last (hline h)
  | newline h hmore => exact .newline (hline h) hmore
  | carriageReturn h hmore => exact .carriageReturn (hline h) hmore

theorem writtenAs_lines (text : List Char) : WrittenAs text (lines text) := by
  induction text with
  | nil => exact .last (by simp)
  | cons c text ih =>
    obtain ⟨line, more, heq⟩ := List.exists_cons_of_ne_nil (pieces_ne_nil '\n' text)
    rw [lines, heq] at ih
    by_cases hc : c = '\n'
    · subst hc
      simpa [lines, pieces, heq] using WrittenAs.newline List.not_mem_nil ih
    · simpa [lines, pieces, heq, hc] using ih.cons hc

end Text

namespace Natspec

open Text (Blank WrittenAs trim trim_eq_iff trim_padded trimmed_trim)

/-- The line behind white space and stars, with white space behind it. -/
def Decorates (line decorated : List Char) : Prop :=
  ∃ before stars between behind, Blank before ∧ Blank between ∧ Blank behind ∧
    decorated = before ++ List.replicate stars '*' ++ (between ++ line ++ behind)

/-- Each line is decorated, and lines of decoration alone are put in anywhere. -/
inductive Decorated : List (List Char) → List (List Char) → Prop
  | nil : Decorated [] []
  | line {line decorated : List Char} {lines more : List (List Char)} :
      Decorates line decorated → Decorated lines more →
        Decorated (line :: lines) (decorated :: more)
  | inserted {decorated : List Char} {lines more : List (List Char)} :
      Decorates [] decorated → Decorated lines more → Decorated lines (decorated :: more)

theorem star_not_blank : Text.isBlank '*' = false := by decide

theorem dropStars_of_head {cs : List Char} (h : cs.head? ≠ some '*') :
    cs.dropWhile (· == '*') = cs := by
  cases cs with
  | nil => rfl
  | cons c more => simpa using h

theorem dropStars_append (stars : Nat) (cs : List Char) :
    (List.replicate stars '*' ++ cs).dropWhile (· == '*') = cs.dropWhile (· == '*') :=
  List.dropWhile_append_of_pos (by simp)

theorem trim_stars {before : List Char} (hbefore : Blank before) (stars : Nat) (rest : List Char) :
    ∃ front, Blank front ∧ trim (before ++ List.replicate (stars + 1) '*' ++ rest) =
      List.replicate (stars + 1) '*' ++ (front ++ trim rest) := by
  obtain ⟨htrimmed, front, back, hfront, hback, heq⟩ := trim_eq_iff.mp (rfl : trim rest = trim rest)
  by_cases hnil : trim rest = []
  · -- only stars are left, the white space between them and the line is trimmed too
    have hblank : Blank rest := by
      rw [heq, hnil, List.append_nil]
      exact hfront.append hback
    refine ⟨[], by decide, ?_⟩
    rw [hnil, List.append_nil, List.append_nil]
    refine trim_eq_iff.mpr ⟨⟨?_, ?_⟩, before, rest, hbefore, hblank, rfl⟩
    · simpa [List.head?_replicate] using star_not_blank
    · simpa [List.getLast?_replicate] using star_not_blank
  · refine ⟨front, hfront, trim_eq_iff.mpr ⟨⟨?_, ?_⟩, before, back, hbefore, hback, ?_⟩⟩
    · simpa [List.replicate_succ] using star_not_blank
    · simpa [List.getLast?_append, hnil] using htrimmed.last
    · conv_lhs => rw [heq]
      simp only [List.append_assoc]

/-- Stars and the white space before them are not read. -/
theorem bare_stars {before : List Char} (hbefore : Blank before) (stars : Nat) {rest : List Char}
    (hrest : (trim rest).head? ≠ some '*') :
    bare (before ++ List.replicate stars '*' ++ rest) = trim rest := by
  cases stars with
  | zero =>
    have hpad := trim_padded hbefore (by decide : Blank []) rest
    rw [List.append_nil] at hpad
    rw [List.replicate_zero, List.append_nil, bare, hpad, dropStars_of_head hrest,
      (trimmed_trim rest).trim_eq]
  | succ stars =>
    obtain ⟨front, hfront, htrim⟩ := trim_stars hbefore stars rest
    have hhead : (front ++ trim rest).head? ≠ some '*' := by
      cases front with
      | nil => exact hrest
      | cons c front =>
        rintro hstar
        obtain rfl : c = '*' := by simpa using hstar
        exact absurd (hfront '*' List.mem_cons_self) (by simp [star_not_blank])
    -- what stood between the stars and the line goes with the second trimming
    rw [bare, htrim, dropStars_append, dropStars_of_head hhead]
    exact trim_eq_iff.mpr ⟨trimmed_trim rest, front, [], hfront, by decide, by simp⟩

theorem bare_of_decorates {line decorated : List Char} (h : Decorates line decorated)
    (hline : (trim line).head? ≠ some '*') : bare decorated = trim line := by
  obtain ⟨before, stars, between, behind, hbefore, hbetween, hbehind, rfl⟩ := h
  have hpad : trim (between ++ line ++ behind) = trim line := trim_padded hbetween hbehind line
  rw [bare_stars hbefore stars (by rwa [hpad]), hpad]

theorem Decorates.refl (line : List Char) : Decorates line line :=
  ⟨[], 0, [], [], by decide, by decide, by decide, by simp⟩

/-- What is read of the lines of a comment. -/
def contents (lines : List (List Char)) : List (List Char) :=
  (lines.map bare).filter (!·.isEmpty)

theorem contents_append (a b : List (List Char)) :
    contents (a ++ b) = contents a ++ contents b := by
  simp [contents]

theorem contents_cons_congr {a b : List Char} {lines others : List (List Char)}
    (hline : bare a = bare b) (h : contents lines = contents others) :
    contents (a :: lines) = contents (b :: others) := by
  simp only [contents, List.map_cons, List.filter_cons, hline] at h ⊢
  rw [h]

theorem entriesOf_filter (tag : List Char) (lines : List (List Char)) :
    entriesOf tag (lines.filter (!·.isEmpty)) = entriesOf tag lines := by
  induction lines generalizing tag with
  | nil => rfl
  | cons line lines ih =>
    cases line with
    | nil => exact ih tag
    | cons c line =>
      simp only [List.filter_cons_of_pos, List.isEmpty_cons, Bool.not_false, entriesOf, ih]

theorem contents_of_writtenAs {text : List Char} {lines : List (List Char)}
    (h : WrittenAs text lines) : contents (Text.lines text) = contents lines := by
  induction h with
  | empty => rfl
  | last hline => rw [Text.lines, Text.pieces_of_notMem hline]
  | newline hline _ ih =>
    rw [Text.lines, Text.pieces_append, Text.pieces_of_notMem hline]
    exact contents_cons_congr rfl ih
  | @carriageReturn line text more hline _ ih =>
    -- the carriage return is split off with the line, and then trimmed
    have hreturn : '\n' ∉ line ++ ['\r'] := by simpa using hline
    have hbare : bare (line ++ ['\r']) = bare line := by
      have hpad := trim_padded (by decide : Blank []) (by decide : Blank ['\r']) line
      rw [List.nil_append] at hpad
      rw [bare, bare, hpad]
    rw [Text.lines, List.append_cons, Text.pieces_append, Text.pieces_of_notMem hreturn]
    exact contents_cons_congr hbare ih

theorem parse_of_writtenAs {text : String} {lines : List (List Char)}
    (h : WrittenAs text.toList lines) :
    parse text = ⟨entriesOf "notice".toList (contents lines)⟩ := by
  rw [parse, ← entriesOf_filter, ← contents_of_writtenAs h, contents]

theorem contents_of_decorated {lines decorated : List (List Char)}
    (h : Decorated lines decorated) (hlines : ∀ line ∈ lines, (trim line).head? ≠ some '*') :
    contents decorated = contents lines := by
  induction h with
  | nil => rfl
  | line hline _ ih =>
    have hhead := hlines _ List.mem_cons_self
    have hbare := (bare_of_decorates hline hhead).trans (bare_of_decorates (.refl _) hhead).symm
    exact contents_cons_congr hbare (ih fun line hmem => hlines line (List.mem_cons_of_mem _ hmem))
  | @inserted decorated _ _ hline _ ih =>
    have hnil : bare decorated = [] := bare_of_decorates hline (by decide)
    simpa [contents, hnil] using ih hlines

/-- Decoration is not read: a text whose lines do not start with a star says the same without it. -/
theorem parse_decorated {text decorated : String} {lines decorations : List (List Char)}
    (htext : WrittenAs text.toList lines) (hdecorated : WrittenAs decorated.toList decorations)
    (hstars : ∀ line ∈ lines, (trim line).head? ≠ some '*') (h : Decorated lines decorations) :
    parse decorated = parse text := by
  rw [parse_of_writtenAs hdecorated, parse_of_writtenAs htext, contents_of_decorated h hstars]

theorem parse_decorated_block :
    parse " *\tMoves tokens. \n **\n***@dev  Sorted\r" = parse "Moves tokens.\r\n@dev  Sorted" ∧
      parse "Moves tokens.\r\n@dev  Sorted" =
        ⟨[("notice", "Moves tokens."), ("dev", "Sorted")]⟩ := by
  have htext : WrittenAs ("Moves tokens.".toList ++ '\r' :: '\n' :: "@dev  Sorted".toList)
      ["Moves tokens.".toList, "@dev  Sorted".toList] :=
    .carriageReturn (by decide) (.last (by decide))
  have hdecorated : WrittenAs (" *\tMoves tokens. ".toList ++ '\n' :: (" **".toList ++
      '\n' :: "***@dev  Sorted\r".toList))
      [" *\tMoves tokens. ".toList, " **".toList, "***@dev  Sorted\r".toList] :=
    .newline (by decide) (.newline (by decide) (.last (by decide)))
  refine ⟨parse_decorated htext hdecorated (by decide) (.line ?_ (.inserted ?_ (.line ?_ .nil))),
    by decide⟩
  · exact ⟨[' '], 1, ['\t'], [' '], by decide, by decide, by decide, by decide⟩
  · exact ⟨[' '], 2, [], [], by decide, by decide, by decide, by decide⟩
  · exact ⟨[], 3, [], ['\r'], by decide, by decide, by decide, by decide⟩

end Natspec

end ContractDocs
