import ContractDocs.Proofs.JoinedComments
import Mathlib.Data.Finset.Dedup
import Mathlib.Data.Set.Finite.List

/-! Comments that are printed. Reading a text gives a finite map from tags to texts, and every map
of this kind is read from its own print, a line `@tag line` for each line of each text. -/

namespace ContractDocs

namespace Text

theorem mem_of_mem_trim {c : Char} {cs : List Char} (h : c ∈ trim cs) : c ∈ cs := by
  obtain ⟨-, before, behind, -, -, heq⟩ := trim_eq_iff.mp (rfl : trim cs = trim cs)
  rw [heq]
  simp [h]

theorem Trimmed.of_suffix {cs part : List Char} (h : Trimmed cs) (hsuffix : part <:+ cs)
    (hhead : ∀ c ∈ part.head?, isBlank c = false) : Trimmed part := by
  refine ⟨hhead, fun c hc => h.last c ?_⟩
  obtain ⟨before, rfl⟩ := hsuffix
  rw [Option.mem_def] at hc ⊢
  rw [List.getLast?_append, hc, Option.some_or]

theorem lines_intercalate {parts : List (List Char)} (hne : parts ≠ [])
    (h : ∀ part ∈ parts, '\n' ∉ part) : lines (['\n'].intercalate parts) = parts := by
  induction parts with
  | nil => exact absurd rfl hne
  | cons part parts ih =>
    have hpart := pieces_of_notMem (h part List.mem_cons_self)
    by_cases hnil : parts = []
    · simpa [hnil, lines] using hpart
    · have hparts := ih hnil fun part hmem => h part (List.mem_cons_of_mem _ hmem)
      rw [List.intercalate_cons_of_ne_nil hnil, List.append_assoc, List.singleton_append, lines,
        pieces_append, hpart, ← lines, hparts, List.singleton_append]

theorem writtenAs_intercalate {parts : List (List Char)} (h : ∀ part ∈ parts, '\n' ∉ part) :
    WrittenAs (['\n'].intercalate parts) parts := by
  by_cases hnil : parts = []
  · subst hnil
    exact .empty
  · have hwritten := writtenAs_lines (['\n'].intercalate parts)
    rwa [lines_intercalate hnil h] at hwritten

end Text

namespace Natspec

open Text (Trimmed WrittenAs)

@[mk_iff]
structure IsTag (tag : List Char) : Prop where
  ne_nil : tag ≠ []
  word : ∀ c ∈ tag, Text.isWord c = true

instance (tag : List Char) : Decidable (IsTag tag) :=
  decidable_of_iff (tag ≠ [] ∧ tag.all Text.isWord = true) (by simp [isTag_iff])

/-- Something in one line, without white space at its ends. -/
@[mk_iff]
structure IsLine (line : List Char) : Prop where
  ne_nil : line ≠ []
  newline : '\n' ∉ line
  trimmed : Trimmed line

instance (line : List Char) : Decidable (IsLine line) :=
  decidable_of_iff _ (isLine_iff line).symm

structure IsEntry (e : String × String) : Prop where
  tag : IsTag e.1.toList
  line : IsLine e.2.toList

/-- A finite map from tags to texts that are made of lines. -/
structure IsTagMap (m : String → Option String) : Prop where
  finite : {tag | m tag ≠ none}.Finite
  isTag : ∀ {tag text}, m tag = some text → IsTag tag.toList
  exists_lines : ∀ {tag text}, m tag = some text → ∃ lines, lines ≠ [] ∧
    (∀ line ∈ lines, IsLine line.toList) ∧ text = "\n".intercalate lines

theorem isTag_of_tagLine? {line tag content : List Char} (h : tagLine? line = some (tag, content)) :
    IsTag tag ∧ content <:+ line ∧ ∀ c ∈ content.head?, Text.isBlank c = false := by
  unfold tagLine? at h
  split at h
  next rest =>
    simp only [Option.ite_none_left_eq_some, List.isEmpty_iff, Option.some.injEq,
      Prod.mk.injEq] at h
    obtain ⟨hne, rfl, rfl⟩ := h
    refine ⟨⟨hne, fun c hc => List.mem_takeWhile_imp hc⟩, ?_, ?_⟩
    · exact (List.dropWhile_suffix _).trans ((List.dropWhile_suffix _).trans (List.suffix_cons _ _))
    · intro c hc
      have hstop := List.head?_dropWhile_not Text.isBlank (rest.dropWhile Text.isWord)
      rw [Option.mem_def, Text.trimStart] at hc
      rwa [hc] at hstop
  · cases h

/-- One step of reading: what the line gives is a tag and something trimmed. -/
theorem isTag_step {tag line : List Char} (htag : IsTag tag) (hnewline : '\n' ∉ line)
    (htrimmed : Trimmed line) {own content : List Char}
    (h : (tagLine? line).getD (tag, line) = (own, content)) :
    IsTag own ∧ '\n' ∉ content ∧ Trimmed content := by
  cases hline : tagLine? line with
  | none =>
    obtain ⟨rfl, rfl⟩ : tag = own ∧ line = content := by simpa [hline] using h
    exact ⟨htag, hnewline, htrimmed⟩
  | some found =>
    obtain rfl : found = (own, content) := by simpa [hline] using h
    obtain ⟨hown, hsuffix, hhead⟩ := isTag_of_tagLine? hline
    exact ⟨hown, fun hmem => hnewline (hsuffix.subset hmem), htrimmed.of_suffix hsuffix hhead⟩

theorem isEntry_entriesOf {tag : List Char} (htag : IsTag tag) {lines : List (List Char)}
    (hlines : ∀ line ∈ lines, '\n' ∉ line ∧ Trimmed line) :
    ∀ e ∈ entriesOf tag lines, IsEntry e := by
  induction lines generalizing tag with
  | nil => simp [entriesOf]
  | cons line lines ih =>
    obtain ⟨hnewline, htrimmed⟩ := hlines line List.mem_cons_self
    have hmore := fun line hmem => hlines line (List.mem_cons_of_mem _ hmem)
    rcases hread : (tagLine? line).getD (tag, line) with ⟨own, content⟩
    obtain ⟨hown, hfree, hends⟩ := isTag_step htag hnewline htrimmed hread
    simp only [entriesOf, hread]
    split
    · exact ih hown hmore
    next hne =>
      intro e he
      rcases List.mem_cons.mp he with rfl | he
      · constructor
        · simpa using hown
        · simpa using ⟨by simpa using hne, hfree, hends⟩
      · exact ih hown hmore e he

theorem mem_of_mem_bare {c : Char} {line : List Char} (h : c ∈ bare line) : c ∈ line :=
  Text.mem_of_mem_trim ((List.dropWhile_suffix _).subset (Text.mem_of_mem_trim h))

theorem isEntry_parse (text : String) : ∀ e ∈ (parse text).entries, IsEntry e := by
  rw [entries_parse]
  refine isEntry_entriesOf (by decide) fun line hline => ?_
  obtain ⟨hline, -⟩ := List.mem_filter.mp hline
  obtain ⟨raw, hraw, rfl⟩ := List.mem_map.mp hline
  refine ⟨fun hmem => ?_, Text.trimmed_trim _⟩
  exact (Text.mem_of_mem_pieces hraw (mem_of_mem_bare hmem)).2 rfl

theorem joined_eq_some_iff {texts : List String} {text : String} :
    joined texts = some text ↔ texts ≠ [] ∧ text = "\n".intercalate texts := by
  cases texts with
  | nil => simp [joined]
  | cons first texts => simp [joined, eq_comm]

theorem mem_linesOf {n : Natspec} {tag line : String} :
    line ∈ n.linesOf tag ↔ (tag, line) ∈ n.entries := by
  simp [linesOf]

theorem mem_entries_of_get? {n : Natspec} {tag text : String} (h : n.get? tag = some text) :
    ∃ lines, lines ≠ [] ∧ (∀ line ∈ lines, (tag, line) ∈ n.entries) ∧
      text = "\n".intercalate lines := by
  rw [get?_eq_joined] at h
  obtain ⟨hne, heq⟩ := joined_eq_some_iff.mp h
  exact ⟨n.linesOf tag, hne, fun line hline => mem_linesOf.mp hline, heq⟩

theorem isTagMap_get? (text : String) : IsTagMap (parse text).get? := by
  refine ⟨?_, ?_, ?_⟩
  · refine (List.finite_toSet (parse text).tags).subset fun tag htag => ?_
    by_contra hnot
    exact htag (by rw [get?_eq_joined, linesOf_eq_nil hnot, joined])
  · intro tag text h
    obtain ⟨lines, hne, hlines, -⟩ := mem_entries_of_get? h
    obtain ⟨line, hline⟩ := List.exists_mem_of_ne_nil lines hne
    exact (isEntry_parse _ _ (hlines line hline)).tag
  · intro tag text h
    obtain ⟨lines, hne, hlines, heq⟩ := mem_entries_of_get? h
    exact ⟨lines, hne, fun line hline => (isEntry_parse _ _ (hlines line hline)).line, heq⟩

def textLines : Option String → List String
  | none => []
  | some text => (Text.lines text.toList).map String.ofList

def printedLine (entry : String × String) : List Char :=
  '@' :: entry.1.toList ++ ' ' :: entry.2.toList

/-- The text has a line for each line of the map's texts, behind its tag. The tags may come in any
order, the lines of one tag keep theirs. -/
def Prints (m : String → Option String) (text : String) : Prop :=
  ∃ entries : List (String × String),
    (∀ tag, (Natspec.mk entries).linesOf tag = textLines (m tag)) ∧
      WrittenAs text.toList (entries.map printedLine)

def printed (m : String → Option String) (order : List String) : String :=
  "\n".intercalate (order.flatMap fun tag =>
    (textLines (m tag)).map fun line => "@" ++ tag ++ " " ++ line)

theorem textLines_intercalate {lines : List String} (hne : lines ≠ [])
    (h : ∀ line ∈ lines, IsLine line.toList) :
    textLines (some ("\n".intercalate lines)) = lines := by
  have hlines : Text.lines (['\n'].intercalate (lines.map String.toList)) =
      lines.map String.toList :=
    Text.lines_intercalate (by simpa using hne)
      (by simpa using fun line hline => (h line hline).newline)
  have hnewline : "\n".toList = ['\n'] := by decide
  simp [textLines, String.toList_intercalate, hnewline, hlines]

theorem joined_textLines {m : String → Option String} (h : IsTagMap m) (tag : String) :
    joined (textLines (m tag)) = m tag := by
  cases htext : m tag with
  | none => rfl
  | some text =>
    obtain ⟨lines, hne, hlines, rfl⟩ := h.exists_lines htext
    rw [textLines_intercalate hne hlines]
    exact joined_eq_some_iff.mpr ⟨hne, rfl⟩

theorem tagLine?_printedLine {e : String × String} (h : IsEntry e) :
    tagLine? (printedLine e) = some (e.1.toList, e.2.toList) := by
  -- the space ends the tag, and only it is trimmed from the line
  have hblank : Text.isBlank ' ' = true ∧ Text.isWord ' ' = false := by decide
  have htake : (e.1.toList ++ ' ' :: e.2.toList).takeWhile Text.isWord = e.1.toList := by
    simp [List.takeWhile_append_of_pos h.tag.word, hblank]
  have hdrop : (e.1.toList ++ ' ' :: e.2.toList).dropWhile Text.isWord = ' ' :: e.2.toList := by
    simp [List.dropWhile_append_of_pos h.tag.word, hblank]
  have htrim : Text.trimStart (' ' :: e.2.toList) = e.2.toList := by
    rw [Text.trimStart, List.dropWhile_cons_of_pos hblank.1]
    exact Text.trimStart_of_head h.line.trimmed.head
  have hne : e.1.toList.isEmpty = false := by simpa using h.tag.ne_nil
  simp only [printedLine, List.cons_append, tagLine?, htake, hdrop, htrim, hne, Bool.false_eq_true,
    if_false]

theorem bare_printedLine {e : String × String} (h : IsEntry e) :
    bare (printedLine e) = printedLine e := by
  have htrimmed : Trimmed (printedLine e) := by
    constructor
    · rintro c hc
      obtain rfl : '@' = c := by simpa [printedLine] using hc
      decide
    · have hlast : (printedLine e).getLast? = e.2.toList.getLast? := by
        have hsplit : printedLine e = ('@' :: e.1.toList ++ [' ']) ++ e.2.toList := by
          simp [printedLine]
        rw [hsplit, List.getLast?_append_of_ne_nil _ h.line.ne_nil]
      rw [hlast]
      exact h.line.trimmed.last
  have hbare := bare_of_decorates (.refl (printedLine e))
  rw [htrimmed.trim_eq] at hbare
  exact hbare (by simp [printedLine])

theorem entriesOf_printedLines {entries : List (String × String)} (h : ∀ e ∈ entries, IsEntry e)
    (tag : List Char) : entriesOf tag (contents (entries.map printedLine)) = entries := by
  induction entries generalizing tag with
  | nil => rfl
  | cons e entries ih =>
    have he := h e List.mem_cons_self
    -- each line has a tag of its own, so it does not matter which one was there before
    have hmore := ih (fun e he => h e (List.mem_cons_of_mem _ he)) e.1.toList
    have hcontents : contents ((e :: entries).map printedLine) =
        printedLine e :: contents (entries.map printedLine) := by
      rw [contents, List.map_cons, List.map_cons, bare_printedLine he,
        List.filter_cons_of_pos (by simp [printedLine]), contents]
    rw [hcontents, entriesOf, tagLine?_printedLine he]
    simp [he.line.ne_nil, hmore]

theorem linesOf_flatMap {order : List String} (h : order.Nodup) (lines : String → List String)
    (tag : String) :
    (Natspec.mk (order.flatMap fun t => (lines t).map (t, ·))).linesOf tag =
      if tag ∈ order then lines tag else [] := by
  induction order with
  | nil => rfl
  | cons first order ih =>
    obtain ⟨hfirst, horder⟩ := List.nodup_cons.mp h
    have hsplit :
        (Natspec.mk ((first :: order).flatMap fun t => (lines t).map (t, ·))).linesOf tag =
          (Natspec.mk ((lines first).map (first, ·))).linesOf tag ++
            if tag ∈ order then lines tag else [] := by
      rw [← ih horder]
      simp [linesOf]
    rw [hsplit]
    -- a tag's lines come from its one place in the order
    by_cases htag : first = tag
    · subst htag
      simp [linesOf, List.filter_map, Function.comp_def, hfirst]
    · simp [linesOf, htag, Ne.symm htag]

theorem isEntry_of_linesOf {m : String → Option String} (h : IsTagMap m)
    {entries : List (String × String)}
    (hentries : ∀ tag, (Natspec.mk entries).linesOf tag = textLines (m tag)) :
    ∀ e ∈ entries, IsEntry e := by
  rintro ⟨tag, line⟩ he
  have hmem : line ∈ textLines (m tag) := by
    rw [← hentries]
    exact mem_linesOf.mpr he
  cases htext : m tag with
  | none => simp [htext, textLines] at hmem
  | some text =>
    obtain ⟨lines, hne, hlines, rfl⟩ := h.exists_lines htext
    rw [htext, textLines_intercalate hne hlines] at hmem
    exact ⟨h.isTag htext, hlines line hmem⟩

theorem get?_of_prints {m : String → Option String} (h : IsTagMap m) {text : String}
    (hprints : Prints m text) : (parse text).get? = m := by
  obtain ⟨entries, hentries, htext⟩ := hprints
  funext tag
  rw [parse_of_writtenAs htext, entriesOf_printedLines (isEntry_of_linesOf h hentries),
    get?_eq_joined, hentries, joined_textLines h]

theorem newline_notMem_printedLine {e : String × String} (h : IsEntry e) :
    '\n' ∉ printedLine e := by
  have htag : '\n' ∉ e.1.toList := fun hmem => absurd (h.tag.word '\n' hmem) (by decide)
  simp [printedLine, htag, h.line.newline]

theorem prints_printed {m : String → Option String} (h : IsTagMap m) {order : List String}
    (hnodup : order.Nodup) (horder : ∀ tag, tag ∈ order ↔ m tag ≠ none) :
    Prints m (printed m order) := by
  have hentries (tag : String) :
      (Natspec.mk (order.flatMap fun t => (textLines (m t)).map (t, ·))).linesOf tag =
        textLines (m tag) := by
    rw [linesOf_flatMap hnodup]
    split
    · rfl
    next hnot =>
      obtain hnone : m tag = none := by simpa [horder] using hnot
      rw [hnone, textLines]
  refine ⟨_, hentries, ?_⟩
  have htext : (printed m order).toList = ['\n'].intercalate
      ((order.flatMap fun t => (textLines (m t)).map (t, ·)).map printedLine) := by
    have hnewline : "\n".toList = ['\n'] := by decide
    simp [printed, String.toList_intercalate, hnewline, List.map_flatMap, printedLine,
      Function.comp_def]
  rw [htext]
  refine Text.writtenAs_intercalate fun line hline => ?_
  obtain ⟨e, he, rfl⟩ := List.mem_map.mp hline
  exact newline_notMem_printedLine (isEntry_of_linesOf h hentries e he)

theorem exists_order {m : String → Option String} (h : IsTagMap m) :
    ∃ order : List String, order.Nodup ∧ ∀ tag, tag ∈ order ↔ m tag ≠ none :=
  ⟨h.finite.toFinset.toList, h.finite.toFinset.nodup_toList, by simp⟩

/-- Reading gives exactly the finite maps from tags to texts made of lines, and it gives each of
them back from any print of it. -/
theorem parse_gives_back_prints :
    (∀ m : String → Option String, (∃ text, (parse text).get? = m) ↔ IsTagMap m) ∧
    (∀ m : String → Option String, IsTagMap m →
      (∀ order : List String, order.Nodup → (∀ tag, tag ∈ order ↔ m tag ≠ none) →
        Prints m (printed m order)) ∧
      ∀ text, Prints m text → (parse text).get? = m) ∧
    ∀ source text, Prints (parse source).get? text → (parse text).get? = (parse source).get? := by
  refine ⟨fun m => ⟨?_, ?_⟩, fun m h => ⟨?_, ?_⟩, ?_⟩
  · rintro ⟨text, rfl⟩
    exact isTagMap_get? text
  · intro h
    obtain ⟨order, hnodup, horder⟩ := exists_order h
    exact ⟨printed m order, get?_of_prints h (prints_printed h hnodup horder)⟩
  · intro order hnodup horder
    exact prints_printed h hnodup horder
  · intro text hprints
    exact get?_of_prints h hprints
  · intro source text hprints
    exact get?_of_prints (isTagMap_get? source) hprints

def markedLines (tag : String) : Option String :=
  if tag = "dev" then some "@see\n* Sorted" else none

theorem parse_gives_back_markedLines :
    IsTagMap markedLines ∧ printed markedLines ["dev"] = "@dev @see\n@dev * Sorted" ∧
      (parse "@dev @see\n@dev * Sorted").get? = markedLines := by
  have hmap : IsTagMap markedLines := by
    refine ⟨(Set.finite_singleton "dev").subset ?_, ?_, ?_⟩
    · intro tag htag
      by_contra hne
      exact htag (if_neg hne)
    · intro tag text h
      obtain ⟨rfl, -⟩ := by simpa [markedLines] using h
      decide
    · intro tag text h
      obtain ⟨rfl, rfl⟩ := by simpa [markedLines] using h
      exact ⟨["@see", "* Sorted"], by decide, by decide, by decide⟩
  have hprinted : printed markedLines ["dev"] = "@dev @see\n@dev * Sorted" := by decide
  have horder (tag : String) : tag ∈ ["dev"] ↔ markedLines tag ≠ none := by simp [markedLines]
  obtain ⟨hprints, hback⟩ := parse_gives_back_prints.2.1 markedLines hmap
  exact ⟨hmap, hprinted, hback _ (hprinted ▸ hprints ["dev"] (by decide) horder)⟩

end Natspec

end ContractDocs
