import ContractDocs.Proofs.CommentLines
import Mathlib.Data.List.Perm.Basic
import Mathlib.Data.List.ReduceOption

/-! Comments that are joined. A block that starts with a tag is read the same behind any text, so
blocks with tags of their own may come in any order. -/

namespace ContractDocs.Natspec

def IsTagLine (line : List Char) : Prop :=
  ∃ c rest, line = '@' :: c :: rest ∧ Text.isWord c = true

theorem isSome_tagLine?_iff {line : List Char} :
    (tagLine? line).isSome = true ↔ IsTagLine line := by
  constructor
  · intro h
    unfold tagLine? at h
    split at h
    next rest =>
      cases rest with
      | nil => simp at h
      | cons c rest =>
        by_cases hc : Text.isWord c = true
        · exact ⟨c, rest, rfl, hc⟩
        · simp [hc] at h
    · simp at h
  · rintro ⟨c, rest, rfl, hc⟩
    simp [tagLine?, hc]

instance (line : List Char) : Decidable (IsTagLine line) :=
  decidable_of_iff _ isSome_tagLine?_iff

/-- The first line that is read has a tag, unless none is read. -/
def StartsWithTag (text : String) : Prop :=
  ∀ line ∈ (contents (Text.lines text.toList)).head?, IsTagLine line

instance (text : String) : Decidable (StartsWithTag text) :=
  inferInstanceAs (Decidable (∀ line ∈ (contents (Text.lines text.toList)).head?, IsTagLine line))

/-- Texts with newlines between them, if there are any. -/
def joined : List String → Option String
  | [] => none
  | texts => some ("\n".intercalate texts)

/-- The tag that the next line continues. -/
def tagAfter (tag : List Char) (lines : List (List Char)) : List Char :=
  lines.foldl (fun tag line => ((tagLine? line).getD (tag, line)).1) tag

theorem entriesOf_append (tag : List Char) (lines more : List (List Char)) :
    entriesOf tag (lines ++ more) = entriesOf tag lines ++ entriesOf (tagAfter tag lines) more := by
  induction lines generalizing tag with
  | nil => rfl
  | cons line lines ih =>
    simp only [List.cons_append, entriesOf, ih, tagAfter, List.foldl_cons]
    split
    · rfl
    · rfl

/-- Behind a tag it does not matter which tag was there before. -/
theorem entriesOf_of_tagLine {lines : List (List Char)} (h : ∀ line ∈ lines.head?, IsTagLine line)
    (tag other : List Char) : entriesOf tag lines = entriesOf other lines := by
  cases lines with
  | nil => rfl
  | cons line lines =>
    have hsome := isSome_tagLine?_iff.mpr (h line rfl)
    obtain ⟨⟨own, content⟩, hline⟩ := Option.isSome_iff_exists.mp hsome
    simp only [entriesOf, hline, Option.getD_some]

theorem contents_joined (a b : String) :
    contents (Text.lines (a ++ "\n" ++ b).toList) =
      contents (Text.lines a.toList) ++ contents (Text.lines b.toList) := by
  rw [← contents_append, Text.lines, Text.lines, Text.lines, ← Text.pieces_append]
  simp

theorem entries_parse (text : String) :
    (parse text).entries = entriesOf "notice".toList (contents (Text.lines text.toList)) := by
  rw [parse_of_writtenAs (Text.writtenAs_lines text.toList)]

theorem entries_joined (a : String) {b : String} (hb : StartsWithTag b) :
    (parse (a ++ "\n" ++ b)).entries = (parse a).entries ++ (parse b).entries := by
  simp only [entries_parse, contents_joined, entriesOf_append]
  rw [entriesOf_of_tagLine hb]

theorem StartsWithTag.joined {a b : String} (ha : StartsWithTag a) (hb : StartsWithTag b) :
    StartsWithTag (a ++ "\n" ++ b) := by
  intro line hline
  rw [contents_joined, List.head?_append, Option.mem_def, Option.or_eq_some_iff] at hline
  rcases hline with hline | ⟨-, hline⟩
  · exact ha line hline
  · exact hb line hline

theorem startsWithTag_intercalate {blocks : List String} (h : ∀ b ∈ blocks, StartsWithTag b) :
    StartsWithTag ("\n".intercalate blocks) := by
  induction blocks with
  | nil =>
    have hnone : contents (Text.lines []) = [] := by decide
    simp [StartsWithTag, hnone]
  | cons b blocks ih =>
    have hb := h b List.mem_cons_self
    by_cases hnil : blocks = []
    · simpa [hnil] using hb
    · rw [String.intercalate_cons_of_ne_nil hnil]
      exact hb.joined (ih fun c hc => h c (List.mem_cons_of_mem b hc))

theorem entries_blocks {blocks : List String} (h : ∀ b ∈ blocks, StartsWithTag b) :
    (parse ("\n".intercalate blocks)).entries = blocks.flatMap fun b => (parse b).entries := by
  induction blocks with
  | nil => decide
  | cons b blocks ih =>
    have hblocks (c : String) (hc : c ∈ blocks) := h c (List.mem_cons_of_mem b hc)
    by_cases hnil : blocks = []
    · simp [hnil]
    · rw [String.intercalate_cons_of_ne_nil hnil,
        entries_joined b (startsWithTag_intercalate hblocks), ih hblocks, List.flatMap_cons]

theorem get?_eq_joined (n : Natspec) (tag : String) : n.get? tag = joined (n.linesOf tag) := by
  unfold get? joined
  cases n.linesOf tag with
  | nil => rfl
  | cons line lines => rfl

theorem joined_append (texts more : List String) :
    joined (texts ++ more) = joined [joined texts, joined more].reduceOption := by
  cases texts with
  | nil => cases more <;> simp [joined]
  | cons text texts =>
    cases more with
    | nil => simp [joined]
    | cons next more =>
      have h : "\n".intercalate (text :: texts ++ next :: more) =
          "\n".intercalate (text :: texts) ++ "\n" ++ "\n".intercalate (next :: more) :=
        String.intercalate_append_of_ne_nil (List.cons_ne_nil _ _) (List.cons_ne_nil _ _)
      simpa [joined] using h

theorem linesOf_eq_nil {n : Natspec} {tag : String} (h : tag ∉ n.tags) : n.linesOf tag = [] := by
  simp only [linesOf, List.map_eq_nil_iff, List.filter_eq_nil_iff, beq_iff_eq]
  rintro entry hentry rfl
  exact h (List.mem_map_of_mem hentry)

theorem flatMap_eq_of_perm {α β : Type} {f : α → List β} {xs ys : List α} (h : xs.Perm ys)
    (hxs : xs.Pairwise fun a b => f a = [] ∨ f b = []) : xs.flatMap f = ys.flatMap f := by
  induction h with
  | nil => rfl
  | cons a _ ih => rw [List.flatMap_cons, List.flatMap_cons, ih (List.pairwise_cons.mp hxs).2]
  | swap a b xs =>
    rcases (List.pairwise_cons.mp hxs).1 a List.mem_cons_self with hb | ha
    · simp [hb]
    · simp [ha]
  | trans hxy _ ihxy ihyz => exact (ihxy hxs).trans (ihyz (hxs.perm hxy Or.symm))

theorem linesOf_blocks {blocks : List String} (h : ∀ b ∈ blocks, StartsWithTag b) (tag : String) :
    (parse ("\n".intercalate blocks)).linesOf tag =
      blocks.flatMap fun b => (parse b).linesOf tag := by
  simp only [linesOf, entries_blocks h, List.filter_flatMap, List.map_flatMap]

/-- A text in front of a block that starts with a tag adds to its tags, and blocks of that kind
that share no tags can be put in any order. -/
theorem get?_of_joined_blocks :
    (∀ a b : String, StartsWithTag b → ∀ tag, (parse (a ++ "\n" ++ b)).get? tag =
      joined [(parse a).get? tag, (parse b).get? tag].reduceOption) ∧
    ∀ blocks others : List String, blocks.Perm others → (∀ b ∈ blocks, StartsWithTag b) →
      blocks.Pairwise (fun a b => ∀ tag ∈ (parse a).tags, tag ∉ (parse b).tags) →
      ∀ tag, (parse ("\n".intercalate blocks)).get? tag =
        (parse ("\n".intercalate others)).get? tag := by
  constructor
  · intro a b hb tag
    have hlines : (parse (a ++ "\n" ++ b)).linesOf tag =
        (parse a).linesOf tag ++ (parse b).linesOf tag := by
      simp [linesOf, entries_joined a hb]
    simp only [get?_eq_joined, hlines, joined_append]
  · intro blocks others hperm hblocks hdisjoint tag
    have hothers : ∀ b ∈ others, StartsWithTag b := fun b hb => hblocks b (hperm.mem_iff.mpr hb)
    -- at most one block has lines of this tag
    have honly : blocks.Pairwise fun a b =>
        (parse a).linesOf tag = [] ∨ (parse b).linesOf tag = [] := by
      refine hdisjoint.imp fun {a b} hab => ?_
      by_cases ha : tag ∈ (parse a).tags
      · exact .inr (linesOf_eq_nil (hab tag ha))
      · exact .inl (linesOf_eq_nil ha)
    rw [get?_eq_joined, get?_eq_joined, linesOf_blocks hblocks, linesOf_blocks hothers,
      flatMap_eq_of_perm hperm honly]

theorem get?_of_joined_blocks_transfer :
    StartsWithTag " * \n * @dev\n * @notice Twice." ∧
    (parse ("Moves tokens.\r" ++ "\n" ++ " * \n * @dev\n * @notice Twice.")).get? "notice" =
      some "Moves tokens.\nTwice." ∧
    ∀ tag, (parse "@dev Sorted\n by name\n@title Token\n@dev\n@notice Pays").get? tag =
      (parse "@dev\n@notice Pays\n@title Token\n@dev Sorted\n by name").get? tag := by
  have hstarts : StartsWithTag " * \n * @dev\n * @notice Twice." := by decide
  refine ⟨hstarts, ?_, ?_⟩
  · rw [get?_of_joined_blocks.1 _ _ hstarts]
    decide
  · exact get?_of_joined_blocks.2 ["@dev Sorted\n by name", "@title Token", "@dev\n@notice Pays"]
      ["@dev\n@notice Pays", "@title Token", "@dev Sorted\n by name"] (by decide) (by decide)
      (by decide)

end ContractDocs.Natspec
