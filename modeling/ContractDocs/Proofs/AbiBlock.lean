import ContractDocs.Proofs.CommentLines
import ContractDocs.Proofs.JsonReadBack
import ContractDocs.Proofs.LinkLines
import ContractDocs.Proofs.TemplateFilling

/-! The block of a page that shows an ABI. Tidying a page shortens long runs of newlines and takes
white space off the ends. The block has no such runs and no white space at its ends, so it stands on
the page as it was put in, and the ABI can be read back from it. -/

namespace ContractDocs

namespace Text

/-- A piece that no newline is taken out of, whatever stands around it. -/
def Kept (cs : List Char) : Prop :=
  ∀ run rest, thinAfter run (cs ++ rest) = cs ++ thinAfter 0 rest

/-- What tidying leaves of the text in front of a piece that it keeps. -/
def tidyBefore (text : String) : String :=
  String.ofList (trimStart (thinAfter 0 text.toList))

def tidyAfter (text : String) : String :=
  String.ofList (trimEnd (thinAfter 0 text.toList))

namespace Kept

variable {a b : List Char}

theorem of_ne {c : Char} (hc : c ≠ '\n') : Kept [c] := by
  intro run rest
  rw [List.singleton_append, thinAfter, if_neg hc, List.singleton_append]

theorem append (ha : Kept a) (hb : Kept b) : Kept (a ++ b) := by
  intro run rest
  rw [List.append_assoc, ha, hb, List.append_assoc]

theorem cons {c : Char} (hc : c ≠ '\n') (hb : Kept b) : Kept (c :: b) :=
  (of_ne hc).append hb

theorem of_notMem (hne : a ≠ []) (h : '\n' ∉ a) : Kept a := by
  induction a with
  | nil => contradiction
  | cons c a ih =>
    have hc : c ≠ '\n' := fun heq => h (heq ▸ List.mem_cons_self)
    by_cases hnil : a = []
    · rw [hnil]
      exact of_ne hc
    · exact cons hc (ih hnil (List.not_mem_of_not_mem_cons h))

theorem lineBreak (ha : Kept a) (hb : Kept b) : Kept (a ++ '\n' :: b) := by
  intro run rest
  have hbreak : thinAfter 0 ('\n' :: (b ++ rest)) = '\n' :: thinAfter 1 (b ++ rest) := rfl
  rw [List.append_assoc, ha, List.cons_append, hbreak, hb, List.append_assoc, List.cons_append]

theorem blankLine (ha : Kept a) (hb : Kept b) : Kept (a ++ '\n' :: '\n' :: b) := by
  intro run rest
  have hbreaks : thinAfter 0 ('\n' :: '\n' :: (b ++ rest)) =
      '\n' :: '\n' :: thinAfter 2 (b ++ rest) := rfl
  rw [List.append_assoc, ha, List.cons_append, List.cons_append, hbreaks, hb]
  simp only [List.append_assoc, List.cons_append]

theorem newline (ha : Kept a) (depth : Nat) (hb : Kept b) :
    Kept (a ++ (Json.newline depth ++ b)) := by
  have hspaces (n : Nat) : Kept (List.replicate n ' ' ++ b) := by
    induction n with
    | zero => exact hb
    | succ n ih => exact cons (by decide) ih
  exact ha.lineBreak (hspaces _)

theorem listed (ha : Kept a) (depth : Nat) {texts : List (List Char)}
    (htexts : ∀ text ∈ texts, Kept text) : Kept (a ++ Json.listed depth texts) := by
  induction texts generalizing a with
  | nil => rwa [Json.listed, List.flatMap_nil, List.append_nil]
  | cons text texts ih =>
    obtain ⟨htext, hmore⟩ := List.forall_mem_cons.mp htexts
    have hcomma := ha.append (of_ne (by decide : ',' ≠ '\n'))
    have hnext := ih (hcomma.newline depth htext) hmore
    rw [Json.listed_cons]
    simpa only [List.append_assoc, List.cons_append, List.nil_append] using hnext

theorem enclosed {first last : Char} (hfirst : first ≠ '\n') (hlast : last ≠ '\n') (depth : Nat)
    {text : List Char} {texts : List (List Char)} (htexts : ∀ t ∈ text :: texts, Kept t) :
    Kept (first :: (Json.newline (depth + 1) ++ (text ++ (Json.listed (depth + 1) texts ++
      (Json.newline depth ++ [last]))))) := by
  obtain ⟨htext, hmore⟩ := List.forall_mem_cons.mp htexts
  have hopened := (of_ne hfirst).newline (depth + 1) htext
  have hclosed := (hopened.listed (depth + 1) hmore).newline depth (of_ne hlast)
  simpa only [List.append_assoc, List.cons_append, List.nil_append] using hclosed

theorem thinAfter_around (hb : Kept b) (run : Nat) (before after : List Char) :
    thinAfter run (before ++ (b ++ after)) = thinAfter run before ++ (b ++ thinAfter 0 after) := by
  induction before generalizing run with
  | nil => exact hb run after
  | cons c before ih =>
    rw [List.cons_append, thinAfter, thinAfter]
    split
    · split
      · rw [ih, List.cons_append]
      · exact ih run
    · rw [ih, List.cons_append]

end Kept

theorem trimStart_append_of_head {cs : List Char} (h : ∀ c ∈ cs.head?, isBlank c = false)
    (before : List Char) : trimStart (before ++ cs) = trimStart before ++ cs := by
  have hcs := trimStart_of_head h
  unfold trimStart at hcs ⊢
  rw [List.dropWhile_append, hcs]
  split
  · next hempty => rw [List.isEmpty_iff.mp hempty, List.nil_append]
  · rfl

theorem trimEnd_append_of_last {cs : List Char} (h : ∀ c ∈ cs.getLast?, isBlank c = false)
    (after : List Char) : trimEnd (cs ++ after) = cs ++ trimEnd after := by
  have hreverse : ∀ c ∈ cs.reverse.head?, isBlank c = false := by
    rwa [List.head?_reverse]
  have hstart := trimStart_append_of_head hreverse after.reverse
  unfold trimStart at hstart
  rw [trimEnd, trimEnd, List.reverse_append, hstart, List.reverse_append, List.reverse_reverse]

theorem Trimmed.trim_around {block : List Char} (h : Trimmed block) (hne : block ≠ [])
    (before after : List Char) :
    trim (before ++ (block ++ after)) = trimStart before ++ (block ++ trimEnd after) := by
  have hhead : ∀ c ∈ (block ++ after).head?, isBlank c = false := by
    rw [List.head?_append_of_ne_nil _ hne]
    exact h.head
  have hlast : ∀ c ∈ (trimStart before ++ block).getLast?, isBlank c = false := by
    rw [List.getLast?_append_of_ne_nil _ hne]
    exact h.last
  rw [trim, trimStart_append_of_head hhead, ← List.append_assoc, trimEnd_append_of_last hlast,
    List.append_assoc]

/-- Tidying works on the text on both sides of such a piece, and not on the piece. -/
theorem tidy_around {block : String} (hne : block ≠ "") (hkept : Kept block.toList)
    (htrimmed : Trimmed block.toList) (before after : String) :
    tidy (before ++ block ++ after) = tidyBefore before ++ block ++ tidyAfter after ++ "\n" := by
  have hlist : block.toList ≠ [] := mt String.toList_eq_nil_iff.mp hne
  have htext : (before ++ block ++ after).toList =
      before.toList ++ (block.toList ++ after.toList) := by simp
  rw [tidy, htext, hkept.thinAfter_around, htrimmed.trim_around hlist]
  simp [tidyBefore, tidyAfter, String.append_assoc]

end Text

namespace Json

theorem isNull_of_ne {v : Json} (h : v ≠ .null) : v.isNull = false := by
  cases v with
  | null => contradiction
  | _ => rfl

theorem newline_notMem_natDigits (n : Nat) : '\n' ∉ natDigits n := by
  intro hmem
  exact absurd (isDigit_natDigits hmem) (by decide)

theorem newline_notMem_intDigits (n : Int) : '\n' ∉ intDigits n := by
  unfold intDigits
  split
  · simp [newline_notMem_natDigits]
  · exact newline_notMem_natDigits _

theorem newline_notMem_escapeChar (c : Char) : '\n' ∉ escapeChar c := by
  have hwritten := writtenChar_escapeChar c
  have hhex : ∀ n < 16, hexDigit n ≠ '\n' := by decide
  generalize escapeChar c = text at hwritten ⊢
  cases hwritten with
  | @short e _ he =>
    have hne : e ≠ '\n' := by
      rintro rfl
      cases he
    simp [hne.symm]
  | hex hcontrol =>
    have hhigh := hhex (c.toNat / 16) (by omega)
    have hlow := hhex (c.toNat % 16) (by omega)
    simp [hhigh.symm, hlow.symm]
  | plain _ _ hcontrol =>
    rw [List.mem_singleton]
    rintro rfl
    exact hcontrol (by decide)

theorem newline_notMem_quote (s : String) : '\n' ∉ quote s := by
  simp [quote, newline_notMem_escapeChar]

theorem Exact.kept {room : Nat} {v : Json} (h : v.Exact room) (depth : Nat) :
    Text.Kept (pretty depth v) := by
  induction h generalizing depth with
  | null => exact .of_notMem (a := compact .null) (by decide) (by decide)
  | @bool _ b => cases b <;> exact .of_notMem (a := compact (.bool _)) (by decide) (by decide)
  | @int _ n =>
    obtain ⟨c, cs, hcs, _⟩ := exists_intDigits n
    exact .of_notMem (List.ne_nil_of_mem (hcs ▸ List.mem_cons_self)) (newline_notMem_intDigits n)
  | string => exact .of_notMem (List.cons_ne_nil _ _) (newline_notMem_quote _)
  | @array _ items _ ih =>
    cases items with
    | nil => exact .of_notMem (a := compact (.array [])) (by decide) (by decide)
    | cons v items =>
      have hitems : ∀ t ∈ (v :: items).map (pretty (depth + 1)), Text.Kept t := by
        intro t ht
        obtain ⟨w, hw, rfl⟩ := List.mem_map.mp ht
        exact ih w hw _
      have hall := Text.Kept.enclosed (by decide : '[' ≠ '\n') (by decide : ']' ≠ '\n') depth hitems
      simpa [pretty, prettyItems_eq_listed] using hall
  | @object _ members _ ih =>
    cases members with
    | nil => exact .of_notMem (a := compact (.object [])) (by decide) (by decide)
    | cons m members =>
      have hmembers : ∀ t ∈ (m :: members).map (memberText (depth + 1)), Text.Kept t := by
        intro t ht
        obtain ⟨p, hp, rfl⟩ := List.mem_map.mp ht
        have hkey : Text.Kept (quote p.1) :=
          .of_notMem (List.cons_ne_nil _ _) (newline_notMem_quote _)
        exact hkey.append (.cons (by decide) (.cons (by decide) (ih p hp _)))
      have hall := Text.Kept.enclosed (by decide : '\x7b' ≠ '\n') (by decide : '\x7d' ≠ '\n') depth
        hmembers
      simpa [pretty, prettyMembers_eq_listed, memberText] using hall

end Json

namespace Site

/-- The page before its last value is put in. -/
def draft (site : Site) (c : Contract) : String :=
  fill site.template (site.values c).dropLast

/-- The ABI as it stands on a page: printed between fences, under a heading. -/
def abiBlock (abi : Json) : String :=
  "\n".intercalate ["## ABI", "", "```json", abi.prettyText, "```"]

theorem toList_abiBlock (abi : Json) :
    (abiBlock abi).toList = "## ABI".toList ++ '\n' :: '\n' ::
      ("```json".toList ++ '\n' :: (abi.pretty 0 ++ '\n' :: "```".toList)) := by
  simp [abiBlock, Json.prettyText]

theorem kept_abiBlock {abi : Json} {room : Nat} (h : abi.Exact room) :
    Text.Kept (abiBlock abi).toList := by
  have hheading : Text.Kept "## ABI".toList := .of_notMem (by decide) (by decide)
  have hopened : Text.Kept "```json".toList := .of_notMem (by decide) (by decide)
  have hclosed : Text.Kept "```".toList := .of_notMem (by decide) (by decide)
  have hall := ((hheading.blankLine hopened).lineBreak (h.kept 0)).lineBreak hclosed
  rw [toList_abiBlock]
  simpa only [List.append_assoc, List.cons_append] using hall

theorem trimmed_abiBlock (abi : Json) : Text.Trimmed (abiBlock abi).toList := by
  have hends : Text.isBlank '#' = false ∧ Text.isBlank '`' = false := by decide
  obtain ⟨front, hfront⟩ : ∃ front, (abiBlock abi).toList = front ++ '\n' :: "```".toList := by
    rw [toList_abiBlock]
    simp only [← List.cons_append, ← List.append_assoc]
    exact ⟨_, rfl⟩
  constructor
  · simp [toList_abiBlock, hends]
  · simp [hfront, hends]

/-- Each place for the ABI, wherever the template or a value that is put in before has one, holds
the block as it is, and the page around it is tidied. -/
theorem render_around {site : Site} {c : Contract} (hshown : site.settings.output.includeAbi = true)
    (habi : c.abi ≠ .null) (hexact : c.abi.Exact Json.maxDepth) {before after : String}
    (hdraft : site.draft c = before ++ placeholder "ABI" ++ after) :
    site.render c =
      Text.tidyBefore (Text.replace before (placeholder "ABI") (abiBlock c.abi)) ++
        abiBlock c.abi ++
        Text.tidyAfter (Text.replace after (placeholder "ABI") (abiBlock c.abi)) ++ "\n" := by
  have hapart : Text.Apart [(placeholder "ABI").toList] :=
    apart_placeholders ["ABI"] (by simp)
  have hsection : c.abiSection site = abiBlock c.abi := by
    simp [Contract.abiSection, hshown, Json.isNull_of_ne habi, abiBlock, ← String.toList_inj]
  have hfill : fill site.template (site.values c) =
      Text.replace before (placeholder "ABI") (abiBlock c.abi) ++ abiBlock c.abi ++
        Text.replace after (placeholder "ABI") (abiBlock c.abi) := by
    calc fill site.template (site.values c)
        = Text.replace (site.draft c) (placeholder "ABI") (abiBlock c.abi) := by
          rw [← hsection]
          rfl
      _ = _ := by
          rw [hdraft, Text.replace]
          simp [Text.replace, hapart.replaceFrom_around, String.append_assoc]
  have hne : abiBlock c.abi ≠ "" := by simp [abiBlock]
  rw [render, hfill, Text.tidy_around hne (kept_abiBlock hexact) (trimmed_abiBlock _)]

/-- A page on which the ABI is shown has it in one piece, in each place for it. Tidying stays on
the outside, and the ABI is read back from what is printed. The page has the overrides by
`overrideClosure`, so where these form a cycle, and walking them never ends, nothing is said about
a page. -/
theorem render_keeps_abi (site : Site) (c : Contract)
    (hshown : site.settings.output.includeAbi = true) (habi : c.abi ≠ .null)
    (hexact : c.abi.Exact Json.maxDepth)
    (hplace : Text.Holds (site.draft c) (placeholder "ABI")) :
    Text.Holds (site.render c) (abiBlock c.abi) ∧
      (∀ before after, site.draft c = before ++ placeholder "ABI" ++ after →
        site.render c =
          Text.tidyBefore (Text.replace before (placeholder "ABI") (abiBlock c.abi)) ++
            abiBlock c.abi ++
            Text.tidyAfter (Text.replace after (placeholder "ABI") (abiBlock c.abi)) ++ "\n") ∧
      Json.parse c.abi.prettyText = .ok c.abi := by
  have haround := fun before after => @render_around site c hshown habi hexact before after
  refine ⟨?_, haround, Json.parse_prettyText hexact⟩
  obtain ⟨before, after, hdraft⟩ := hplace
  exact ⟨_, _, (haround before after hdraft).trans (String.append_assoc ..)⟩

/-- An ABI with a line break, a quote and a place for itself in its strings. -/
def quotingAbi : Json :=
  .array [.object [
    ("name", .string ("say\n\n\n\"hi\"" ++ placeholder "ABI")), ("limit", .int (-1)),
    ("inputs", .array [])]]

def quoting : Contract where
  contractName := "Vault"
  ast := {}
  abi := quotingAbi

def quotingSite : Site where
  contracts := [quoting]
  settings := { output := { includeAbi := true } }
  template := "\n\n\n" ++ placeholder "ABI" ++ "\n\n\n\nEnd"

theorem quotingAbi_exact : quotingAbi.Exact Json.maxDepth := by
  refine .array (List.forall_mem_singleton.mpr (.object ?_))
  simp only [List.forall_mem_cons]
  exact ⟨.string, .int ⟨by decide, by decide⟩, .array (List.forall_mem_nil _),
    List.forall_mem_nil _⟩

theorem render_keeps_abi_quoting :
    quotingAbi.Exact Json.maxDepth ∧
      Text.Holds (quotingSite.render quoting) (abiBlock quotingAbi) ∧
      Json.parse quotingAbi.prettyText = .ok quotingAbi := by
  have hplace : Text.Holds (quotingSite.draft quoting) (placeholder "ABI") :=
    Text.contains_iff.mp (by decide +kernel)
  have hall := render_keeps_abi quotingSite quoting rfl (by rintro ⟨⟩) quotingAbi_exact hplace
  exact ⟨quotingAbi_exact, hall.1, hall.2.2⟩

end Site

end ContractDocs
