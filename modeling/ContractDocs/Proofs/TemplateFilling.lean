import ContractDocs.Page
import Mathlib.Data.List.Infix

/-! Filling values into a template one after the other, compared with one pass that fills in
all of them. The two differ when a value brings, or completes with the text around it, a place
for a later value. -/

namespace ContractDocs

namespace Text

/-- Replaces several pieces in one pass from left to right; what is put in is not looked at.
The next `skip` characters belong to a piece that is already replaced. -/
def replaceEachFrom (values : List (List Char × List Char)) (skip : Nat) : List Char → List Char
  | [] => []
  | c :: rest =>
    match skip with
    | more + 1 => replaceEachFrom values more rest
    | 0 =>
      match values.find? (·.1.isPrefixOf (c :: rest)) with
      | some (piece, value) => value ++ replaceEachFrom values (piece.length - 1) rest
      | none => c :: replaceEachFrom values 0 rest

def replaceEach (values : List (List Char × List Char)) (text : List Char) : List Char :=
  replaceEachFrom values 0 text

def count (piece : List Char) : List Char → Nat
  | [] => 0
  | c :: rest =>
    if piece.isPrefixOf (c :: rest) then count piece rest + 1 else count piece rest

/-- No piece begins inside another one, and two that begin at one place are the same. -/
structure Apart (pieces : List (List Char)) : Prop where
  ne_nil : ∀ p ∈ pieces, p ≠ []
  eq_of_prefix : ∀ p ∈ pieces, ∀ q ∈ pieces, ∀ a b rest, p = a ++ b → b ≠ [] →
    q <+: b ++ rest → a = [] ∧ q = p

@[simp] theorem replaceEach_nil (values : List (List Char × List Char)) :
    replaceEach values [] = [] :=
  rfl

theorem replaceEachFrom_drop (values : List (List Char × List Char)) (skip : Nat)
    (text : List Char) :
    replaceEachFrom values skip text = replaceEach values (text.drop skip) := by
  induction text generalizing skip with
  | nil => simp [replaceEachFrom]
  | cons c rest ih =>
    cases skip with
    | zero => rfl
    | succ skip => rw [replaceEachFrom, ih, List.drop_succ_cons]

theorem replaceEach_of_find {values : List (List Char × List Char)} {piece value rest : List Char}
    (hne : piece ≠ [])
    (h : values.find? (·.1.isPrefixOf (piece ++ rest)) = some (piece, value)) :
    replaceEach values (piece ++ rest) = value ++ replaceEach values rest := by
  obtain ⟨c, cs, rfl⟩ := List.exists_cons_of_ne_nil hne
  rw [List.cons_append] at h ⊢
  rw [replaceEach, replaceEachFrom, h]
  simp [replaceEachFrom_drop]

theorem replaceEach_of_find_none {values : List (List Char × List Char)} {c : Char}
    {rest : List Char} (h : values.find? (·.1.isPrefixOf (c :: rest)) = none) :
    replaceEach values (c :: rest) = c :: replaceEach values rest := by
  rw [replaceEach, replaceEachFrom, h]
  rfl

theorem replaceFrom_drop (piece value : List Char) (skip : Nat) (text : List Char) :
    replaceFrom piece value skip text = replaceFrom piece value 0 (text.drop skip) := by
  induction text generalizing skip with
  | nil => simp [replaceFrom]
  | cons c rest ih =>
    cases skip with
    | zero => rfl
    | succ skip => rw [replaceFrom, ih, List.drop_succ_cons]

theorem replaceFrom_piece {piece : List Char} (hne : piece ≠ []) (value rest : List Char) :
    replaceFrom piece value 0 (piece ++ rest) = value ++ replaceFrom piece value 0 rest := by
  obtain ⟨c, cs, rfl⟩ := List.exists_cons_of_ne_nil hne
  have hhere : (c :: cs).isPrefixOf (c :: (cs ++ rest)) = true :=
    List.isPrefixOf_iff_prefix.mpr (List.prefix_append (c :: cs) rest)
  rw [List.cons_append, replaceFrom, if_pos hhere, replaceFrom_drop]
  simp

theorem count_le_append (piece xs ys : List Char) : count piece ys ≤ count piece (xs ++ ys) := by
  induction xs with
  | nil => exact le_rfl
  | cons c xs ih =>
    rw [List.cons_append, count]
    split <;> omega

/-- A front part without a place of its own, even one that reaches beyond it, is left alone. -/
theorem replaceFrom_append {piece xs ys : List Char} (value : List Char)
    (h : count piece (xs ++ ys) = count piece ys) :
    replaceFrom piece value 0 (xs ++ ys) = xs ++ replaceFrom piece value 0 ys := by
  induction xs with
  | nil => rfl
  | cons c xs ih =>
    have hle := count_le_append piece xs ys
    rw [List.cons_append, count] at h
    by_cases hhere : piece.isPrefixOf (c :: (xs ++ ys)) = true
    · rw [if_pos hhere] at h
      omega
    · rw [if_neg hhere] at h
      rw [List.cons_append, replaceFrom, if_neg hhere, ih h, List.cons_append]

namespace Apart

variable {pieces : List (List Char)} {p q : List Char}

theorem count_tail (h : Apart pieces) (hp : p ∈ pieces) (hq : q ∈ pieces) {a b : List Char}
    (heq : p = a ++ b) (ha : a ≠ []) (rest : List Char) : count q (b ++ rest) = count q rest := by
  induction b generalizing a with
  | nil => rfl
  | cons c b ih =>
    have hhere : ¬ q.isPrefixOf (c :: (b ++ rest)) = true := by
      intro hpre
      have hpre' : q <+: (c :: b) ++ rest := List.isPrefixOf_iff_prefix.mp hpre
      exact ha (h.eq_of_prefix p hp q hq a (c :: b) rest heq (List.cons_ne_nil c b) hpre').1
    rw [List.cons_append, count, if_neg hhere]
    exact ih (a := a ++ [c]) (by simp [heq]) (by simp)

theorem count_self (h : Apart pieces) (hp : p ∈ pieces) (rest : List Char) :
    count p (p ++ rest) = count p rest + 1 := by
  obtain ⟨c, cs, hcs⟩ := List.exists_cons_of_ne_nil (h.ne_nil p hp)
  have hhere : p.isPrefixOf (c :: (cs ++ rest)) = true := by
    rw [List.isPrefixOf_iff_prefix, ← List.cons_append, ← hcs]
    exact List.prefix_append p rest
  have htail := h.count_tail hp hp (a := [c]) (b := cs) hcs (by simp) rest
  calc count p (p ++ rest) = count p (c :: (cs ++ rest)) := by rw [← List.cons_append, ← hcs]
    _ = count p (cs ++ rest) + 1 := by rw [count, if_pos hhere]
    _ = count p rest + 1 := by rw [htail]

theorem count_other (h : Apart pieces) (hp : p ∈ pieces) (hq : q ∈ pieces) (hne : q ≠ p)
    (rest : List Char) : count q (p ++ rest) = count q rest := by
  obtain ⟨c, cs, hcs⟩ := List.exists_cons_of_ne_nil (h.ne_nil p hp)
  have hhere : ¬ q.isPrefixOf (c :: (cs ++ rest)) = true := by
    intro hpre
    rw [List.isPrefixOf_iff_prefix, ← List.cons_append, ← hcs] at hpre
    exact hne (h.eq_of_prefix p hp q hq [] p rest rfl (h.ne_nil p hp) hpre).2
  have htail := h.count_tail hp hq (a := [c]) (b := cs) hcs (by simp) rest
  calc count q (p ++ rest) = count q (c :: (cs ++ rest)) := by rw [← List.cons_append, ← hcs]
    _ = count q (cs ++ rest) := by rw [count, if_neg hhere]
    _ = count q rest := htail

end Apart

section OnePass

variable {values : List (List Char × List Char)} {p : List Char}

theorem find_piece {values : List (List Char × List Char)} {text : List Char}
    {found : List Char × List Char} (h : values.find? (·.1.isPrefixOf text) = some found) :
    found.1 ∈ values.map (·.1) ∧ ∃ rest, text = found.1 ++ rest := by
  have hpre := List.find?_some h
  obtain ⟨rest, hrest⟩ := List.isPrefixOf_iff_prefix.mp hpre
  exact ⟨List.mem_map_of_mem (List.mem_of_find?_eq_some h), rest, hrest.symm⟩

/-- A text is cut into places that are filled, places of `p`, and other characters. -/
theorem places_induction {P : List Char → Prop} (h : Apart (p :: values.map (·.1)))
    (hnil : P [])
    (hfilled : ∀ q value rest, q ∈ values.map (·.1) →
      values.find? (·.1.isPrefixOf (q ++ rest)) = some (q, value) → P rest → P (q ++ rest))
    (hopen : ∀ rest, values.find? (·.1.isPrefixOf (p ++ rest)) = none → P rest → P (p ++ rest))
    (hplain : ∀ c rest, values.find? (·.1.isPrefixOf (c :: rest)) = none →
      ¬ p.isPrefixOf (c :: rest) = true → P rest → P (c :: rest))
    (text : List Char) : P text := by
  induction hlen : text.length using Nat.strongRecOn generalizing text with
  | ind k ih =>
    have hshort : ∀ q rest, q ∈ p :: values.map (·.1) → text = q ++ rest → P rest := by
      intro q rest hq heq
      have := List.length_pos_iff.mpr (h.ne_nil q hq)
      refine ih rest.length ?_ rest rfl
      rw [← hlen, heq, List.length_append]
      omega
    cases hfind : values.find? (·.1.isPrefixOf text) with
    | some found =>
      obtain ⟨q, value⟩ := found
      obtain ⟨hq, rest, rfl⟩ := find_piece hfind
      exact hfilled q value rest hq hfind (hshort q rest (List.mem_cons_of_mem p hq) rfl)
    | none =>
      by_cases hp : p.isPrefixOf text = true
      · obtain ⟨rest, rfl⟩ := List.isPrefixOf_iff_prefix.mp hp
        exact hopen rest hfind (hshort p rest List.mem_cons_self rfl)
      · cases text with
        | nil => exact hnil
        | cons c rest =>
          exact hplain c rest hfind hp (ih rest.length (by rw [← hlen]; simp) rest rfl)

variable (h : Apart (p :: values.map (·.1))) (hp : p ∉ values.map (·.1))
include h hp

theorem replaceEach_skip (rest : List Char) :
    replaceEach values (p ++ rest) = p ++ replaceEach values rest := by
  -- no piece to be replaced begins inside `p`, so `p` is passed character by character
  suffices hpart : ∀ a b, p = a ++ b →
      replaceEach values (b ++ rest) = b ++ replaceEach values rest from hpart [] p rfl
  intro a b heq
  induction b generalizing a with
  | nil => rfl
  | cons c b ih =>
    have hnone : values.find? (·.1.isPrefixOf (c :: (b ++ rest))) = none := by
      rw [List.find?_eq_none]
      intro found hfound hpre
      have hmem : found.1 ∈ values.map (·.1) := List.mem_map_of_mem hfound
      have hsame := h.eq_of_prefix p List.mem_cons_self found.1 (List.mem_cons_of_mem p hmem) a
        (c :: b) rest heq (List.cons_ne_nil c b) (List.isPrefixOf_iff_prefix.mp hpre)
      exact hp (hsame.2 ▸ hmem)
    rw [List.cons_append, replaceEach_of_find_none hnone, ih (a ++ [c]) (by simp [heq]),
      List.cons_append]

theorem count_le_replaceEach (text : List Char) :
    count p text ≤ count p (replaceEach values text) := by
  induction text using places_induction h with
  | hnil => simp
  | hfilled q value rest hq hfind ih =>
    have hne : p ≠ q := fun heq => hp (heq ▸ hq)
    have hle := count_le_append p value (replaceEach values rest)
    rw [h.count_other (List.mem_cons_of_mem p hq) List.mem_cons_self hne,
      replaceEach_of_find (h.ne_nil q (List.mem_cons_of_mem p hq)) hfind]
    exact ih.trans hle
  | hopen rest _ ih =>
    rw [replaceEach_skip h hp, h.count_self List.mem_cons_self, h.count_self List.mem_cons_self]
    omega
  | hplain c rest hfind hhere ih =>
    have hle := count_le_append p [c] (replaceEach values rest)
    rw [count, if_neg hhere, replaceEach_of_find_none hfind]
    exact ih.trans hle

omit hp in
theorem replaceEach_concat_of_none (value rest : List Char)
    (hfind : values.find? (·.1.isPrefixOf (p ++ rest)) = none) :
    replaceEach (values ++ [(p, value)]) (p ++ rest) =
      value ++ replaceEach (values ++ [(p, value)]) rest := by
  refine replaceEach_of_find (h.ne_nil p List.mem_cons_self) ?_
  have hpre : p.isPrefixOf (p ++ rest) = true :=
    List.isPrefixOf_iff_prefix.mpr (List.prefix_append p rest)
  simp [List.find?_append, hfind, hpre]

/-- The values that are in bring no place of `p` with them: then putting in one more value is
the same as one pass with it. -/
theorem replaceFrom_replaceEach {text : List Char}
    (hcount : count p (replaceEach values text) = count p text) (value : List Char) :
    replaceFrom p value 0 (replaceEach values text) =
      replaceEach (values ++ [(p, value)]) text := by
  induction text using places_induction h with
  | hnil => simp [replaceFrom]
  | hfilled q inner rest hq hfind ih =>
    have hq' := List.mem_cons_of_mem p hq
    have hne : p ≠ q := fun heq => hp (heq ▸ hq)
    have hlower := count_le_replaceEach h hp rest
    have hupper := count_le_append p inner (replaceEach values rest)
    rw [replaceEach_of_find (h.ne_nil q hq') hfind, h.count_other hq' List.mem_cons_self hne]
      at hcount
    have hfind' : (values ++ [(p, value)]).find? (·.1.isPrefixOf (q ++ rest)) =
        some (q, inner) := by
      rw [List.find?_append, hfind, Option.some_or]
    rw [replaceEach_of_find (h.ne_nil q hq') hfind, replaceEach_of_find (h.ne_nil q hq') hfind',
      replaceFrom_append value (by omega), ih (by omega)]
  | hopen rest hfind ih =>
    rw [replaceEach_skip h hp, h.count_self List.mem_cons_self,
      h.count_self List.mem_cons_self] at hcount
    rw [replaceEach_skip h hp, replaceFrom_piece (h.ne_nil p List.mem_cons_self),
      replaceEach_concat_of_none h value rest hfind, ih (by omega)]
  | hplain c rest hfind hhere ih =>
    have hlower := count_le_replaceEach h hp rest
    have hupper := count_le_append p [c] (replaceEach values rest)
    rw [List.singleton_append] at hupper
    rw [replaceEach_of_find_none hfind, count.eq_2 p c rest, if_neg hhere] at hcount
    have hfind' : (values ++ [(p, value)]).find? (·.1.isPrefixOf (c :: rest)) = none := by
      simp [List.find?_append, hfind, hhere]
    have hfront : count p ([c] ++ replaceEach values rest) = count p (replaceEach values rest) := by
      rw [List.singleton_append]
      omega
    have hstep := replaceFrom_append value hfront
    rw [List.singleton_append, List.singleton_append] at hstep
    rw [replaceEach_of_find_none hfind, replaceEach_of_find_none hfind', hstep, ih (by omega)]

theorem length_replaceEach_concat (c : Char) (text : List Char) :
    (replaceEach (values ++ [(p, c :: p)]) text).length =
      (replaceEach values text).length + count p text := by
  induction text using places_induction h with
  | hnil => simp [count]
  | hfilled q inner rest hq hfind ih =>
    have hq' := List.mem_cons_of_mem p hq
    have hne : p ≠ q := fun heq => hp (heq ▸ hq)
    have hfind' : (values ++ [(p, c :: p)]).find? (·.1.isPrefixOf (q ++ rest)) =
        some (q, inner) := by
      rw [List.find?_append, hfind, Option.some_or]
    rw [replaceEach_of_find (h.ne_nil q hq') hfind, replaceEach_of_find (h.ne_nil q hq') hfind',
      h.count_other hq' List.mem_cons_self hne, List.length_append, List.length_append, ih]
    omega
  | hopen rest hfind ih =>
    rw [replaceEach_skip h hp, replaceEach_concat_of_none h _ rest hfind,
      h.count_self List.mem_cons_self, List.length_append, List.length_append, ih,
      List.length_cons]
    omega
  | hplain a rest hfind hhere ih =>
    have hfind' : (values ++ [(p, c :: p)]).find? (·.1.isPrefixOf (a :: rest)) = none := by
      simp [List.find?_append, hfind, hhere]
    rw [replaceEach_of_find_none hfind, replaceEach_of_find_none hfind', count, if_neg hhere,
      List.length_cons, List.length_cons, ih]
    omega

omit h hp in
@[simp] theorem replaceEach_no_values (text : List Char) : replaceEach [] text = text := by
  induction text with
  | nil => rfl
  | cons c rest ih => rw [replaceEach_of_find_none rfl, ih]

omit hp in
theorem length_replaceFrom (c : Char) (text : List Char) :
    (replaceFrom p (c :: p) 0 text).length = text.length + count p text := by
  have halone : Apart (p :: ([] : List (List Char × List Char)).map (·.1)) :=
    ⟨fun q hq => h.ne_nil q (by simp_all),
      fun q hq r hr => h.eq_of_prefix q (by simp_all) r (by simp_all)⟩
  have hcount : count p (replaceEach [] text) = count p text := by simp
  have hpass := replaceFrom_replaceEach halone (by simp) hcount (c :: p)
  have hlen := length_replaceEach_concat halone (by simp) c text
  rw [replaceEach_no_values] at hpass hlen
  rw [hpass, hlen]

theorem replaceFrom_replaceEach_iff (text : List Char) :
    (∀ value, replaceFrom p value 0 (replaceEach values text) =
      replaceEach (values ++ [(p, value)]) text) ↔
        count p (replaceEach values text) = count p text := by
  constructor
  · intro hall
    -- a value that is longer than the piece by one tells the number of places
    have hlen := congrArg List.length (hall (' ' :: p))
    rw [length_replaceFrom h, length_replaceEach_concat h hp] at hlen
    omega
  · exact replaceFrom_replaceEach h hp

end OnePass

namespace Apart

variable {p : List Char} (h : Apart [p])
include h

theorem isPrefix_of_around {before after : List Char} (hne : before ≠ [])
    (hpre : p <+: before ++ (p ++ after)) : p <+: before := by
  rcases List.prefix_or_prefix_of_prefix hpre (List.prefix_append _ _) with hinside | ⟨tail, heq⟩
  · exact hinside
  -- a place that reached into the next one would hold the beginning of another place
  · by_cases hnil : tail = []
    · rw [← heq, hnil, List.append_nil]
    · obtain ⟨rest, hrest⟩ := hpre
      have htail : tail ++ rest = p ++ after := by
        rw [← heq, List.append_assoc, List.append_cancel_left_eq, heq] at hrest
        exact hrest
      have hp := List.mem_singleton_self p
      have hover := h.eq_of_prefix p hp p hp before tail rest heq.symm hnil ⟨after, htail.symm⟩
      exact absurd hover.1 hne

theorem replaceFrom_around (value before after : List Char) :
    replaceFrom p value 0 (before ++ (p ++ after)) =
      replaceFrom p value 0 before ++ (value ++ replaceFrom p value 0 after) := by
  have halone : Apart (p :: ([] : List (List Char × List Char)).map (·.1)) := h
  have hp := h.ne_nil p List.mem_cons_self
  induction before using places_induction halone with
  | hnil => exact replaceFrom_piece hp value after
  | hfilled q value rest hq => cases hq
  | hopen rest _ ih =>
    rw [List.append_assoc, replaceFrom_piece hp, ih, replaceFrom_piece hp, List.append_assoc]
  | hplain c rest _ hhere ih =>
    rw [List.isPrefixOf_iff_prefix] at hhere
    have hnot : ¬ p <+: c :: (rest ++ (p ++ after)) := by
      intro hpre
      exact hhere (h.isPrefix_of_around (List.cons_ne_nil c rest) hpre)
    rw [← List.isPrefixOf_iff_prefix] at hhere hnot
    rw [List.cons_append, replaceFrom, if_neg hnot, ih, replaceFrom, if_neg hhere,
      List.cons_append]

end Apart

end Text

theorem placeholder_toList (name : String) :
    (placeholder name).toList = '\x7b' :: '\x7b' :: (name.toList ++ ['\x7d', '\x7d']) := by
  simp [placeholder, placeholderOpening]

theorem eq_of_prefix_closed {xs ys rest : List Char} (hx : '\x7d' ∉ xs) (hy : '\x7d' ∉ ys)
    (h : xs ++ ['\x7d', '\x7d'] <+: ys ++ ['\x7d', '\x7d'] ++ rest) : xs = ys := by
  induction xs generalizing ys with
  | nil =>
    cases ys with
    | nil => rfl
    | cons y ys =>
      have hhead : '\x7d' = y := (List.cons_prefix_cons.mp h).1
      exact absurd hhead (List.ne_of_not_mem_cons hy)
  | cons x xs ih =>
    cases ys with
    | nil =>
      have hhead : x = '\x7d' := (List.cons_prefix_cons.mp h).1
      exact absurd hhead.symm (List.ne_of_not_mem_cons hx)
    | cons y ys =>
      obtain ⟨rfl, htail⟩ := List.cons_prefix_cons.mp h
      rw [ih (List.not_mem_of_not_mem_cons hx) (List.not_mem_of_not_mem_cons hy) htail]

theorem not_prefix_of_notMem {c : Char} {xs ys : List Char} (hne : ys ≠ []) (hc : c ∉ ys)
    (rest : List Char) : ¬ c :: xs <+: ys ++ rest := by
  obtain ⟨y, ys, rfl⟩ := List.exists_cons_of_ne_nil hne
  intro hpre
  exact List.ne_of_not_mem_cons hc (List.cons_prefix_cons.mp hpre).1

/-- Names without braces have placeholders that cannot overlap. -/
theorem apart_placeholders (names : List String)
    (hnames : ∀ name ∈ names, '\x7b' ∉ name.toList ∧ '\x7d' ∉ name.toList) :
    Text.Apart (names.map fun name => (placeholder name).toList) where
  ne_nil := by
    intro p hp
    obtain ⟨name, _, rfl⟩ := List.mem_map.mp hp
    simp [placeholder_toList]
  eq_of_prefix := by
    intro p hp q hq a b rest heq hb hpre
    obtain ⟨name, hname, rfl⟩ := List.mem_map.mp hp
    obtain ⟨other, hother, rfl⟩ := List.mem_map.mp hq
    have hinner : '\x7b' ∉ name.toList ++ ['\x7d', '\x7d'] := by simp [(hnames name hname).1]
    rw [placeholder_toList] at heq hpre
    match a with
    | [] =>
      rw [← List.nil_append b, ← heq] at hpre
      have hclosed := (List.cons_prefix_cons.mp (List.cons_prefix_cons.mp hpre).2).2
      have hsame := eq_of_prefix_closed (hnames other hother).2 (hnames name hname).2 hclosed
      exact ⟨rfl, by rw [placeholder_toList, placeholder_toList, hsame]⟩
    -- an opening needs two braces, and behind the first one there is only one more
    | [_] =>
      rw [List.cons_append, List.nil_append, List.cons.injEq] at heq
      rw [← heq.2] at hpre
      have hsecond := (List.cons_prefix_cons.mp hpre).2
      exact absurd hsecond (not_prefix_of_notMem (by simp) hinner rest)
    | _ :: _ :: a =>
      rw [List.cons_append, List.cons_append, List.cons.injEq, List.cons.injEq] at heq
      have hb' : '\x7b' ∉ b := by
        intro hmem
        exact hinner (heq.2.2 ▸ List.mem_append_right a hmem)
      exact absurd hpre (not_prefix_of_notMem hb hb' rest)

namespace Site

def entryPiece (entry : String × String) : List Char × List Char :=
  ((placeholder entry.1).toList, entry.2.toList)

/-- Fills all values into a template in one pass from left to right, so that what is put in
stays as it is. -/
def fillAtOnce (template : String) (values : List (String × String)) : String :=
  String.ofList (Text.replaceEach (values.map entryPiece) template.toList)

/-- The number of places that a text has for a value. -/
def placeCount (text name : String) : Nat :=
  Text.count (placeholder name).toList text.toList

/-- Each value meets the places that the template has for it and no others, when the values in
front of it are in. -/
def Undisturbed (template : String) (done : List (String × String)) :
    List (String × String) → Prop
  | [] => True
  | (name, value) :: more =>
    placeCount (fillAtOnce template done) name = placeCount template name ∧
      Undisturbed template (done ++ [(name, value)]) more

/-- Names that differ and have no braces. -/
structure PlainNames (values : List (String × String)) : Prop where
  nodup : (values.map (·.1)).Nodup
  braceless : ∀ name ∈ values.map (·.1), '\x7b' ∉ name.toList ∧ '\x7d' ∉ name.toList

theorem PlainNames.front {values more : List (String × String)} (h : PlainNames (values ++ more)) :
    PlainNames values where
  nodup := by
    have hall := h.nodup
    rw [List.map_append] at hall
    exact (List.nodup_append.mp hall).1
  braceless := by
    intro name hname
    exact h.braceless name (by rw [List.map_append]; exact List.mem_append_left _ hname)

theorem plainNames_values (site : Site) (c : Contract) : PlainNames (site.values c) where
  nodup := by simp [values]
  braceless := by simp [values]

@[simp] theorem fillAtOnce_nil (template : String) : fillAtOnce template [] = template := by
  simp [fillAtOnce]

theorem placeholder_inj {name other : String} (h : placeholder name = placeholder other) :
    name = other := by
  have hlist := congrArg String.toList h
  rw [placeholder_toList, placeholder_toList, List.cons.injEq, List.cons.injEq,
    List.append_cancel_right_eq] at hlist
  exact String.toList_injective hlist.2.2

/-- Putting in one more value is the same as one pass with it, whatever the value is, just when
the values that are in bring no place for it. -/
theorem replace_fillAtOnce_iff {done : List (String × String)} {name value : String}
    (template : String) (h : PlainNames (done ++ [(name, value)])) :
    (∀ text, Text.replace (fillAtOnce template done) (placeholder name) text =
        fillAtOnce template (done ++ [(name, text)])) ↔
      placeCount (fillAtOnce template done) name = placeCount template name := by
  obtain ⟨hnodup, hbraceless⟩ := h
  rw [List.map_append, List.map_singleton] at hnodup hbraceless
  have hpieces : (done.map entryPiece).map (·.1) =
      (done.map (·.1)).map fun name => (placeholder name).toList := by
    simp [entryPiece, Function.comp_def]
  have hapart : Text.Apart ((placeholder name).toList :: (done.map entryPiece).map (·.1)) := by
    rw [hpieces]
    refine apart_placeholders (name :: done.map (·.1)) fun other hother => ?_
    exact hbraceless other (by simpa [or_comm] using hother)
  have hnew : (placeholder name).toList ∉ (done.map entryPiece).map (·.1) := by
    rw [hpieces]
    intro hmem
    obtain ⟨other, hother, heq⟩ := List.mem_map.mp hmem
    have hsame := placeholder_inj (String.toList_injective heq)
    exact (List.nodup_append.mp hnodup).2.2 name (hsame ▸ hother) name List.mem_cons_self rfl
  have hstep := Text.replaceFrom_replaceEach_iff hapart hnew template.toList
  simp only [placeCount, fillAtOnce, Text.replace, String.toList_ofList, ← hstep,
    List.map_append, List.map_singleton, String.ofList_inj]
  constructor
  · intro hall text
    simpa [entryPiece] using hall (String.ofList text)
  · intro hall text
    exact hall text.toList

theorem fill_fillAtOnce {template : String} (done more : List (String × String))
    (hnames : PlainNames (done ++ more)) (h : Undisturbed template done more) :
    fill (fillAtOnce template done) more = fillAtOnce template (done ++ more) := by
  induction more generalizing done with
  | nil => simp [fill]
  | cons entry more ih =>
    obtain ⟨name, value⟩ := entry
    obtain ⟨hcount, hmore⟩ := h
    have hsplit : done ++ (name, value) :: more = (done ++ [(name, value)]) ++ more := by simp
    rw [hsplit] at hnames ⊢
    have hstep := (replace_fillAtOnce_iff template hnames.front).mpr hcount value
    rw [← ih _ hnames hmore, ← hstep, fill, fill, List.foldl_cons]

/-- A step of filling leaves what is in as it is, whatever it puts in, just when it meets the
places of the template and no others. If all steps do, the page is made from the template with
all values put in at once. The values have the overrides by `overrideClosure`, so where these form
a cycle, and walking them never ends, nothing is said about a page. -/
theorem render_eq_fillAtOnce (site : Site) (c : Contract) :
    (∀ done name value more, site.values c = done ++ (name, value) :: more →
      ((∀ text, Text.replace (fillAtOnce site.template done) (placeholder name) text =
          fillAtOnce site.template (done ++ [(name, text)])) ↔
        placeCount (fillAtOnce site.template done) name = placeCount site.template name)) ∧
      (Undisturbed site.template [] (site.values c) →
        site.render c = Text.tidy (fillAtOnce site.template (site.values c))) := by
  have hnames := site.plainNames_values c
  constructor
  · intro done name value more heq
    have hsplit : done ++ (name, value) :: more = (done ++ [(name, value)]) ++ more := by simp
    rw [heq, hsplit] at hnames
    exact replace_fillAtOnce_iff site.template hnames.front
  · intro h
    have hfill := fill_fillAtOnce [] (site.values c) hnames h
    rw [fillAtOnce_nil, List.nil_append] at hfill
    rw [render, hfill]

def noted (notice : String) : Contract where
  contractName := "Vault"
  ast := {
    nodes := some [{
      contractKind := some "contract"
      documentation := some (.raw notice) }] }

def noteSite (notice : String) : Site where
  contracts := [noted notice]
  template := placeholder "ContractDescription"

/-- The place in this comment is one for a value that is put in before it. -/
theorem render_eq_fillAtOnce_note :
    Undisturbed (noteSite (placeholder "ContractName")).template []
        ((noteSite (placeholder "ContractName")).values (noted (placeholder "ContractName"))) ∧
      (noteSite (placeholder "ContractName")).render (noted (placeholder "ContractName")) =
        placeholder "ContractName" ++ "\n" := by
  have h : Undisturbed (noteSite (placeholder "ContractName")).template []
      ((noteSite (placeholder "ContractName")).values (noted (placeholder "ContractName"))) := by
    simp only [Undisturbed, values]
    decide +kernel
  refine ⟨h, ((render_eq_fillAtOnce _ _).2 h).trans ?_⟩
  decide +kernel

theorem render_expands_note :
    (noteSite (placeholder "AllContractsAnchor")).render
        (noted (placeholder "AllContractsAnchor")) ≠
      Text.tidy (fillAtOnce (noteSite (placeholder "AllContractsAnchor")).template
        ((noteSite (placeholder "AllContractsAnchor")).values
          (noted (placeholder "AllContractsAnchor")))) := by
  decide +kernel

end Site

end ContractDocs
