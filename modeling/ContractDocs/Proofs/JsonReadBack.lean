import ContractDocs.Json.Printer
import ContractDocs.Json.Reader
import Mathlib.Data.List.Basic

/-! Reading JSON text that was printed over several lines. Strings come back through their escapes,
integers through their digits, and arrays and objects item by item, so every value without doubles
that is not nested too deeply comes back as it was. -/

namespace ContractDocs.Json

/-- What may stand behind a printed value: nothing, a comma or the end of the line. -/
def Ends (rest : List Char) : Prop :=
  ∀ c ∈ rest.head?, c = ',' ∨ c = '\n'

/-- The reader takes the text for `v`, whatever may stand behind it. -/
def Takes {α : Type} (read : Reader α) (text : List Char) (v : α) : Prop :=
  ∀ rest, Ends rest → read (text ++ rest) = .ok (v, rest)

theorem ends_nil : Ends [] := by
  simp [Ends]

theorem ends_comma (rest : List Char) : Ends (',' :: rest) := by
  simp [Ends]

theorem ends_newline (rest : List Char) : Ends ('\n' :: rest) := by
  simp [Ends]

section Numbers

theorem isDigit_natDigits {n : Nat} {c : Char} (h : c ∈ natDigits n) : c.isDigit = true :=
  Nat.isDigit_of_mem_toDigits (by decide) (by decide) h

theorem exists_natDigits (n : Nat) : ∃ c digits, natDigits n = c :: digits :=
  List.exists_cons_of_ne_nil Nat.toDigits_ne_nil

theorem le_foldl_digits (digits : List Nat) (start : Nat) :
    start ≤ digits.foldl (fun n d => n * 10 + d) start := by
  induction digits generalizing start with
  | nil => exact Nat.le_refl _
  | cons d digits ih =>
    have hh := ih (start * 10 + d)
    rw [List.foldl_cons]
    omega

theorem absorb_eq {digits : List Nat} {start : Nat}
    (h : digits.foldl (fun n d => n * 10 + d) start < Nat.pow 2 64) :
    Numeral.absorb start digits = (digits.foldl (fun n d => n * 10 + d) start, []) := by
  induction digits generalizing start with
  | nil => rfl
  | cons d digits ih =>
    have hle := le_foldl_digits digits (start * 10 + d)
    rw [List.foldl_cons] at h ⊢
    rw [Numeral.absorb, if_pos (by omega), ih h]

theorem foldl_natDigits (n : Nat) :
    ((natDigits n).map digitValue).foldl (fun n d => n * 10 + d) 0 = n := by
  have hdigits : Nat.ofDigitChars 10 (natDigits n) 0 = n :=
    Nat.ofDigitChars_toDigits (by decide) (by decide)
  rw [Nat.ofDigitChars_eq_foldl] at hdigits
  rw [List.foldl_map]
  simp only [Nat.mul_comm 10] at hdigits
  exact hdigits

theorem absorb_natDigits {n : Nat} (h : n < Nat.pow 2 64) :
    Numeral.absorb 0 ((natDigits n).map digitValue) = (n, []) := by
  have hfold := foldl_natDigits n
  rw [absorb_eq (by rwa [hfold]), hfold]

theorem head_natDigits {n : Nat} (h : n ≠ 0) : (natDigits n).head? ≠ some '0' := by
  induction n using Nat.strongRecOn with
  | ind n ih =>
    unfold natDigits at ih ⊢
    by_cases hlt : n < 10
    · rw [Nat.toDigits_of_lt_base hlt]
      have hdigit : ∀ d < 10, d ≠ 0 → d.digitChar ≠ '0' := by decide
      simpa using hdigit n hlt h
    · rw [Nat.toDigits_of_base_le (by decide) (by omega),
        List.head?_append_of_ne_nil _ Nat.toDigits_ne_nil]
      exact ih (n / 10) (by omega) (by omega)

theorem not_isDigit_of_ends {rest : List Char} (h : Ends rest) {c : Char} (hc : c ∈ rest.head?) :
    c.isDigit = false := by
  rcases h c hc with rfl | rfl <;> decide

theorem takeWhile_digits {digits rest : List Char} (hdigits : ∀ c ∈ digits, c.isDigit = true)
    (h : Ends rest) : (digits ++ rest).takeWhile Char.isDigit = digits ∧
      (digits ++ rest).dropWhile Char.isDigit = rest := by
  rw [List.takeWhile_append_of_pos hdigits, List.dropWhile_append_of_pos hdigits]
  cases rest with
  | nil => simp
  | cons c rest => simp [not_isDigit_of_ends h rfl]

theorem wholePart_natDigits (n : Nat) {rest : List Char} (h : Ends rest) (short : Fault) :
    wholePart short (natDigits n ++ rest) = .ok ((natDigits n).map digitValue, rest) := by
  by_cases hzero : n = 0
  · subst hzero
    have hdigits : natDigits 0 = ['0'] := rfl
    rw [hdigits]
    cases rest with
    | nil => rfl
    | cons c rest => simp [wholePart, not_isDigit_of_ends h rfl, digitValue]
  · obtain ⟨c, digits, hdigits⟩ := exists_natDigits n
    have hhead := head_natDigits hzero
    have hall : ∀ d ∈ c :: digits, d.isDigit = true := hdigits ▸ fun d hd => isDigit_natDigits hd
    rw [hdigits] at hhead ⊢
    have htake := (takeWhile_digits hall h).1
    have hdrop := (takeWhile_digits (fun d hd => hall d (List.mem_cons_of_mem _ hd)) h).2
    have hne : c ≠ '0' := by simpa using hhead
    rw [List.cons_append] at htake ⊢
    unfold wholePart
    dsimp only
    rw [if_neg hne, if_pos (hall c List.mem_cons_self), htake, hdrop]

theorem fractionPart_of_ends {rest : List Char} (h : Ends rest) (short : Fault) :
    fractionPart short rest = .ok (none, rest) := by
  cases rest with
  | nil => rfl
  | cons c rest => rcases h c rfl with rfl | rfl <;> rfl

theorem exponentPart_of_ends {rest : List Char} (h : Ends rest) (short : Fault) :
    exponentPart short rest = .ok (none, rest) := by
  cases rest with
  | nil => rfl
  | cons c rest => rcases h c rfl with rfl | rfl <;> rfl

theorem numeral_natDigits (n : Nat) (short : Fault) (negative : Bool) :
    Takes (numeral short negative) (natDigits n)
      { negative, whole := (natDigits n).map digitValue, fraction := [], exponent := none
        integral := true } := by
  intro rest h
  rw [numeral, wholePart_natDigits n h]
  simp only [bind, Except.bind, fractionPart_of_ends h, exponentPart_of_ends h]
  rfl

theorem number_natDigits {n : Nat} (h : n < Nat.pow 2 64) :
    Takes (number false) (natDigits n) (int n) := by
  intro rest hrest
  rw [number, numeral_natDigits n .ended false rest hrest]
  simp only [bind, Except.bind, Numeral.value?, absorb_natDigits h]
  rfl

theorem number_natDigits_negative {n : Nat} (hpos : n ≠ 0) (h : n ≤ Nat.pow 2 63) :
    Takes (number true) (natDigits n) (int (-n)) := by
  intro rest hrest
  have hlt : n < Nat.pow 2 64 := Nat.lt_of_le_of_lt h (by decide)
  have hfits : ¬ (n = 0 ∨ Nat.pow 2 63 < n) := by omega
  rw [number, numeral_natDigits n .ended true rest hrest]
  simp only [bind, Except.bind, Numeral.value?, absorb_natDigits hlt, and_self, if_true,
    if_neg hfits]
  rfl

theorem ne_of_isDigit {c d : Char} (hc : c.isDigit = true) (hd : d.isDigit = false) : c ≠ d := by
  rintro rfl
  rw [hc] at hd
  cases hd

theorem scalar_of_isDigit {c : Char} (h : c.isDigit = true) (rest : List Char) :
    scalar (c :: rest) = number false (c :: rest) := by
  have hne (d : Char) (hd : d.isDigit = false) : c ≠ d := ne_of_isDigit h hd
  simp only [scalar, hne '"' (by decide), hne 'n' (by decide), hne 't' (by decide),
    hne 'f' (by decide), hne '-' (by decide), h, if_true, if_false]

/-- An integer of 64 bits, with a sign or without. -/
def IsWord (n : Int) : Prop :=
  -Int.pow 2 63 ≤ n ∧ n < Int.pow 2 64

theorem scalar_intDigits {n : Int} (h : IsWord n) : Takes scalar (intDigits n) (int n) := by
  intro rest hrest
  obtain ⟨hlow, hhigh⟩ := h
  unfold intDigits
  split
  · have hmagnitude : n = -(n.natAbs : Int) := by omega
    have hlimit : n.natAbs ≤ Nat.pow 2 63 := by
      have hpow : Int.pow 2 63 = (Nat.pow 2 63 : Nat) := by decide
      omega
    have hread := number_natDigits_negative (by omega) hlimit rest hrest
    rw [← hmagnitude] at hread
    exact hread
  · have hmagnitude : (n.natAbs : Int) = n := by omega
    have hlimit : n.natAbs < Nat.pow 2 64 := by
      have hpow : Int.pow 2 64 = (Nat.pow 2 64 : Nat) := by decide
      omega
    have hread := number_natDigits hlimit rest hrest
    rw [hmagnitude] at hread
    obtain ⟨c, digits, hdigits⟩ := exists_natDigits n.natAbs
    have hc := isDigit_natDigits (hdigits ▸ List.mem_cons_self)
    rw [hdigits, List.cons_append] at hread ⊢
    rw [scalar_of_isDigit hc, hread]

end Numbers

section Strings

theorem hexValue?_hexDigit : ∀ n < 16, hexValue? (hexDigit n) = some n := by
  decide

theorem stringAfter_plain {seen : List Char} {c : Char} (hquote : c ≠ '"') (hescape : c ≠ '\\')
    (hcontrol : ¬ c.toNat < 32) (rest : List Char) :
    stringAfter seen (c :: rest) = stringAfter (c :: seen) rest := by
  conv => lhs; unfold stringAfter
  dsimp only
  rw [if_neg hquote, if_neg hescape, if_neg hcontrol]

theorem stringAfter_escaped {e c : Char} (he : e ≠ 'u') (hc : escaped? e = some c)
    (seen rest : List Char) :
    stringAfter seen ('\\' :: e :: rest) = stringAfter (c :: seen) rest := by
  conv => lhs; unfold stringAfter
  dsimp only
  rw [if_neg (by decide), if_pos rfl, if_neg he, hc]

theorem stringAfter_hex {c : Char} (hcontrol : c.toNat < 32) (seen rest : List Char) :
    stringAfter seen ('\\' :: 'u' :: '0' :: '0' :: hexDigit (c.toNat / 16) ::
      hexDigit (c.toNat % 16) :: rest) = stringAfter (c :: seen) rest := by
  have hunit : hexUnit? '0' '0' (hexDigit (c.toNat / 16)) (hexDigit (c.toNat % 16)) =
      some c.toNat := by
    have hzero : hexValue? '0' = some 0 := by decide
    have hhigh := hexValue?_hexDigit (c.toNat / 16) (by omega)
    have hlow := hexValue?_hexDigit (c.toNat % 16) (by omega)
    simp only [hexUnit?, hzero, hhigh, hlow, bind, Option.bind, pure]
    congr 1
    omega
  have hlow : isLowSurrogate c.toNat = false := by simp [isLowSurrogate]; omega
  have hhigh : isHighSurrogate c.toNat = false := by simp [isHighSurrogate]; omega
  conv => lhs; unfold stringAfter
  dsimp only
  rw [if_neg (by decide), if_pos rfl, if_pos rfl, hunit]
  simp only [hlow, hhigh, Char.ofNat_toNat]
  rfl

/-- How a character is written inside quotes. -/
inductive WrittenChar : Char → List Char → Prop where
  | short {c e : Char} : e ≠ 'u' → escaped? e = some c → WrittenChar c ['\\', e]
  | hex {c : Char} : c.toNat < 32 → WrittenChar c
      ['\\', 'u', '0', '0', hexDigit (c.toNat / 16), hexDigit (c.toNat % 16)]
  | plain {c : Char} : c ≠ '"' → c ≠ '\\' → ¬ c.toNat < 32 → WrittenChar c [c]

theorem writtenChar_escapeChar (c : Char) : WrittenChar c (escapeChar c) := by
  have hcode {n : Nat} (h : c.toNat = n) : Char.ofNat n = c := h ▸ c.ofNat_toNat
  fun_cases escapeChar c with
  | case1 h => exact .short (by decide) (by rw [h]; rfl)
  | case2 _ h => exact .short (by decide) (by rw [h]; rfl)
  | case3 _ _ h => exact .short (by decide) (by rw [h]; rfl)
  | case4 _ _ _ h => exact .short (by decide) (by rw [h]; rfl)
  | case5 _ _ _ _ h => exact .short (by decide) (by rw [h]; rfl)
  | case6 _ _ _ _ _ h => exact .short (by decide) (congrArg some (hcode h))
  | case7 _ _ _ _ _ _ h => exact .short (by decide) (congrArg some (hcode h))
  | case8 _ _ _ _ _ _ _ h => exact .hex h
  | case9 hquote hescape _ _ _ _ _ h => exact .plain hquote hescape h

theorem stringAfter_escapeChar (c : Char) (seen rest : List Char) :
    stringAfter seen (escapeChar c ++ rest) = stringAfter (c :: seen) rest := by
  have hwritten := writtenChar_escapeChar c
  generalize escapeChar c = text at hwritten ⊢
  cases hwritten with
  | short he hc => exact stringAfter_escaped he hc seen rest
  | hex hcontrol => exact stringAfter_hex hcontrol seen rest
  | plain hquote hescape hcontrol => exact stringAfter_plain hquote hescape hcontrol rest

theorem stringAfter_quoted (text seen rest : List Char) :
    stringAfter seen (text.flatMap escapeChar ++ '"' :: rest) =
      .ok (String.ofList (seen.reverse ++ text), rest) := by
  induction text generalizing seen with
  | nil =>
    unfold stringAfter
    simp
  | cons c text ih =>
    rw [List.flatMap_cons, List.append_assoc, stringAfter_escapeChar, ih]
    simp

theorem quote_append (s : String) (rest : List Char) :
    quote s ++ rest = '"' :: (s.toList.flatMap escapeChar ++ '"' :: rest) := by
  simp [quote]

theorem scalar_quote (s : String) : Takes scalar (quote s) (string s) := by
  intro rest _
  have hread := stringAfter_quoted s.toList [] rest
  rw [quote_append, scalar, if_pos rfl, hread]
  simp [Except.map]

end Strings

/-- Values without doubles, with at most so many arrays and objects inside one another. Their
numbers are integers of 64 bits: a longer one is not kept as an integer when it is read. -/
inductive Exact : Nat → Json → Prop where
  | null {room : Nat} : Exact room null
  | bool {room : Nat} {b : Bool} : Exact room (bool b)
  | int {room : Nat} {n : Int} : IsWord n → Exact room (int n)
  | string {room : Nat} {s : String} : Exact room (string s)
  | array {room : Nat} {items : List Json} :
      (∀ v ∈ items, Exact room v) → Exact (room + 1) (array items)
  | object {room : Nat} {members : List (String × Json)} :
      (∀ m ∈ members, Exact room m.2) → Exact (room + 1) (object members)

section Values

variable {fuel room : Nat}

theorem skipSpace_newline (depth : Nat) (cs : List Char) :
    skipSpace (newline depth ++ cs) = skipSpace cs := by
  unfold skipSpace newline
  refine List.dropWhile_append_of_pos fun c hc => ?_
  rcases List.mem_cons.mp hc with rfl | hc
  · rfl
  · rw [List.eq_of_mem_replicate hc]
    rfl

theorem skipSpace_of_not_isSpace {c : Char} (h : isSpace c = false) (cs : List Char) :
    skipSpace (c :: cs) = c :: cs := by
  simp [skipSpace, h]

/-- The text of a value starts with something else than white space or the end of an array. -/
def StartsValue (text : List Char) : Prop :=
  ∃ c cs, text = c :: cs ∧ isSpace c = false ∧ c ≠ ']'

theorem StartsValue.append {text : List Char} (h : StartsValue text) (rest : List Char) :
    StartsValue (text ++ rest) := by
  obtain ⟨c, cs, rfl, hc⟩ := h
  exact ⟨c, cs ++ rest, rfl, hc⟩

theorem value_space (cs : List Char) : value fuel room (' ' :: cs) = value fuel room cs := by
  have hskip : skipSpace (' ' :: cs) = skipSpace cs := rfl
  unfold value
  rw [hskip]

theorem value_of_scalar {c : Char} {cs : List Char} (hspace : isSpace c = false)
    (harray : c ≠ '[') (hobject : c ≠ '\x7b') :
    value fuel room (c :: cs) = scalar (c :: cs) := by
  unfold value
  rw [skipSpace_of_not_isSpace hspace]
  dsimp only
  rw [if_neg harray, if_neg hobject]

theorem exists_intDigits (n : Int) : ∃ c cs, intDigits n = c :: cs ∧
    ∀ d, d ≠ '-' → d.isDigit = false → c ≠ d := by
  obtain ⟨c, digits, hdigits⟩ := exists_natDigits n.natAbs
  have hc := isDigit_natDigits (hdigits ▸ List.mem_cons_self)
  unfold intDigits
  split
  · exact ⟨_, _, rfl, fun d hd _ => hd.symm⟩
  · exact ⟨c, digits, hdigits, fun d _ hd => ne_of_isDigit hc hd⟩

theorem not_isSpace_of_ne {c : Char} (h : ∀ d, d ≠ '-' → d.isDigit = false → c ≠ d) :
    isSpace c = false := by
  simp [isSpace, h ' ', h '\t', h '\n', h '\r']

theorem Exact.startsValue {v : Json} (h : v.Exact room) (depth : Nat) :
    StartsValue (pretty depth v) := by
  cases h with
  | null => exact ⟨_, _, rfl, by decide, by decide⟩
  | @bool _ b => cases b <;> exact ⟨_, _, rfl, by decide, by decide⟩
  | @int _ n =>
    obtain ⟨c, cs, hcs, hc⟩ := exists_intDigits n
    exact ⟨c, cs, hcs, not_isSpace_of_ne hc, hc ']' (by decide) (by decide)⟩
  | string => exact ⟨_, _, rfl, by decide, by decide⟩
  | @array _ items => cases items <;> exact ⟨_, _, rfl, by decide, by decide⟩
  | @object _ members => cases members <;> exact ⟨_, _, rfl, by decide, by decide⟩

theorem takes_int {n : Int} (h : IsWord n) : Takes (value fuel room) (intDigits n) (int n) := by
  intro rest hrest
  obtain ⟨c, cs, hcs, hc⟩ := exists_intDigits n
  have hread := scalar_intDigits h rest hrest
  rw [hcs, List.cons_append] at hread ⊢
  rw [← hread]
  exact value_of_scalar (not_isSpace_of_ne hc) (hc '[' (by decide) (by decide))
    (hc '\x7b' (by decide) (by decide))

theorem takes_string (s : String) : Takes (value fuel room) (quote s) (string s) := by
  intro rest hrest
  rw [← scalar_quote s rest hrest]
  exact value_of_scalar (by decide) (by decide) (by decide)

theorem takes_null : Takes (value fuel room) (compact null) null := by
  intro rest _
  exact value_of_scalar (by decide) (by decide) (by decide)

theorem takes_bool (b : Bool) : Takes (value fuel room) (compact (bool b)) (bool b) := by
  intro rest _
  cases b <;> exact value_of_scalar (by decide) (by decide) (by decide)

theorem itemsFrom_last {read : Reader Json} {text : List Char} {v : Json} (h : Takes read text v)
    (steps outer : Nat) (seen : List Json) (rest : List Char) :
    itemsFrom read (steps + 1) seen (text ++ (newline outer ++ ']' :: rest)) =
      .ok ((v :: seen).reverse, rest) := by
  have hfirst := h (newline outer ++ ']' :: rest) (ends_newline _)
  have hskip : skipSpace (newline outer ++ ']' :: rest) = ']' :: rest := skipSpace_newline _ _
  rw [itemsFrom, hfirst]
  simp only [bind, Except.bind, hskip, if_true]
  rfl

theorem itemsFrom_comma {read : Reader Json} {text more : List Char} {v : Json}
    (h : Takes read text v) (hmore : StartsValue more) (steps depth : Nat) (seen : List Json) :
    itemsFrom read (steps + 1) seen (text ++ ',' :: (newline depth ++ more)) =
      itemsFrom read steps (v :: seen) more := by
  have hfirst := h (',' :: (newline depth ++ more)) (ends_comma _)
  obtain ⟨c, cs, rfl, hc, hend⟩ := hmore
  have hcomma : skipSpace (',' :: (newline depth ++ c :: cs)) = ',' :: (newline depth ++ c :: cs) :=
    skipSpace_of_not_isSpace (by decide) _
  have hskip : skipSpace (newline depth ++ c :: cs) = c :: cs := by
    rw [skipSpace_newline, skipSpace_of_not_isSpace hc]
  rw [itemsFrom, hfirst]
  simp only [bind, Except.bind, hcomma, hskip]
  rw [if_neg (by decide), if_pos trivial]
  split
  · contradiction
  · simp_all
  · rfl

/-- The items of an array are read one after the other, up to its end on a line of its own. -/
theorem itemsFrom_pretty {read : Reader Json} {depth outer : Nat} {v : Json} {items : List Json}
    (hread : ∀ w ∈ v :: items, Takes read (pretty depth w) w)
    (hstart : ∀ w ∈ v :: items, StartsValue (pretty depth w))
    {steps : Nat} (hsteps : items.length < steps) (seen : List Json) (rest : List Char) :
    itemsFrom read steps seen
        (pretty depth v ++ (prettyItems depth items ++ (newline outer ++ ']' :: rest))) =
      .ok (seen.reverse ++ v :: items, rest) := by
  induction items generalizing v steps seen with
  | nil =>
    obtain ⟨k, rfl⟩ : ∃ k, steps = k + 1 := Nat.exists_eq_add_one.mpr hsteps
    rw [prettyItems, List.nil_append, itemsFrom_last (hread v List.mem_cons_self)]
    simp
  | cons w items ih =>
    obtain ⟨k, rfl⟩ : ∃ k, steps = k + 1 := Nat.exists_eq_add_one.mpr (Nat.zero_lt_of_lt hsteps)
    have hlater := List.forall_mem_cons.mp hread
    have hstarts := (List.forall_mem_cons.mp hstart).2
    have hnext := (hstarts w List.mem_cons_self).append
      (prettyItems depth items ++ (newline outer ++ ']' :: rest))
    have hk : items.length < k := by simpa using hsteps
    simp only [prettyItems, List.cons_append, List.append_assoc]
    rw [itemsFrom_comma hlater.1 hnext, ih hlater.2 hstarts hk]
    simp

theorem value_array (rest : List Char) :
    value fuel (room + 1) ('[' :: rest) =
      (items fuel (value fuel room) rest).map fun p => (array p.1, p.2) := by
  conv => lhs; unfold value
  rfl

/-- Reads a member of an object, and puts it in front of the members read so far. -/
def memberOf (read : Reader Json) (seen : List (String × Json)) (key : String) :
    Reader (List (String × Json)) := fun cs => do
  let (v, cs) ← read (← colon cs)
  return ((key, v) :: seen, cs)

theorem value_object (rest : List Char) :
    value fuel (room + 1) ('\x7b' :: rest) =
      (members fuel (memberOf (value fuel room)) [] rest).map
        fun p => (object p.1.reverse, p.2) := by
  conv => lhs; unfold value
  rfl

theorem memberOf_takes {text : List Char} {v : Json} (h : Takes (value fuel room) text v)
    (seen : List (String × Json)) (key : String) :
    Takes (memberOf (value fuel room) seen key) (':' :: ' ' :: text) ((key, v) :: seen) := by
  intro rest hrest
  have hcolon : colon (':' :: ' ' :: (text ++ rest)) = .ok (' ' :: (text ++ rest)) := rfl
  simp only [memberOf, List.cons_append, hcolon, bind, Except.bind, value_space, h rest hrest]
  rfl

section

variable {member : List (String × Json) → String → Reader (List (String × Json))} {key : String}
  {text : List Char} {seen next : List (String × Json)}

theorem membersFrom_last (h : Takes (member seen key) text next) (steps outer : Nat)
    (rest : List Char) :
    membersFrom member (steps + 1) seen
        (quote key ++ (text ++ (newline outer ++ '\x7d' :: rest))) = .ok (next, rest) := by
  have hkey := stringAfter_quoted key.toList [] (text ++ (newline outer ++ '\x7d' :: rest))
  have hfirst := h (newline outer ++ '\x7d' :: rest) (ends_newline _)
  have hskip : skipSpace (newline outer ++ '\x7d' :: rest) = '\x7d' :: rest :=
    skipSpace_newline _ _
  rw [quote_append]
  simp only [membersFrom, hkey, bind, Except.bind, List.reverse_nil, List.nil_append,
    String.ofList_toList, hfirst, hskip, if_true]
  rfl

theorem membersFrom_comma (h : Takes (member seen key) text next) (steps depth : Nat)
    (later : String) (more : List Char) :
    membersFrom member (steps + 1) seen
        (quote key ++ (text ++ ',' :: (newline depth ++ (quote later ++ more)))) =
      membersFrom member steps next (quote later ++ more) := by
  have hkey := stringAfter_quoted key.toList []
    (text ++ ',' :: (newline depth ++ (quote later ++ more)))
  have hfirst := h (',' :: (newline depth ++ (quote later ++ more))) (ends_comma _)
  have hcomma : skipSpace (',' :: (newline depth ++ (quote later ++ more))) =
      ',' :: (newline depth ++ (quote later ++ more)) := skipSpace_of_not_isSpace (by decide) _
  have hskip : skipSpace (newline depth ++ (quote later ++ more)) = quote later ++ more :=
    skipSpace_newline _ _
  rw [quote_append key]
  simp only [membersFrom, hkey, bind, Except.bind, List.reverse_nil, List.nil_append,
    String.ofList_toList, hfirst, hcomma, hskip]
  rw [if_neg (by decide), if_pos trivial]
  rfl

end

theorem membersFrom_pretty {depth outer : Nat} {m : String × Json} {members : List (String × Json)}
    (hread : ∀ p ∈ m :: members, Takes (value fuel room) (pretty depth p.2) p.2)
    {steps : Nat} (hsteps : members.length < steps) (seen : List (String × Json))
    (rest : List Char) :
    membersFrom (memberOf (value fuel room)) steps seen
        (quote m.1 ++ (':' :: ' ' :: pretty depth m.2 ++
          (prettyMembers depth members ++ (newline outer ++ '\x7d' :: rest)))) =
      .ok ((m :: members).reverse ++ seen, rest) := by
  induction members generalizing m steps seen with
  | nil =>
    obtain ⟨k, rfl⟩ : ∃ k, steps = k + 1 := Nat.exists_eq_add_one.mpr hsteps
    have hmember := memberOf_takes (hread m List.mem_cons_self) seen m.1
    rw [prettyMembers, List.nil_append, membersFrom_last hmember]
    rfl
  | cons next members ih =>
    obtain ⟨k, rfl⟩ : ∃ k, steps = k + 1 := Nat.exists_eq_add_one.mpr (Nat.zero_lt_of_lt hsteps)
    have hlater := List.forall_mem_cons.mp hread
    have hmember := memberOf_takes hlater.1 seen m.1
    have hk : members.length < k := by simpa using hsteps
    have hrest := ih hlater.2 hk (m :: seen)
    have hstep := membersFrom_comma hmember k depth next.1
    simp only [prettyMembers, List.cons_append, List.append_assoc] at hrest hstep ⊢
    rw [hstep, hrest]
    simp

theorem items_newline {item : Reader Json} {text : List Char} (h : StartsValue text)
    (depth : Nat) : items fuel item (newline depth ++ text) = itemsFrom item fuel [] text := by
  obtain ⟨c, cs, rfl, hc, hend⟩ := h
  unfold items
  rw [skipSpace_newline, skipSpace_of_not_isSpace hc]
  split
  · contradiction
  · simp_all
  · rfl

theorem members_newline {member : List (String × Json) → String → Reader (List (String × Json))}
    (depth : Nat) (key : String) (rest : List Char) :
    members fuel member [] (newline depth ++ (quote key ++ rest)) =
      membersFrom member fuel [] (quote key ++ rest) := by
  unfold members
  rw [skipSpace_newline]
  rfl

/-- Texts on lines of their own, each behind a comma. -/
def listed (depth : Nat) (texts : List (List Char)) : List Char :=
  texts.flatMap fun text => ',' :: newline depth ++ text

def memberText (depth : Nat) (m : String × Json) : List Char :=
  quote m.1 ++ ':' :: ' ' :: pretty depth m.2

theorem listed_cons (depth : Nat) (text : List Char) (texts : List (List Char)) :
    listed depth (text :: texts) = ',' :: newline depth ++ text ++ listed depth texts :=
  List.flatMap_cons

theorem prettyItems_eq_listed (depth : Nat) (items : List Json) :
    prettyItems depth items = listed depth (items.map (pretty depth)) := by
  induction items with
  | nil => rfl
  | cons v items ih => rw [prettyItems, ih, List.map_cons, listed_cons]

theorem prettyMembers_eq_listed (depth : Nat) (members : List (String × Json)) :
    prettyMembers depth members = listed depth (members.map (memberText depth)) := by
  induction members with
  | nil => rfl
  | cons m members ih =>
    rw [prettyMembers, ih, List.map_cons, listed_cons, memberText]
    simp only [List.cons_append, List.append_assoc]

theorem length_le_listed (depth : Nat) (texts : List (List Char)) :
    texts.length ≤ (listed depth texts).length := by
  induction texts with
  | nil => exact Nat.zero_le _
  | cons text texts ih =>
    simp only [listed_cons, List.length_append, List.length_cons]
    omega

theorem length_le_listed_of_mem (depth : Nat) {texts : List (List Char)} {text : List Char}
    (h : text ∈ texts) : text.length ≤ (listed depth texts).length := by
  induction h with
  | head => simp only [listed_cons, List.length_append, List.length_cons]; omega
  | tail _ _ ih => simp only [listed_cons, List.length_append, List.length_cons]; omega

theorem takes_array {items : List Json} {depth : Nat}
    (hfuel : (pretty depth (array items)).length ≤ fuel)
    (hread : ∀ v ∈ items, (pretty (depth + 1) v).length ≤ fuel →
      Takes (value fuel room) (pretty (depth + 1) v) v)
    (hstart : ∀ v ∈ items, StartsValue (pretty (depth + 1) v)) :
    Takes (value fuel (room + 1)) (pretty depth (array items)) (array items) := by
  intro rest _
  cases items with
  | nil => rfl
  | cons v items =>
    simp only [pretty, prettyItems_eq_listed, List.length_append, List.length_cons] at hfuel
    -- the fuel bounds the number of items too: each of them takes at least one character
    have hcount := length_le_listed (depth + 1) (items.map (pretty (depth + 1)))
    rw [List.length_map] at hcount
    have hall : ∀ w ∈ v :: items, Takes (value fuel room) (pretty (depth + 1) w) w := by
      intro w hw
      refine hread w hw ?_
      rcases List.mem_cons.mp hw with rfl | hw
      · omega
      · have hmem := List.mem_map_of_mem (f := pretty (depth + 1)) hw
        have hlen := length_le_listed_of_mem (depth + 1) hmem
        omega
    have htext := (hstart v List.mem_cons_self).append
      (prettyItems (depth + 1) items ++ (newline depth ++ ']' :: rest))
    simp only [pretty, List.cons_append, List.append_assoc, List.nil_append]
    rw [value_array, items_newline htext, itemsFrom_pretty hall hstart (by omega)]
    rfl

theorem takes_object {members : List (String × Json)} {depth : Nat}
    (hfuel : (pretty depth (object members)).length ≤ fuel)
    (hread : ∀ m ∈ members, (pretty (depth + 1) m.2).length ≤ fuel →
      Takes (value fuel room) (pretty (depth + 1) m.2) m.2) :
    Takes (value fuel (room + 1)) (pretty depth (object members)) (object members) := by
  intro rest _
  cases members with
  | nil => rfl
  | cons m members =>
    simp only [pretty, prettyMembers_eq_listed, List.length_append, List.length_cons] at hfuel
    have hcount := length_le_listed (depth + 1) (members.map (memberText (depth + 1)))
    rw [List.length_map] at hcount
    have hall : ∀ p ∈ m :: members, Takes (value fuel room) (pretty (depth + 1) p.2) p.2 := by
      intro p hp
      refine hread p hp ?_
      rcases List.mem_cons.mp hp with rfl | hp
      · omega
      · have hmem := List.mem_map_of_mem (f := memberText (depth + 1)) hp
        have hlen := length_le_listed_of_mem (depth + 1) hmem
        simp only [memberText, List.length_append, List.length_cons] at hlen
        omega
    have hsteps : members.length < fuel := by omega
    have hrun := fun outer => @membersFrom_pretty _ _ _ outer m members hall _ hsteps [] rest
    simp only [pretty, List.cons_append, List.append_assoc, List.nil_append] at hrun ⊢
    rw [value_object, members_newline, hrun]
    simp [Except.map]

theorem Exact.takes {v : Json} (h : v.Exact room) (depth : Nat)
    (hfuel : (pretty depth v).length ≤ fuel) :
    Takes (value fuel room) (pretty depth v) v := by
  induction h generalizing depth with
  | null => exact takes_null
  | bool => exact takes_bool _
  | int hn => exact takes_int hn
  | string => exact takes_string _
  | array hitems ih =>
    exact takes_array hfuel (fun w hw => ih w hw _) fun w hw => (hitems w hw).startsValue _
  | object _ ih => exact takes_object hfuel fun m hm => ih m hm _

end Values

/-- A value whose numbers are exact is read back from its text, when it is not nested too
deeply. -/
theorem parse_prettyText {v : Json} (h : v.Exact maxDepth) : parse v.prettyText = .ok v := by
  have hread := h.takes 0 (Nat.le_succ (pretty 0 v).length) [] ends_nil
  rw [List.append_nil] at hread
  simp only [parse, parseWithin, prettyText, String.toList_ofList, whole, hread, bind, Except.bind]
  rfl

end ContractDocs.Json
