import ContractDocs.Json.Numeral

/-! Reading JSON text from left to right. The first fault in the order of the text is
reported. A value that is kept may hold 127 nested arrays and objects; a value that is
skipped is only checked for its form. -/

namespace ContractDocs.Json

/-- Why a text is refused: it ends too early, it is not JSON, or it is JSON of another
shape than expected. -/
inductive Fault where
  | ended
  | malformed
  | mismatch
deriving DecidableEq, Repr

abbrev Reader (α : Type) := List Char → Except Fault (α × List Char)

def isSpace (c : Char) : Bool :=
  c == ' ' || c == '\t' || c == '\n' || c == '\r'

def skipSpace (cs : List Char) : List Char :=
  cs.dropWhile isSpace

/-- Reads the rest of a word whose first letter has been read. -/
def word : List Char → List Char → Except Fault (List Char)
  | [], cs => .ok cs
  | _ :: _, [] => .error .ended
  | w :: more, c :: cs => if c = w then word more cs else .error .malformed

def hexValue? (c : Char) : Option Nat :=
  if '0' ≤ c ∧ c ≤ '9' then some (c.toNat - 48)
  else if 'a' ≤ c ∧ c ≤ 'f' then some (c.toNat - 87)
  else if 'A' ≤ c ∧ c ≤ 'F' then some (c.toNat - 55)
  else none

def hexUnit? (a b c d : Char) : Option Nat := do
  return (← hexValue? a) * 4096 + (← hexValue? b) * 256 + (← hexValue? c) * 16 + (← hexValue? d)

/-- The fault of a hexadecimal escape that has fewer than four characters behind it.
The text has ended if those take fewer than four bytes. -/
def shortEscape (cs : List Char) : Fault :=
  if (String.ofList cs).utf8ByteSize < 4 then .ended else .malformed

/-- The character after a backslash stands for, other than a hexadecimal escape. -/
def escaped? (c : Char) : Option Char :=
  match c with
  | '"' => some '"'
  | '\\' => some '\\'
  | '/' => some '/'
  | 'b' => some '\x08'
  | 'f' => some '\x0c'
  | 'n' => some '\n'
  | 'r' => some '\r'
  | 't' => some '\t'
  | _ => none

def isHighSurrogate (n : Nat) : Bool :=
  0xD800 ≤ n && n ≤ 0xDBFF

def isLowSurrogate (n : Nat) : Bool :=
  0xDC00 ≤ n && n ≤ 0xDFFF

/-- Reads a string after its opening quote; `seen` holds its characters so far, last one
first. Surrogates have to come in pairs. -/
def stringAfter (seen : List Char) : Reader String
  | [] => .error .ended
  | c :: rest =>
    if c = '"' then .ok (String.ofList seen.reverse, rest)
    else if c = '\\' then
      match rest with
      | [] => .error .ended
      | e :: rest =>
        if e = 'u' then
          match rest with
          | a :: b :: c :: d :: rest =>
            match hexUnit? a b c d with
            | none => .error .malformed
            | some unit =>
              if isLowSurrogate unit then .error .malformed
              else if isHighSurrogate unit then
                match rest with
                | [] => .error .ended
                | x :: rest =>
                  if x ≠ '\\' then .error .malformed
                  else
                    match rest with
                    | [] => .error .ended
                    | y :: rest =>
                      if y ≠ 'u' then .error .malformed
                      else
                        match rest with
                        | a :: b :: c :: d :: rest =>
                          match hexUnit? a b c d with
                          | none => .error .malformed
                          | some second =>
                            if isLowSurrogate second then
                              let code := (unit - 0xD800) * 0x400 + (second - 0xDC00) + 0x10000
                              stringAfter (Char.ofNat code :: seen) rest
                            else .error .malformed
                        | short => .error (shortEscape short)
              else stringAfter (Char.ofNat unit :: seen) rest
          | short => .error (shortEscape short)
        else
          match escaped? e with
          | some c => stringAfter (c :: seen) rest
          | none => .error .malformed
    else if c.toNat < 32 then .error .malformed
    else stringAfter (c :: seen) rest

/-- Skips a string after its opening quote. Surrogates may stand alone. -/
def skipString : List Char → Except Fault (List Char)
  | [] => .error .ended
  | c :: rest =>
    if c = '"' then .ok rest
    else if c = '\\' then
      match rest with
      | [] => .error .ended
      | e :: rest =>
        if e = 'u' then
          match rest with
          | a :: b :: c :: d :: rest =>
            match hexUnit? a b c d with
            | none => .error .malformed
            | some _ => skipString rest
          | short => .error (shortEscape short)
        else if (escaped? e).isSome then skipString rest
        else .error .malformed
    else if c.toNat < 32 then .error .malformed
    else skipString rest

def digitValue (c : Char) : Nat :=
  c.toNat - 48

/-- Reads the digits of an exponent behind its mark and sign. -/
def exponentDigits (short : Fault) : Reader (List Nat)
  | [] => .error short
  | c :: rest =>
    if c.isDigit then
      .ok (((c :: rest).takeWhile Char.isDigit).map digitValue, rest.dropWhile Char.isDigit)
    else .error .malformed

/-- Reads an exponent, if there is one. -/
def exponentPart (short : Fault) : Reader (Option (Bool × List Nat))
  | c :: rest =>
    if c = 'e' ∨ c = 'E' then
      match rest with
      | '+' :: rest => (exponentDigits short rest).map fun (ds, r) => (some (false, ds), r)
      | '-' :: rest => (exponentDigits short rest).map fun (ds, r) => (some (true, ds), r)
      | rest => (exponentDigits short rest).map fun (ds, r) => (some (false, ds), r)
    else .ok (none, c :: rest)
  | [] => .ok (none, [])

/-- Reads a fraction, if there is one. -/
def fractionPart (short : Fault) : Reader (Option (List Nat))
  | '.' :: rest =>
    let ds := rest.takeWhile Char.isDigit
    if ds.isEmpty then .error (if rest.isEmpty then short else .malformed)
    else .ok (some (ds.map digitValue), rest.dropWhile Char.isDigit)
  | cs => .ok (none, cs)

/-- Reads the whole part: a zero alone, or digits that start with another one. -/
def wholePart (short : Fault) : Reader (List Nat)
  | [] => .error short
  | c :: rest =>
    if c = '0' then
      match rest with
      | d :: _ => if d.isDigit then .error .malformed else .ok ([0], rest)
      | [] => .ok ([0], [])
    else if c.isDigit then
      .ok (((c :: rest).takeWhile Char.isDigit).map digitValue, rest.dropWhile Char.isDigit)
    else .error .malformed

/-- Reads a numeral behind its sign; `short` is the fault of a text that ends inside it. -/
def numeral (short : Fault) (negative : Bool) : Reader Numeral := fun cs => do
  let (whole, cs) ← wholePart short cs
  let (fraction, cs) ← fractionPart short cs
  let (exponent, cs) ← exponentPart short cs
  return ({ negative, whole, fraction := fraction.getD [], exponent
            integral := fraction.isNone && exponent.isNone }, cs)

def number (negative : Bool) : Reader Json := fun cs => do
  let (n, cs) ← numeral .ended negative cs
  match n.value? with
  | some v => return (v, cs)
  | none => throw .malformed

/-- Reads a value that is neither an array nor an object and starts with the first
character of the text. -/
def scalar : Reader Json
  | [] => .error .ended
  | c :: rest =>
    if c = '"' then (stringAfter [] rest).map fun (s, r) => (string s, r)
    else if c = 'n' then (word ['u', 'l', 'l'] rest).map fun r => (null, r)
    else if c = 't' then (word ['r', 'u', 'e'] rest).map fun r => (bool true, r)
    else if c = 'f' then (word ['a', 'l', 's', 'e'] rest).map fun r => (bool false, r)
    else if c = '-' then number true rest
    else if c.isDigit then number false (c :: rest)
    else .error .malformed

/-- Reads the items of an array from its first item on. The number of items is bounded
by `fuel`, for which the length of the text is enough. -/
def itemsFrom {α : Type} (item : Reader α) : Nat → List α → Reader (List α)
  | 0, _, _ => .error .malformed
  | fuel + 1, seen, cs => do
    let (v, cs) ← item cs
    match skipSpace cs with
    | [] => throw .ended
    | c :: rest =>
      if c = ']' then return ((v :: seen).reverse, rest)
      else if c = ',' then
        match skipSpace rest with
        | [] => throw .ended
        | ']' :: _ => throw .malformed
        | rest => itemsFrom item fuel (v :: seen) rest
      else throw .malformed

/-- Reads the items of an array after its opening bracket. -/
def items {α : Type} (fuel : Nat) (item : Reader α) : Reader (List α) := fun cs =>
  match skipSpace cs with
  | [] => .error .ended
  | ']' :: rest => .ok ([], rest)
  | rest => itemsFrom item fuel [] rest

/-- Reads the colon between a key and its value. -/
def colon (cs : List Char) : Except Fault (List Char) :=
  match skipSpace cs with
  | [] => .error .ended
  | ':' :: rest => .ok rest
  | _ => .error .malformed

/-- Reads the members of an object from its first key on. What a member means for the
members read so far is left to `member`, which starts behind the key. -/
def membersFrom {α : Type} (member : α → String → Reader α) : Nat → α → Reader α
  | 0, _, _ => .error .malformed
  | fuel + 1, seen, cs =>
    match cs with
    | '"' :: rest => do
      let (key, cs) ← stringAfter [] rest
      let (seen, cs) ← member seen key cs
      match skipSpace cs with
      | [] => throw .ended
      | c :: rest =>
        if c = '\x7d' then return (seen, rest)
        else if c = ',' then
          match skipSpace rest with
          | [] => throw .ended
          | rest => membersFrom member fuel seen rest
        else throw .malformed
    | _ => .error .malformed

/-- Reads the members of an object after its opening brace. -/
def members {α : Type} (fuel : Nat) (member : α → String → Reader α) (start : α) :
    Reader α := fun cs =>
  match skipSpace cs with
  | [] => .error .ended
  | '\x7d' :: rest => .ok (start, rest)
  | rest => membersFrom member fuel start rest

/-- Reads a value with at most `room` arrays and objects inside one another. -/
def value (fuel : Nat) : Nat → Reader Json
  | room, cs =>
    match skipSpace cs with
    | [] => .error .ended
    | c :: rest =>
      if c = '[' then
        match room with
        | 0 => .error .malformed
        | room + 1 =>
          (items fuel (value fuel room) rest).map fun (vs, r) => (array vs, r)
      else if c = '\x7b' then
        match room with
        | 0 => .error .malformed
        | room + 1 => do
          let member (seen : List (String × Json)) (key : String) : Reader (List (String × Json)) :=
            fun cs => do
              let (v, cs) ← value fuel room (← colon cs)
              return ((key, v) :: seen, cs)
          (members fuel member [] rest).map fun (ms, r) => (object ms.reverse, r)
      else scalar (c :: rest)

/-- Arrays and objects that are open while a value is skipped. -/
inductive Bracket where
  | square
  | curly
deriving DecidableEq, Repr

/-- What comes next while a value is skipped: a value, or what follows one. -/
inductive Skipping where
  | value
  | after
  | opened

/-- Skips a key and the colon behind it, at the start of the text. -/
def skipKey (cs : List Char) : Except Fault (List Char) :=
  match skipSpace cs with
  | [] => .error .ended
  | '"' :: rest => do colon (← skipString rest)
  | _ => .error .malformed

/-- Skips what is left of a value inside the given brackets, innermost first. Every step
consumes a character or closes the last bracket, so twice the length of the text is
enough `fuel`. -/
def skipFrom : Nat → Skipping → List Bracket → List Char → Except Fault (List Char)
  | 0, _, _, _ => .error .malformed
  | _ + 1, .after, [], cs => .ok cs
  | fuel + 1, .after, b :: outer, cs =>
    match skipSpace cs with
    | [] => .error .ended
    | c :: rest =>
      if c = ',' then
        match b with
        | .square => skipFrom fuel .value (b :: outer) rest
        | .curly => do skipFrom fuel .value (b :: outer) (← skipKey rest)
      else if c = (match b with | .square => ']' | .curly => '\x7d') then
        skipFrom fuel .after outer rest
      else .error .malformed
  | fuel + 1, .opened, stack, cs =>
    match skipSpace cs, stack with
    | [], _ => .error .ended
    | ']' :: rest, .square :: outer => skipFrom fuel .after outer rest
    | '\x7d' :: rest, .curly :: outer => skipFrom fuel .after outer rest
    | cs, .curly :: _ => do skipFrom fuel .value stack (← skipKey cs)
    | cs, _ => skipFrom fuel .value stack cs
  | fuel + 1, .value, stack, cs =>
    match skipSpace cs with
    | [] => .error .ended
    | c :: rest =>
      if c = '[' then skipFrom fuel .opened (.square :: stack) rest
      else if c = '\x7b' then skipFrom fuel .opened (.curly :: stack) rest
      else if c = '"' then do skipFrom fuel .after stack (← skipString rest)
      else if c = '-' then do
        skipFrom fuel .after stack (← numeral .malformed true rest).2
      else if c.isDigit then do
        skipFrom fuel .after stack (← numeral .malformed false (c :: rest)).2
      else do
        let (_, rest) ← scalar (c :: rest)
        skipFrom fuel .after stack rest

def skipValue (fuel : Nat) (cs : List Char) : Except Fault (List Char) :=
  skipFrom (2 * fuel + 2) .value [] cs

/-- How many arrays and objects may be nested in a value that is kept. -/
def maxDepth : Nat := 127

/-- Reads one thing and makes sure that only white space follows. -/
def whole {α : Type} (read : Reader α) (cs : List Char) : Except Fault α := do
  let (v, rest) ← read cs
  if (skipSpace rest).isEmpty then return v else throw .malformed

/-- Reads a text with at most `room` levels of nesting as one value. -/
def parseWithin (room : Nat) (text : String) : Except Fault Json :=
  let cs := text.toList
  whole (value (cs.length + 1) room) cs

def parse (text : String) : Except Fault Json :=
  parseWithin maxDepth text

end ContractDocs.Json
