/-! The words of a TOML text: blanks, strings, numbers and dates. -/

namespace ContractDocs.Toml

abbrev Reader (α : Type) := List Char → Option (α × List Char)

def isBlank (c : Char) : Bool :=
  c == ' ' || c == '\t'

def skipBlanks (cs : List Char) : List Char :=
  cs.dropWhile isBlank

/-- Characters of a comment or a string: all but control characters, and the tab. -/
def isPlain (c : Char) : Bool :=
  c == '\t' || (0x20 ≤ c.toNat && c.toNat ≠ 0x7F)

/-- Skips blanks, newlines and comments. A control character ends it. -/
def skipLines (inComment : Bool) : List Char → List Char
  | [] => []
  | c :: rest =>
    if c = '\n' then skipLines false rest
    else if c = '\r' then
      match rest with
      | '\n' :: rest => skipLines false rest
      | _ => c :: rest
    else if inComment then
      if isPlain c then skipLines true rest else c :: rest
    else if isBlank c then skipLines false rest
    else if c = '#' then skipLines true rest
    else c :: rest

/-- Skips what may follow on a line: blanks and a comment, up to the end of the line. -/
def endOfLine (cs : List Char) : Option (List Char) :=
  let cs :=
    match skipBlanks cs with
    | '#' :: rest => rest.dropWhile isPlain
    | cs => cs
  match cs with
  | [] => some []
  | '\n' :: rest => some rest
  | '\r' :: '\n' :: rest => some rest
  | _ => none

def hexDigit? (c : Char) : Option Nat :=
  if '0' ≤ c ∧ c ≤ '9' then some (c.toNat - 48)
  else if 'a' ≤ c ∧ c ≤ 'f' then some (c.toNat - 87)
  else if 'A' ≤ c ∧ c ≤ 'F' then some (c.toNat - 55)
  else none

/-- The character with the code point that the hexadecimal digits give. -/
def charOfHex? (digits : List Char) : Option Char := do
  let code ← digits.foldlM (fun n c => (hexDigit? c).map (n * 16 + ·)) 0
  if Nat.isValidChar code then some (Char.ofNat code) else none

/-- The character that a letter after a backslash stands for. -/
def escaped? (c : Char) : Option Char :=
  match c with
  | 'b' => some '\x08'
  | 't' => some '\t'
  | 'n' => some '\n'
  | 'f' => some '\x0c'
  | 'r' => some '\r'
  | '"' => some '"'
  | '\\' => some '\\'
  | _ => none

/-- Reads a string in quotation marks, after the opening one. -/
def basicAfter (seen : List Char) : Reader String
  | [] => none
  | c :: rest =>
    if c = '"' then some (String.ofList seen.reverse, rest)
    else if c = '\\' then
      match rest with
      | 'u' :: a :: b :: c :: d :: rest => do basicAfter ((← charOfHex? [a, b, c, d]) :: seen) rest
      | 'U' :: a :: b :: c :: d :: e :: f :: g :: h :: rest => do
        basicAfter ((← charOfHex? [a, b, c, d, e, f, g, h]) :: seen) rest
      | e :: rest => do basicAfter ((← escaped? e) :: seen) rest
      | [] => none
    else if isPlain c then basicAfter (c :: seen) rest
    else none

/-- Whether a line ends here, blanks aside. -/
def atLineEnd (cs : List Char) : Bool :=
  match skipBlanks cs with
  | '\n' :: _ => true
  | '\r' :: '\n' :: _ => true
  | _ => false

/-- The end of a string over several lines, at a run of quotes: three of them close it, and
up to two more belong to it. -/
def closing? (mark : Char) (seen : List Char) (cs : List Char) : Option (String × List Char) :=
  let count := (cs.takeWhile (· == mark)).length
  if count ≤ 5 then
    some (String.ofList (List.replicate (count - 3) mark ++ seen).reverse, cs.drop count)
  else none

/-- Reads a string over several lines in quotation marks. After a backslash at the end of a
line, `joining` is on and white space is skipped. -/
def basicLines (joining : Bool) (seen : List Char) : Reader String
  | [] => none
  | c :: rest =>
    if joining && (isBlank c || c == '\n') then basicLines true seen rest
    else if c = '\r' then
      match rest with
      | '\n' :: rest => basicLines joining (if joining then seen else '\n' :: seen) rest
      | _ => none
    else if c = '\n' then basicLines false ('\n' :: seen) rest
    else if c = '"' then
      if ((c :: rest).takeWhile (· == '"')).length < 3 then basicLines false ('"' :: seen) rest
      else closing? '"' seen (c :: rest)
    else if c = '\\' then
      if atLineEnd rest then basicLines true seen rest
      else
        match rest with
        | 'u' :: a :: b :: c :: d :: rest => do
          basicLines false ((← charOfHex? [a, b, c, d]) :: seen) rest
        | 'U' :: a :: b :: c :: d :: e :: f :: g :: h :: rest => do
          basicLines false ((← charOfHex? [a, b, c, d, e, f, g, h]) :: seen) rest
        | e :: rest => do basicLines false ((← escaped? e) :: seen) rest
        | [] => none
    else if isPlain c then basicLines false (c :: seen) rest
    else none

/-- Reads a string in apostrophes, after the opening one. -/
def literalAfter (cs : List Char) : Option (String × List Char) :=
  let text := cs.takeWhile fun c => isPlain c && c != '\''
  match cs.drop text.length with
  | '\'' :: rest => some (String.ofList text, rest)
  | _ => none

/-- Reads a string over several lines in apostrophes. -/
def literalLines (seen : List Char) : Reader String
  | [] => none
  | c :: rest =>
    if c = '\'' then
      if ((c :: rest).takeWhile (· == '\'')).length < 3 then literalLines ('\'' :: seen) rest
      else closing? '\'' seen (c :: rest)
    else if c = '\r' then
      match rest with
      | '\n' :: rest => literalLines ('\n' :: seen) rest
      | _ => none
    else if c = '\n' || isPlain c then literalLines (c :: seen) rest
    else none

/-- Skips a newline right after the opening of a string over several lines. -/
def skipNewline : List Char → List Char
  | '\n' :: rest => rest
  | '\r' :: '\n' :: rest => rest
  | cs => cs

/-- Reads a string of any of the four forms. -/
def string : Reader String
  | '"' :: '"' :: '"' :: rest => basicLines false [] (skipNewline rest)
  | '"' :: rest => basicAfter [] rest
  | '\'' :: '\'' :: '\'' :: rest => literalLines [] (skipNewline rest)
  | '\'' :: rest => literalAfter rest
  | _ => none

def isKeyChar (c : Char) : Bool :=
  c.isAlphanum || c == '_' || c == '-'

def simpleKey : Reader String
  | '"' :: rest => basicAfter [] rest
  | '\'' :: rest => literalAfter rest
  | cs =>
    let key := cs.takeWhile isKeyChar
    if key.isEmpty then none else some (String.ofList key, cs.dropWhile isKeyChar)

/-- Reads a dotted key of at most `room` parts, with blanks around them. -/
def keyPath : Nat → Reader (List String)
  | 0, _ => none
  | room + 1, cs => do
    let (key, cs) ← simpleKey (skipBlanks cs)
    match skipBlanks cs with
    | '.' :: rest =>
      let (path, cs) ← keyPath room rest
      return (key :: path, cs)
    | cs => return ([key], cs)

/-- A dotted key has at most this many parts. -/
def maxKeyParts : Nat := 79

/-- Reads digits of a class behind a first one; an underscore may stand between two. -/
def digitsAfter (isDigit : Char → Bool) (seen : List Char) : Reader (List Char)
  | [] => some (seen.reverse, [])
  | '_' :: rest =>
    match rest with
    | d :: rest => if isDigit d then digitsAfter isDigit (d :: seen) rest else none
    | [] => none
  | c :: rest =>
    if isDigit c then digitsAfter isDigit (c :: seen) rest else some (seen.reverse, c :: rest)

/-- Reads one or more digits of a class. -/
def digits (isDigit : Char → Bool) : Reader (List Char)
  | c :: rest => if isDigit c then digitsAfter isDigit [c] rest else none
  | [] => none

/-- Reads a decimal number without sign: a zero alone, or digits that start with another. -/
def wholeDigits : Reader (List Char)
  | '0' :: rest => some (['0'], rest)
  | cs => digits Char.isDigit cs

def ofDigits (base : Nat) (ds : List Char) : Nat :=
  ds.foldl (fun n c => n * base + (hexDigit? c).getD 0) 0

/-- Whether `whole.fraction` times ten to the `exponent` is at least `2 ^ 1024 - 2 ^ 970`,
where doubles become infinite. -/
def overflows (whole fraction : List Char) (exponent : Int) : Bool :=
  let significand := ofDigits 10 (whole ++ fraction)
  let power := exponent - fraction.length
  let size := ((Nat.toDigits 10 significand).length : Int) + power
  if significand = 0 ∨ size < 309 then false
  else if 310 < size then true
  else
    (Nat.pow 2 1024 - Nat.pow 2 970) * Nat.pow 10 (-power).toNat ≤
      significand * Nat.pow 10 power.toNat

/-- Reads the exponent of a float behind its mark. -/
def exponentPart (cs : List Char) : Option (Int × List Char) :=
  match cs with
  | '-' :: rest => (digits Char.isDigit rest).map fun (ds, r) => (-(ofDigits 10 ds : Int), r)
  | '+' :: rest => (digits Char.isDigit rest).map fun (ds, r) => ((ofDigits 10 ds : Int), r)
  | cs => (digits Char.isDigit cs).map fun (ds, r) => ((ofDigits 10 ds : Int), r)

def isExponentMark (c : Char) : Bool :=
  c == 'e' || c == 'E'

/-- A number that is read: whole, or with a fraction or an exponent. -/
inductive Number where
  | integer (value : Int)
  | float (text : String)

def floatText (negative : Bool) (whole fraction : List Char) (exponent : Int) : String :=
  (if negative then "-" else "") ++ String.ofList whole ++ "." ++ String.ofList fraction ++
    "e" ++ toString exponent

/-- Reads a decimal number behind its sign. A float that rounds to positive infinity is
refused, and so is an integer of more than 64 bits. -/
def decimal (negative : Bool) (cs : List Char) : Option (Number × List Char) := do
  let (whole, cs) ← wholeDigits cs
  let (fraction, cs) ←
    match cs with
    | '.' :: rest => (digits Char.isDigit rest).map fun (ds, r) => (some ds, r)
    | cs => some (none, cs)
  let (exponent, cs) ←
    match cs with
    | c :: rest =>
      if isExponentMark c then (exponentPart rest).map fun (e, r) => (some e, r)
      else some (none, c :: rest)
    | [] => some (none, [])
  match fraction, exponent with
  | none, none =>
    let n : Int := ofDigits 10 whole
    let n := if negative then -n else n
    if -Int.pow 2 63 ≤ n ∧ n < Int.pow 2 63 then return (.integer n, cs) else none
  | fraction, exponent =>
    let fraction := fraction.getD []
    let exponent := exponent.getD 0
    if !negative && overflows whole fraction exponent then none
    else return (.float (floatText negative whole fraction exponent), cs)

/-- Reads an integer in another base behind its mark. -/
def based (base : Nat) (cs : List Char) : Option (Number × List Char) := do
  let isDigit c := (hexDigit? c).any (· < base)
  let (ds, cs) ← digits isDigit cs
  let n := ofDigits base ds
  if n < Nat.pow 2 63 then return (.integer n, cs) else none

/-- Reads the words for infinity and for what is not a number. -/
def specialFloat : Reader Number
  | 'i' :: 'n' :: 'f' :: rest => some (.float "inf", rest)
  | 'n' :: 'a' :: 'n' :: rest => some (.float "nan", rest)
  | _ => none

def number : Reader Number
  | '0' :: 'x' :: rest => based 16 rest
  | '0' :: 'o' :: rest => based 8 rest
  | '0' :: 'b' :: rest => based 2 rest
  | '+' :: rest => specialFloat rest <|> decimal false rest
  | '-' :: rest => specialFloat rest <|> decimal true rest
  | cs => specialFloat cs <|> decimal false cs

/-- Reads exactly `count` digits as a number. -/
def fixedDigits (count : Nat) (cs : List Char) : Option (Nat × List Char) :=
  let ds := cs.take count
  if ds.length = count ∧ ds.all Char.isDigit then some (ofDigits 10 ds, cs.drop count) else none

def expectChar (c : Char) : List Char → Option (List Char)
  | d :: rest => if d = c then some rest else none
  | [] => none

def daysIn (year month : Nat) : Nat :=
  if month = 2 then
    if year % 4 = 0 ∧ (year % 100 ≠ 0 ∨ year % 400 = 0) then 29 else 28
  else if month = 4 ∨ month = 6 ∨ month = 9 ∨ month = 11 then 30
  else 31

/-- Skips a date. -/
def date (cs : List Char) : Option (List Char) := do
  let (year, cs) ← fixedDigits 4 cs
  let (month, cs) ← fixedDigits 2 (← expectChar '-' cs)
  let (day, cs) ← fixedDigits 2 (← expectChar '-' cs)
  if 1 ≤ month ∧ month ≤ 12 ∧ 1 ≤ day ∧ day ≤ daysIn year month then return cs else none

/-- Skips a time of day; a second may be a leap second. -/
def time (cs : List Char) : Option (List Char) := do
  let (hour, cs) ← fixedDigits 2 cs
  let (minute, cs) ← fixedDigits 2 (← expectChar ':' cs)
  let (second, cs) ← fixedDigits 2 (← expectChar ':' cs)
  if 23 < hour ∨ 59 < minute ∨ 60 < second then none
  else
    match cs with
    | '.' :: rest =>
      if (rest.takeWhile Char.isDigit).isEmpty then return cs
      else return rest.dropWhile Char.isDigit
    | cs => return cs

/-- Skips the distance from universal time, if one is given. -/
def offset : List Char → Option (List Char)
  | 'Z' :: rest => some rest
  | 'z' :: rest => some rest
  | c :: rest =>
    if c = '+' ∨ c = '-' then do
      let (hour, cs) ← fixedDigits 2 rest
      let (minute, cs) ← fixedDigits 2 (← expectChar ':' cs)
      if hour ≤ 23 ∧ minute ≤ 59 then return cs else none
    else some (c :: rest)
  | [] => some []

/-- Skips what may follow a date: a time, behind a letter or a space. -/
def timeAfterDate (cs : List Char) : Option (List Char) :=
  match cs with
  | c :: rest =>
    if c = 'T' ∨ c = 't' ∨ c = ' ' then
      match time rest with
      | some cs => offset cs
      | none => some (c :: rest)
    else some (c :: rest)
  | [] => some []

/-- Reads a date, a time, or both. -/
def datetime (cs : List Char) : Option (String × List Char) := do
  let rest ←
    match date cs with
    | some rest => timeAfterDate rest
    | none => time cs
  return (String.ofList (cs.take (cs.length - rest.length)), rest)

end ContractDocs.Toml
