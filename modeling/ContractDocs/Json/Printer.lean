import ContractDocs.Decimal.Shortest
import ContractDocs.Json.Value

/-! JSON text: on one line without spaces, and over several lines with an indentation of
two spaces. -/

namespace ContractDocs.Json

def hexDigit (n : Nat) : Char :=
  Nat.digitChar n

/-- A character of a string. Quotes, backslashes and control characters are escaped,
everything else stands for itself. -/
def escapeChar (c : Char) : List Char :=
  if c = '"' then ['\\', '"']
  else if c = '\\' then ['\\', '\\']
  else if c = '\n' then ['\\', 'n']
  else if c = '\r' then ['\\', 'r']
  else if c = '\t' then ['\\', 't']
  else if c.toNat = 8 then ['\\', 'b']
  else if c.toNat = 12 then ['\\', 'f']
  else if c.toNat < 32 then
    ['\\', 'u', '0', '0', hexDigit (c.toNat / 16), hexDigit (c.toNat % 16)]
  else [c]

def quote (text : String) : List Char :=
  '"' :: text.toList.flatMap escapeChar ++ ['"']

def natDigits (n : Nat) : List Char :=
  Nat.toDigits 10 n

def intDigits (n : Int) : List Char :=
  if n < 0 then '-' :: natDigits n.natAbs else natDigits n.natAbs

/-- Magnitudes from `10 ^ -5` up to `10 ^ 16` are written with a decimal point, others
with a signed exponent. A whole number ends in `.0`. -/
def magnitudeDigits (m : Decimal.Magnitude) : List Char :=
  let (digits, power) := m.shortest
  let ds := natDigits digits
  let lead : Int := (ds.length : Int) - 1 + power
  if lead < -5 ∨ 16 ≤ lead then
    let fraction := if ds.length = 1 then [] else '.' :: ds.drop 1
    ds.take 1 ++ fraction ++ 'e' :: (if lead < 0 then '-' else '+') :: natDigits lead.natAbs
  else if 0 ≤ power then ds ++ List.replicate power.toNat '0' ++ ['.', '0']
  else if 0 ≤ lead then ds.take (lead.toNat + 1) ++ '.' :: ds.drop (lead.toNat + 1)
  else '0' :: '.' :: List.replicate (lead.natAbs - 1) '0' ++ ds

def doubleDigits (d : Decimal.Double) : List Char :=
  if d.negative then '-' :: magnitudeDigits d.magnitude else magnitudeDigits d.magnitude

mutual

/-- The text of a value without spaces. -/
def compact : Json → List Char
  | null => ['n', 'u', 'l', 'l']
  | bool true => ['t', 'r', 'u', 'e']
  | bool false => ['f', 'a', 'l', 's', 'e']
  | int n => intDigits n
  | double d => doubleDigits d
  | string s => quote s
  | array items => '[' :: compactItems items ++ [']']
  | object members => '\x7b' :: compactMembers members ++ ['\x7d']

def compactItems : List Json → List Char
  | [] => []
  | [v] => compact v
  | v :: rest => compact v ++ ',' :: compactItems rest

def compactMembers : List (String × Json) → List Char
  | [] => []
  | [(k, v)] => quote k ++ ':' :: compact v
  | (k, v) :: rest => quote k ++ ':' :: compact v ++ ',' :: compactMembers rest

end

/-- The start of a line that is `depth` levels deep. -/
def newline (depth : Nat) : List Char :=
  '\n' :: List.replicate (2 * depth) ' '

mutual

/-- The text of a value over several lines; `depth` is the level of the line it starts on. -/
def pretty (depth : Nat) : Json → List Char
  | array (v :: rest) =>
    '[' :: newline (depth + 1) ++ pretty (depth + 1) v ++ prettyItems (depth + 1) rest ++
      newline depth ++ [']']
  | object ((k, v) :: rest) =>
    '\x7b' :: newline (depth + 1) ++ quote k ++ ':' :: ' ' :: pretty (depth + 1) v ++
      prettyMembers (depth + 1) rest ++ newline depth ++ ['\x7d']
  | v => compact v

def prettyItems (depth : Nat) : List Json → List Char
  | [] => []
  | v :: rest => ',' :: newline depth ++ pretty depth v ++ prettyItems depth rest

def prettyMembers (depth : Nat) : List (String × Json) → List Char
  | [] => []
  | (k, v) :: rest =>
    ',' :: newline depth ++ quote k ++ ':' :: ' ' :: pretty depth v ++ prettyMembers depth rest

end

def compactText (v : Json) : String :=
  String.ofList v.compact

def prettyText (v : Json) : String :=
  String.ofList (v.pretty 0)

end ContractDocs.Json
