import ContractDocs.Toml.Lexeme
import ContractDocs.Toml.Value

/-! Reading a TOML text. -/

namespace ContractDocs.Toml

/-- Reads a given word. -/
def word (w : List Char) (cs : List Char) : Option (List Char) :=
  if w.isPrefixOf cs then some (cs.drop w.length) else none

/-- Reads a value that is neither an array nor a table in braces. -/
def scalar : Reader Value
  | [] => none
  | c :: rest =>
    if c = '"' ∨ c = '\'' then (string (c :: rest)).map fun (s, r) => (.string s, r)
    else if c = 't' then (word "rue".toList rest).map fun r => (.boolean true, r)
    else if c = 'f' then (word "alse".toList rest).map fun r => (.boolean false, r)
    else
      match datetime (c :: rest) with
      | some (text, r) => some (.datetime text, r)
      | none =>
        (number (c :: rest)).map fun
          | (.integer n, r) => (.integer n, r)
          | (.float text, r) => (.float text, r)

/-- Reads the items of an array, after the opening bracket or a comma. The number of items
is bounded by `fuel`, for which the length of the text is enough. -/
def itemsFrom (item : Reader Value) : Nat → List Value → Reader (List Value)
  | 0, _, _ => none
  | fuel + 1, seen, cs =>
    match skipLines false cs with
    | ']' :: rest => some (seen.reverse, rest)
    | cs => do
      let (v, cs) ← item cs
      match skipLines false cs with
      | ',' :: rest => itemsFrom item fuel (v :: seen) rest
      | ']' :: rest => return ((v :: seen).reverse, rest)
      | _ => none

/-- Reads a key, an equals sign and a value. -/
def keyValue (item : Reader Value) : Reader (List String × Value) := fun cs => do
  let (path, cs) ← keyPath maxKeyParts cs
  let (v, cs) ← item (skipBlanks (← expectChar '=' cs))
  return ((path, v), cs)

/-- Reads the members of a table in braces, from a key on. -/
def membersFrom (item : Reader Value) : Nat → Members → Reader Members
  | 0, _, _ => none
  | fuel + 1, seen, cs => do
    let ((path, v), cs) ← keyValue item cs
    let key ← path.getLast?
    let seen ← seen.insert key v path.dropLast
    match skipBlanks cs with
    | ',' :: rest => membersFrom item fuel seen rest
    | '\x7d' :: rest => return (seen, rest)
    | _ => none

/-- Reads a value with at most `room` arrays and tables inside one another. -/
def value (fuel : Nat) : Nat → Reader Value
  | room, cs =>
    match cs, room with
    | '[' :: _, 0 => none
    | '\x7b' :: _, 0 => none
    | '[' :: rest, room + 1 =>
      (itemsFrom (value fuel room) fuel [] rest).map fun (vs, r) => (.array vs, r)
    | '\x7b' :: rest, room + 1 =>
      match skipBlanks rest with
      | '\x7d' :: rest => some (.table .inline [], rest)
      | rest =>
        (membersFrom (value fuel room) fuel [] rest).map fun (ms, r) => (.table .inline ms, r)
    | cs, _ => scalar cs

/-- How many arrays and tables in braces may be nested. -/
def maxDepth : Nat := 79

/-- Reads a header behind its opening bracket or brackets. -/
def header (closing : List Char) (cs : List Char) : Option (List String × List Char) := do
  let (path, cs) ← keyPath maxKeyParts cs
  return (path, ← endOfLine (← word closing cs))

/-- Reads a document line by line. Every line takes a character, so the length of the text
is enough `fuel`. -/
def documentFrom (size : Nat) : Nat → Draft → List Char → Option Members
  | 0, d, _ => d.close
  | fuel + 1, d, cs =>
    match skipLines false cs with
    | [] => d.close
    | '[' :: '[' :: rest => do
      let (path, rest) ← header [']', ']'] rest
      documentFrom size fuel (← d.openRepeated path) rest
    | '[' :: rest => do
      let (path, rest) ← header [']'] rest
      documentFrom size fuel (← d.openTable path) rest
    | cs => do
      let ((path, v), rest) ← keyValue (value size maxDepth) cs
      documentFrom size fuel (← d.add path v) (← endOfLine rest)

/-- The members of a document's top level. A byte order mark in front is skipped. -/
def parse (text : String) : Option Members :=
  let cs :=
    match text.toList with
    | '\ufeff' :: rest => rest
    | cs => cs
  documentFrom (cs.length + 1) (cs.length + 1) {} cs

end ContractDocs.Toml
