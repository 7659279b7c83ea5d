import ContractDocs.Json.Reader

/-! Reading JSON text that is expected to have a certain shape. A value of another shape
is refused where it stands, before anything that comes later in the text. Members that no
field asks for are skipped. -/

namespace ContractDocs.Json

/-- Whether a field has to be there. An optional one may be `null`, which is the same as
leaving it out; a defaulted one may only be left out. -/
inductive Presence where
  | required
  | optional
  | defaulted
deriving DecidableEq, Repr

/-- What a value is expected to be; `κ` names the kinds of records. -/
inductive Shape (κ : Type) where
  | text
  | integer
  | flag
  | anything
  /-- A string, or an object that holds an optional string under the given key. -/
  | wrapped (key : String)
  | list (item : Shape κ)
  | record (kind : κ)
deriving Repr

structure Field (κ : Type) where
  name : String
  shape : Shape κ
  presence : Presence := .optional
deriving Repr

/-- The fields of each kind of record, in the order in which an array gives their values. -/
abbrev Layout (κ : Type) := κ → List (Field κ)

def text? : Json → Option String
  | string s => some s
  | _ => none

/-- Integers of 64 bits with a sign. -/
def integer? : Json → Option Int
  | int n => if -Int.pow 2 63 ≤ n ∧ n < Int.pow 2 63 then some n else none
  | _ => none

def flag? : Json → Option Bool
  | bool b => some b
  | _ => none

/-- A string, or the text an object holds under `key`: `some (some none)` if it holds none. -/
def wrapped? (key : String) : Json → Option (Sum String (Option String))
  | string s => some (.inl s)
  | object members =>
    match members.filter (·.1 == key) with
    | [] => some (.inr none)
    | [(_, null)] => some (.inr none)
    | [(_, string s)] => some (.inr (some s))
    | _ => none
  | _ => none

/-- Refuses a value that is neither an array nor an object, after reading it; refuses an
array or an object at once. -/
def refuse {α : Type} (cs : List Char) : Except Fault α :=
  match cs with
  | '[' :: _ => .error .mismatch
  | '\x7b' :: _ => .error .mismatch
  | cs => do
    let _ ← scalar cs
    throw .mismatch

/-- Reads a value that is neither an array nor an object and passes a test. -/
def expect (test : Json → Bool) (cs : List Char) : Except Fault (Json × List Char) :=
  match cs with
  | '[' :: _ => .error .mismatch
  | '\x7b' :: _ => .error .mismatch
  | cs => do
    let (v, rest) ← scalar cs
    if test v then return (v, rest) else throw .mismatch

/-- Reads the value of a field. -/
def fieldValue {κ : Type} (read : Shape κ → Reader Json) (f : Field κ) : Reader Json := fun cs =>
  match f.presence, skipSpace cs with
  | .optional, 'n' :: rest => (word ['u', 'l', 'l'] rest).map fun r => (null, r)
  | _, cs => read f.shape cs

/-- Reads one member of a record given as an object, behind its key. -/
def fieldMember {κ : Type} (fuel : Nat) (read : Shape κ → Reader Json) (fields : List (Field κ))
    (seen : List (String × Json)) (key : String) : Reader (List (String × Json)) := fun cs =>
  match fields.find? (·.name == key) with
  | some f =>
    if seen.any (·.1 == key) then .error .mismatch
    else do
      let (v, cs) ← fieldValue read f (← colon cs)
      return ((key, v) :: seen, cs)
  | none => do return (seen, ← skipValue fuel (← colon cs))

/-- Reads the values of a record given as an array. Values at the end may be missing if
their fields have defaults. -/
def fieldItems {κ : Type} (read : Shape κ → Reader Json) :
    List (Field κ) → List Json → Reader (List Json)
  | [], seen, cs =>
    match skipSpace cs with
    | [] => .error .ended
    | ']' :: rest => .ok (seen.reverse, rest)
    | _ => .error .malformed
  | f :: fields, seen, cs =>
    match skipSpace cs with
    | [] => .error .ended
    | c :: rest =>
      if c = ']' then
        if f.presence = .defaulted then fieldItems read fields seen (c :: rest)
        else .error .mismatch
      else if seen.isEmpty then do
        let (v, cs) ← fieldValue read f (c :: rest)
        fieldItems read fields (v :: seen) cs
      else if c = ',' then
        match skipSpace rest with
        | [] => .error .ended
        | ']' :: _ => .error .malformed
        | rest => do
          let (v, cs) ← fieldValue read f rest
          fieldItems read fields (v :: seen) cs
      else .error .malformed

/-- Reads a value of the given shape with at most `room` levels of nesting. -/
def Shape.read {κ : Type} (layout : Layout κ) (fuel : Nat) : Nat → Shape κ → Reader Json
  | room, shape, cs =>
    match skipSpace cs with
    | [] => .error .ended
    | c :: rest =>
      match shape with
      | .anything => value fuel room (c :: rest)
      | .wrapped key => do
        let (v, cs) ← value fuel room (c :: rest)
        if (v.wrapped? key).isSome then return (v, cs) else throw .mismatch
      | .text => expect (·.text?.isSome) (c :: rest)
      | .integer => expect (·.integer?.isSome) (c :: rest)
      | .flag => expect (·.flag?.isSome) (c :: rest)
      | .list item =>
        if c = '[' then
          match room with
          | 0 => .error .malformed
          | room + 1 =>
            (items fuel (Shape.read layout fuel room item) rest).map fun (vs, r) => (array vs, r)
        else refuse (c :: rest)
      | .record kind =>
        if c = '[' then
          match room with
          | 0 => .error .malformed
          | room + 1 =>
            (fieldItems (Shape.read layout fuel room) (layout kind) [] rest).map
              fun (vs, r) => (array vs, r)
        else if c = '\x7b' then
          match room with
          | 0 => .error .malformed
          | room + 1 => do
            let member := fieldMember fuel (Shape.read layout fuel room) (layout kind)
            let (ms, r) ← members fuel member [] rest
            if (layout kind).all fun f => f.presence ≠ .required || ms.any (·.1 == f.name) then
              return (object ms.reverse, r)
            else throw .mismatch
        else refuse (c :: rest)

/-- Reads a text that holds one value of the given shape. -/
def parseAs {κ : Type} (layout : Layout κ) (shape : Shape κ) (text : String) :
    Except Fault Json :=
  let cs := text.toList
  whole (shape.read layout (cs.length + 1) maxDepth) cs

end ContractDocs.Json
