/-! TOML values, and tables that grow key by key and header by header. -/

namespace ContractDocs.Toml

/-- How a table came to be, which decides what may still be added to it. -/
inductive Origin where
  /-- Defined by its own header. -/
  | header
  /-- Named in the header of a table inside it. -/
  | implied
  /-- Named in a dotted key. -/
  | dotted
  /-- Written in braces; nothing can be added. -/
  | inline
deriving DecidableEq, Repr

inductive Value where
  | string (text : String)
  | integer (number : Int)
  | float (text : String)
  | boolean (value : Bool)
  | datetime (text : String)
  | array (items : List Value)
  | table (origin : Origin) (members : List (String × Value))
  /-- The tables of one double-bracket header, first one first. -/
  | tables (items : List (List (String × Value)))
deriving Inhabited

abbrev Members := List (String × Value)

namespace Members

def set (ms : Members) (key : String) (v : Value) : Members :=
  if (ms.lookup key).isSome then ms.map fun (k, old) => (k, if k = key then v else old)
  else ms ++ [(key, v)]

def remove (ms : Members) (key : String) : Members :=
  ms.filter (·.1 ≠ key)

/-- Changes the last table of a double-bracket header. -/
def mapLast (f : Members → Option Members) : List Members → Option (List Members)
  | [] => none
  | [ms] => (f ms).map ([·])
  | ms :: rest => (mapLast f rest).map (ms :: ·)

/-- Adds a value under a dotted key: `path` leads to the table and `key` is new in it.
Tables on the way are made as needed. A table with a header of its own takes no dotted
keys, and neither does one that headers only imply, unless the key goes on below it. -/
def insert (key : String) (v : Value) : List String → Members → Option Members
  | [], ms => if (ms.lookup key).isSome then none else some (ms ++ [(key, v)])
  | p :: path, ms =>
    match ms.lookup p with
    | none => (insert key v path []).map fun inner => ms.set p (.table .dotted inner)
    | some (.table .dotted inner) =>
      (insert key v path inner).map fun inner => ms.set p (.table .dotted inner)
    | some (.table .implied inner) =>
      if path.isEmpty then none
      else (insert key v path inner).map fun inner => ms.set p (.table .implied inner)
    | some (.tables items) =>
      if path.isEmpty then none
      else (mapLast (insert key v path) items).map fun items => ms.set p (.tables items)
    | _ => none

/-- Changes the table that a header's `path` leads to. Tables on the way are made as
needed; the last table of a double-bracket header stands for all of them. -/
def descend (f : Members → Option Members) : List String → Members → Option Members
  | [], ms => f ms
  | p :: path, ms =>
    match ms.lookup p with
    | none => (descend f path []).map fun inner => ms.set p (.table .implied inner)
    | some (.table origin inner) =>
      if origin = .inline then none
      else (descend f path inner).map fun inner => ms.set p (.table origin inner)
    | some (.tables items) =>
      (mapLast (descend f path) items).map fun items => ms.set p (.tables items)
    | _ => none

/-- The table that a header's `path` leads to, if there is one. -/
def reach? : List String → Members → Option Members
  | [], ms => some ms
  | p :: path, ms =>
    match ms.lookup p with
    | some (.table _ inner) => reach? path inner
    | some (.tables items) => items.getLast?.bind (reach? path)
    | _ => none

end Members

/-- A document that is being read: the tables closed so far, and the one that is open,
with the path in its header. The path of the top level is empty. -/
structure Draft where
  root : Members := []
  path : List String := []
  repeated : Bool := false
  current : Members := []

namespace Draft

/-- Puts the open table into its place. -/
def close (d : Draft) : Option Members :=
  match d.path.getLast? with
  | none => some d.current
  | some key =>
    Members.descend (fun ms =>
      if d.repeated then
        match ms.lookup key with
        | none => some (ms.set key (.tables [d.current]))
        | some (.tables items) => some (ms.set key (.tables (items ++ [d.current])))
        | _ => none
      else some (ms.set key (.table .header d.current))) d.path.dropLast d.root

/-- Opens a table. A table that other headers only imply keeps what they put into it. -/
def openTable (path : List String) (d : Draft) : Option Draft := do
  let root ← d.close
  let key ← path.getLast?
  let root ← Members.descend (fun ms =>
    match ms.lookup key with
    | none => some ms
    | some (.table .implied _) => some ms
    | _ => none) path.dropLast root
  let parent ← Members.reach? path.dropLast root
  let current :=
    match parent.lookup key with
    | some (.table _ inner) => inner
    | _ => []
  let root ← Members.descend (fun ms => some (ms.remove key)) path.dropLast root
  return { root, path, current }

/-- Opens one more table of a double-bracket header. -/
def openRepeated (path : List String) (d : Draft) : Option Draft := do
  let root ← d.close
  let key ← path.getLast?
  let root ← Members.descend (fun ms =>
    match ms.lookup key with
    | none => some ms
    | some (.tables _) => some ms
    | _ => none) path.dropLast root
  return { root, path, repeated := true }

def add (path : List String) (v : Value) (d : Draft) : Option Draft := do
  let key ← path.getLast?
  return { d with current := ← d.current.insert key v path.dropLast }

end Draft

end ContractDocs.Toml
