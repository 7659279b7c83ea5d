import ContractDocs.Decimal.Double

/-! JSON values. An object keeps its members as they were written; its canonical form
has each key once, with the last value written for it, in the order of code points. -/

namespace ContractDocs

inductive Json where
  | null
  | bool (value : Bool)
  | int (value : Int)
  | double (value : Decimal.Double)
  | string (value : String)
  | array (items : List Json)
  | object (members : List (String × Json))
deriving Inhabited

namespace Json

/-- Puts a member into members sorted by key; a member of the same key is replaced. -/
def putMember {α : Type} (key : String) (value : α) :
    List (String × α) → List (String × α)
  | [] => [(key, value)]
  | (k, v) :: rest =>
    if key < k then (key, value) :: (k, v) :: rest
    else if key = k then (key, value) :: rest
    else (k, v) :: putMember key value rest

mutual

def canonical : Json → Json
  | array items => array (canonicalItems items)
  | object members => object (canonicalMembers members [])
  | v => v

def canonicalItems : List Json → List Json
  | [] => []
  | v :: rest => canonical v :: canonicalItems rest

def canonicalMembers : List (String × Json) → List (String × Json) → List (String × Json)
  | [], sorted => sorted
  | (k, v) :: rest, sorted => canonicalMembers rest (putMember k (canonical v) sorted)

end

def isNull : Json → Bool
  | null => true
  | _ => false

end Json

end ContractDocs
