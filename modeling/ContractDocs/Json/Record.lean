import ContractDocs.Json.Shape

/-! Records inside a JSON value. A record is an object with a member for each field that
is present, or an array with a value for each field in their order. -/

namespace ContractDocs.Json

/-- A value that stands inside `v`. -/
abbrev Part (v : Json) := { w : Json // sizeOf w < sizeOf v }

theorem sizeOf_item_lt {items : List Json} {v : Json} (h : v ∈ items) :
    sizeOf v < sizeOf (array items) := by
  have := List.sizeOf_lt_of_mem h
  simp only [array.sizeOf_spec]
  omega

theorem sizeOf_member_lt {members : List (String × Json)} {key : String} {v : Json}
    (h : (key, v) ∈ members) : sizeOf v < sizeOf (object members) := by
  have := List.sizeOf_lt_of_mem h
  simp only [object.sizeOf_spec, Prod.mk.sizeOf_spec] at *
  omega

def itemAt? (items : List Json) (i : Nat) : Option (Part (array items)) :=
  if h : i < items.length then some ⟨items[i], sizeOf_item_lt (List.getElem_mem h)⟩ else none

def memberAt? (members : List (String × Json)) (key : String) : Option (Part (object members)) :=
  match h : members.find? (·.1 == key) with
  | some m => some ⟨m.2, sizeOf_member_lt (List.mem_of_find?_eq_some h)⟩
  | none => none

/-- The fields of a record by their names. There is none if a value is missing that has to
be there, if a field is given twice, or if an array has more values than fields. -/
def open? {κ : Type} (fields : List (Field κ)) : (v : Json) → Option (String → Option (Part v))
  | array items =>
    if items.length ≤ fields.length ∧
        (fields.drop items.length).all (·.presence = .defaulted) then
      some fun name => itemAt? items (fields.findIdx (·.name == name))
    else none
  | object members =>
    if fields.all fun f =>
        let count := members.countP (·.1 == f.name)
        count ≤ 1 && (count == 1 || f.presence ≠ .required) then
      some fun name => memberAt? members name
    else none
  | _ => none

/-- Decodes a field that may be absent or `null`. -/
def optional? {α : Type} {v : Json} (decode : Part v → Option α) :
    Option (Part v) → Option (Option α)
  | none => some none
  | some ⟨null, _⟩ => some none
  | some part => (decode part).map some

/-- Decodes an array item by item. -/
def list? {α : Type} {v : Json} (decode : Part v → Option α) : Part v → Option (List α)
  | ⟨array items, h⟩ =>
    items.attach.mapM fun ⟨w, hw⟩ => decode ⟨w, Nat.lt_trans (sizeOf_item_lt hw) h⟩
  | _ => none

end ContractDocs.Json
