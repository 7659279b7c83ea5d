import ContractDocs.Toml.Lexeme
import ContractDocs.Toml.Value

/-! Dates in the form of tables. A table that starts with the date marker stands for the
date in the text behind it. -/

namespace ContractDocs.Toml

/-- The key that marks a table as a date. -/
def dateMarker : String := "$__toml_private_datetime"

def isDatetime (text : String) : Bool :=
  match datetime text.toList with
  | some (_, []) => true
  | _ => false

mutual

/-- Whether every table that starts with the marker is a date: the marker is its only key,
with the text of a date as its value. Behind other keys the marker is a key like them. -/
def Value.marksDates : Value → Bool
  | .array items => itemsMarkDates items
  | .table _ members => tableMarksDates members
  | .tables items => tablesMarkDates items
  | _ => true

def itemsMarkDates : List Value → Bool
  | [] => true
  | v :: rest => v.marksDates && itemsMarkDates rest

def tableMarksDates : List (String × Value) → Bool
  | [] => true
  | (key, v) :: rest =>
    if key = dateMarker then
      match v with
      | .string text => isDatetime text && rest.isEmpty
      | _ => false
    else v.marksDates && membersMarkDates rest

def membersMarkDates : List (String × Value) → Bool
  | [] => true
  | (_, v) :: rest => v.marksDates && membersMarkDates rest

def tablesMarkDates : List (List (String × Value)) → Bool
  | [] => true
  | members :: rest => tableMarksDates members && tablesMarkDates rest

end

end ContractDocs.Toml
