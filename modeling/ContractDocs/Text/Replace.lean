/-! Replacing and finding a piece of text. -/

namespace ContractDocs.Text

/-- Replaces the occurrences of `piece` by `value` from left to right. The next `skip`
characters belong to an occurrence that is already replaced, so occurrences never overlap. -/
def replaceFrom (piece value : List Char) (skip : Nat) : List Char → List Char
  | [] => []
  | c :: rest =>
    match skip with
    | more + 1 => replaceFrom piece value more rest
    | 0 =>
      if piece.isPrefixOf (c :: rest) then
        value ++ replaceFrom piece value (piece.length - 1) rest
      else c :: replaceFrom piece value 0 rest

/-- Replaces every occurrence of a non-empty `piece` in `text` by `value`. -/
def replace (text piece value : String) : String :=
  String.ofList (replaceFrom piece.toList value.toList 0 text.toList)

/-- Whether `piece` occurs in the text. -/
def occursIn (piece : List Char) : List Char → Bool
  | [] => piece.isEmpty
  | c :: rest => piece.isPrefixOf (c :: rest) || occursIn piece rest

def contains (text piece : String) : Bool :=
  occursIn piece.toList text.toList

end ContractDocs.Text
