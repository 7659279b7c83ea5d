import ContractDocs.Text.Blank

/-! Line breaks: cutting a text into lines, folding it into one, and thinning out
the blank lines of a page. -/

namespace ContractDocs.Text

/-- The pieces of a text between its separators; there is always at least one. -/
def pieces (separator : Char) : List Char → List (List Char)
  | [] => [[]]
  | c :: rest =>
    if c = separator then [] :: pieces separator rest
    else
      match pieces separator rest with
      | piece :: more => (c :: piece) :: more
      | [] => [[c]]

def lines (cs : List Char) : List (List Char) :=
  pieces '\n' cs

/-- Writes each line break as one space. A carriage return and the newline right after
it are one break. -/
def singleLine : List Char → List Char
  | [] => []
  | '\r' :: '\n' :: rest => ' ' :: singleLine rest
  | c :: rest => (if c = '\r' ∨ c = '\n' then ' ' else c) :: singleLine rest

/-- Keeps the first two newlines of each run; `run` newlines have just been kept. -/
def thinAfter (run : Nat) : List Char → List Char
  | [] => []
  | c :: rest =>
    if c = '\n' then
      if run < 2 then c :: thinAfter (run + 1) rest else thinAfter run rest
    else c :: thinAfter 0 rest

/-- At most one blank line in a row, no white space at the ends, one newline behind. -/
def tidy (page : String) : String :=
  String.ofList (trim (thinAfter 0 page.toList) ++ ['\n'])

end ContractDocs.Text
