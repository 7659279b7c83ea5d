import ContractDocs.Text.Lines
import ContractDocs.Text.Word

/-! Tagged documentation comments. Text in front of the first tag belongs to the tag
`notice`; a line without a tag continues the tag before it. -/

namespace ContractDocs

/-- The lines of a comment with their tags, in document order. No line is empty. -/
structure Natspec where
  entries : List (String × String)
deriving DecidableEq, Repr, Inhabited

namespace Natspec

/-- A line without white space at its ends and without the stars of a block comment. -/
def bare (line : List Char) : List Char :=
  Text.trim ((Text.trim line).dropWhile (· == '*'))

/-- The tag at the start of a line and what follows it. -/
def tagLine? : List Char → Option (List Char × List Char)
  | '@' :: rest =>
    let tag := rest.takeWhile Text.isWord
    if tag.isEmpty then none
    else some (tag, Text.trimStart (rest.dropWhile Text.isWord))
  | _ => none

/-- Reads bare lines; `tag` is the tag that a line without one belongs to. -/
def entriesOf (tag : List Char) : List (List Char) → List (String × String)
  | [] => []
  | line :: more =>
    let (tag, content) := (tagLine? line).getD (tag, line)
    if content.isEmpty then entriesOf tag more
    else (String.ofList tag, String.ofList content) :: entriesOf tag more

def parse (text : String) : Natspec :=
  ⟨entriesOf "notice".toList ((Text.lines text.toList).map bare)⟩

/-- The lines of one tag. -/
def linesOf (n : Natspec) (tag : String) : List String :=
  (n.entries.filter (·.1 == tag)).map (·.2)

/-- The text of a tag: its lines with newlines between them. -/
def get? (n : Natspec) (tag : String) : Option String :=
  match n.linesOf tag with
  | [] => none
  | lines => some ("\n".intercalate lines)

def title? (n : Natspec) : Option String :=
  n.get? "title"

def notice (n : Natspec) : String :=
  (n.get? "notice").getD ""

def dev? (n : Natspec) : Option String :=
  n.get? "dev"

def tags (n : Natspec) : List String :=
  n.entries.map (·.1)

/-- Whether two comments give every tag the same text. -/
def same (a b : Natspec) : Bool :=
  (a.tags ++ b.tags).all fun tag => a.get? tag == b.get? tag

end Natspec

/-- A text with each line break written as one space. -/
def singleLine (text : String) : String :=
  String.ofList (Text.singleLine text.toList)

end ContractDocs
