/-! Log lines and their levels. A line is printed so that a terminal does not act on what
stands in it. -/

namespace ContractDocs

inductive LogLevel where
  | error
  | warn
  | info
  | debug
  | trace
deriving DecidableEq, Repr, Inhabited

namespace LogLevel

/-- Verbosity: a level shows its own lines and those of smaller rank. -/
def rank : LogLevel → Nat
  | error => 0
  | warn => 1
  | info => 2
  | debug => 3
  | trace => 4

def name : LogLevel → String
  | error => "error"
  | warn => "warn"
  | info => "info"
  | debug => "debug"
  | trace => "trace"

/-- The word in front of a log line. -/
def label : LogLevel → String
  | error => "ERROR"
  | warn => "WARN"
  | info => "INFO"
  | debug => "DEBUG"
  | trace => "TRACE"

def max (a b : LogLevel) : LogLevel :=
  if a.rank < b.rank then b else a

end LogLevel

/-- Control characters that a terminal acts on, other than those for blanks and lines:
bell, backspace, form feed, escape and delete. -/
def isTerminalControl (c : Char) : Bool :=
  c == '\x07' || c == '\x08' || c == '\x0c' || c == '\x1b' || c == '\x7f'

/-- A character as it is printed. Control characters for a terminal are written as
escapes, and so are the control characters that come right after ASCII. -/
def printedChar (c : Char) : List Char :=
  let high := Nat.digitChar (c.toNat / 16)
  let low := Nat.digitChar (c.toNat % 16)
  if isTerminalControl c then ['\\', 'x', high, low]
  else if 0x80 ≤ c.toNat ∧ c.toNat ≤ 0x9F then ['\\', 'u', '\x7b', high, low, '\x7d']
  else [c]

structure LogLine where
  level : LogLevel
  message : String
deriving DecidableEq, Repr

namespace LogLine

/-- The line as it is printed. -/
def text (l : LogLine) : String :=
  l.level.label ++ " " ++ String.ofList (l.message.toList.flatMap printedChar)

/-- Whether a line is shown at the given verbosity. -/
def shownAt (l : LogLine) (verbosity : LogLevel) : Bool :=
  l.level.rank ≤ verbosity.rank

end LogLine

end ContractDocs
