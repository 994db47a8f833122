import GitGateway.Text.Blank

/-!
# Command lines

A client sends its command as one line.  Words are separated by blanks; single quotes keep
everything up to the next single quote, double quotes keep everything up to the next double quote
except that a backslash keeps the character after it, and so does a backslash outside quotes.  A
line that ends inside quotes or behind a backslash ends its word there.
-/

namespace GitGateway.Git.CommandLine

/-- Where in the shell's spelling the reader stands. -/
inductive Mode where
  /-- Outside quotes. -/
  | bare
  /-- Behind a backslash outside quotes. -/
  | bareEscape
  /-- Inside single quotes. -/
  | single
  /-- Inside double quotes. -/
  | double
  /-- Behind a backslash inside double quotes. -/
  | doubleEscape
deriving DecidableEq, Repr

/-- The reader's state; lists hold what came last first. -/
structure Reader where
  mode : Mode := .bare
  /-- The characters of the word being read, if one was begun. -/
  word : Option (List Char) := none
  /-- The finished words. -/
  done : List (List Char) := []
deriving DecidableEq, Repr

namespace Reader

/-- Begins a word if none was begun. -/
def begin (r : Reader) : Reader := { r with word := some (r.word.getD []) }

/-- Adds a character to the word. -/
def push (r : Reader) (c : Char) : Reader := { r with word := some (c :: r.word.getD []) }

/-- Finishes the word, if one was begun. -/
def close (r : Reader) : Reader :=
  match r.word with
  | some w => { r with word := none, done := w.reverse :: r.done }
  | none => r

/-- Reads one character. -/
def step (r : Reader) (c : Char) : Reader :=
  match r.mode with
  | .bare =>
    if c == '\'' then { r.begin with mode := .single }
    else if c == '"' then { r.begin with mode := .double }
    else if c == '\\' then { r.begin with mode := .bareEscape }
    else if Text.isBlank c then r.close
    else r.push c
  | .bareEscape => { r.push c with mode := .bare }
  | .single => if c == '\'' then { r with mode := .bare } else r.push c
  | .double =>
    if c == '"' then { r with mode := .bare }
    else if c == '\\' then { r with mode := .doubleEscape }
    else r.push c
  | .doubleEscape => { r.push c with mode := .double }

/-- The words after the last character. -/
def finish (r : Reader) : List (List Char) := r.close.done.reverse

end Reader

/-- The words of a line of characters. -/
def splitChars (line : List Char) : List (List Char) := (line.foldl Reader.step {}).finish

/-- The words of a command line. -/
def split (line : String) : List String := (splitChars line.toList).map String.ofList

end GitGateway.Git.CommandLine
