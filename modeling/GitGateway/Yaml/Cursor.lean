import GitGateway.Text.Utf8

/-!
# Places in a YAML text

A cursor is the text still to be read together with where it starts: how many characters and lines
lie before it, and how many characters of its own line.  A carriage return with a line feed behind
it is one line break.
-/

namespace GitGateway.Yaml

/-- Whether a character may stand in a YAML text at all. -/
def isAllowed (c : Char) : Bool :=
  let n := c.toNat
  n == 9 || n == 10 || n == 13 || (0x20 ≤ n && n ≤ 0x7e) || n == 0x85 ||
    (0xa0 ≤ n && n ≤ 0xd7ff) || (0xe000 ≤ n && n ≤ 0xfffd) || 0x10000 ≤ n

/-- Whether a character ends a line. -/
def isBreak (c : Char) : Bool :=
  c == '\r' || c == '\n' || c == '\u0085' || c == '\u2028' || c == '\u2029'

/-- Whether a character is a space or a tab. -/
def isBlankChar (c : Char) : Bool := c == ' ' || c == '\t'

/-- Whether a character may stand in an anchor, a handle or a directive's name. -/
def isWordChar (c : Char) : Bool := c.isAlphanum || c == '_' || c == '-'

/-- The text that a line break at the start of `cs` reads as, and how many characters it has. -/
def readBreak : List Char → List Char × Nat
  | '\r' :: '\n' :: _ => (['\n'], 2)
  | c :: _ =>
    if c == '\u2028' || c == '\u2029' then ([c], 1)
    else if isBreak c then (['\n'], 1)
    else ([], 0)
  | [] => ([], 0)

/-- The text from some place on. -/
structure Cursor where
  rest : List Char
  /-- Characters before this place. -/
  index : Nat := 0
  /-- Lines before this place. -/
  line : Nat := 0
  /-- Characters before this place on its line. -/
  column : Nat := 0
deriving DecidableEq, Repr

namespace Cursor

/-- The character at this place. -/
def peek (c : Cursor) : Option Char := c.rest.head?

/-- The character `n` places further on. -/
def peekAt (c : Cursor) (n : Nat) : Option Char := c.rest[n]?

/-- Whether this character stands here. -/
def stands (c : Cursor) (ch : Char) : Bool := c.peek == some ch

/-- Whether the text ends, a line ends or a blank stands `n` places further on. -/
def blankOrEndAt (c : Cursor) (n : Nat) : Bool :=
  (c.peekAt n).all fun ch => isBlankChar ch || isBreak ch

/-- Whether the text or the line ends here. -/
def lineEnds (c : Cursor) : Bool := c.peek.all isBreak

/-- Whether a blank stands here. -/
def atBlank (c : Cursor) : Bool := c.peek.any isBlankChar

/-- Whether a line break stands here. -/
def atBreak (c : Cursor) : Bool := c.peek.any isBreak

/-- Whether the text ends here. -/
def atEnd (c : Cursor) : Bool := c.rest.isEmpty

/-- Steps over `n` characters of the line. -/
def skip (c : Cursor) (n : Nat) : Cursor :=
  { c with rest := c.rest.drop n, index := c.index + n, column := c.column + n }

/-- Steps over the line break here, if there is one, and tells what it reads as. -/
def skipBreak (c : Cursor) : List Char × Cursor :=
  let (text, n) := readBreak c.rest
  if n == 0 then ([], c)
  else (text, { rest := c.rest.drop n, index := c.index + n, line := c.line + 1, column := 0 })

/-- The characters from here on that pass a test, and the place behind them. -/
def span (c : Cursor) (p : Char → Bool) : List Char × Cursor :=
  let got := c.rest.takeWhile p
  (got, c.skip got.length)

/-- Steps over blanks. -/
def skipBlanks (c : Cursor) : Cursor := (c.span isBlankChar).2

/-- Steps to the end of the line. -/
def skipLineText (c : Cursor) : Cursor := (c.span fun ch => !isBreak ch).2

/-- Steps over blanks, a comment and the line break behind them; fails if something else stands
before the line's end. -/
def finishLine (c : Cursor) : Option Cursor :=
  let c := c.skipBlanks
  let c := if c.stands '#' then c.skipLineText else c
  if c.lineEnds then some c.skipBreak.2 else none

/-- Whether a document marker stands at the start of a line here. -/
def atMarker (c : Cursor) (marker : List Char) : Bool :=
  c.column == 0 && marker.isPrefixOf c.rest && c.blankOrEndAt 3

/-- Whether any document marker stands here. -/
def atAnyMarker (c : Cursor) : Bool := c.atMarker ['-', '-', '-'] || c.atMarker ['.', '.', '.']

/-- The start of a text; a byte order mark before it is no part of it. -/
def start (text : List Char) : Cursor :=
  match text with
  | '\uFEFF' :: rest => { rest }
  | cs => { rest := cs }

end Cursor

end GitGateway.Yaml
