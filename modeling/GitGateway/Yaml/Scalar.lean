import GitGateway.Yaml.Cursor
import GitGateway.Yaml.Token

/-!
# Scalars

A scalar is plain, quoted, or a block of lines.  Line breaks inside plain and quoted scalars are
folded: one becomes a space, and of several the first is dropped.  A block keeps its lines or folds
them, and its header says what becomes of the breaks behind it.

Loops run at most `fuel` times; the size of the whole text is always enough.
-/

namespace GitGateway.Yaml.Scalar

/-! ## Gaps between the words of a scalar -/

/-- Blanks and line breaks between two words. -/
structure Gap where
  /-- The blanks before the first line break, last first. -/
  blanks : List Char := []
  /-- What the first line break reads as. -/
  first : List Char := []
  /-- What the further line breaks read as. -/
  more : List Char := []
  /-- Whether there was a line break. -/
  broken : Bool := false
deriving DecidableEq, Repr

namespace Gap

/-- What the gap reads as. -/
def text (g : Gap) : List Char :=
  if g.broken then
    if g.first == ['\n'] then (if g.more.isEmpty then [' '] else g.more) else g.first ++ g.more
  else g.blanks.reverse

end Gap

/-- Reads a gap.  With `tabLimit`, a tab before that column of a new line is refused. -/
def readGap (tabLimit : Nat) : Nat → Gap → Cursor → Option (Gap × Cursor)
  | 0, _, _ => none
  | fuel + 1, g, c =>
    match c.peek with
    | none => some (g, c)
    | some ch =>
      if isBlankChar ch then
        if g.broken then
          if ch == '\t' && c.column < tabLimit then none else readGap tabLimit fuel g (c.skip 1)
        else readGap tabLimit fuel { g with blanks := ch :: g.blanks } (c.skip 1)
      else if isBreak ch then
        let (text, c') := c.skipBreak
        if g.broken then readGap tabLimit fuel { g with more := g.more ++ text } c'
        else readGap tabLimit fuel { g with blanks := [], first := text, broken := true } c'
      else some (g, c)

/-! ## Plain scalars -/

/-- Characters that have a meaning of their own between the brackets of a flow collection. -/
def isFlowIndicator (c : Char) : Bool := c == ',' || c == '[' || c == ']' || c == '\x7b' || c == '\x7d'

/-- Whether a colon here would run into a flow indicator. -/
def colonRunsOn (inFlow : Bool) (c : Cursor) : Bool :=
  inFlow && c.stands ':' && (c.peekAt 1).any fun n => isFlowIndicator n || n == '?'

/-- Whether a word of a plain scalar ends before this place. -/
def wordEnds (inFlow : Bool) (c : Cursor) : Bool :=
  c.blankOrEndAt 0 || (c.stands ':' && c.blankOrEndAt 1) ||
    (inFlow && c.peek.any isFlowIndicator)

/-- Reads a word of a plain scalar in front of `done`, last character first. -/
def readWord (inFlow : Bool) : Nat → List Char → Cursor → Option (List Char × Cursor)
  | 0, _, _ => none
  | fuel + 1, done, c =>
    if wordEnds inFlow c then some (done, c)
    else if colonRunsOn inFlow c then none
    else
      match c.peek with
      | some ch => readWord inFlow fuel (ch :: done) (c.skip 1)
      | none => some (done, c)

/-- Reads a plain scalar.  `gap` is what was read since the last word.  Tells the text, whether the
scalar was left behind a line break, and the place behind it. -/
def readPlain (inFlow : Bool) (indent : Nat) :
    Nat → List Char → Gap → Cursor → Option (List Char × Bool × Cursor)
  | 0, _, _, _ => none
  | fuel + 1, text, gap, c =>
    if c.atAnyMarker || c.stands '#' then some (text.reverse, gap.broken, c)
    else do
      let (word, c') ← readWord inFlow (fuel + 1) [] c
      if word.isEmpty && !c.blankOrEndAt 0 then some (text.reverse, gap.broken, c)
      else
        let text' := if word.isEmpty then text else word ++ (gap.text.reverse ++ text)
        let broken := word.isEmpty && gap.broken
        if !(c'.atBlank || c'.atBreak) then some (text'.reverse, broken, c')
        else
          let (gap', c'') ← readGap indent (fuel + 1) {} c'
          if !inFlow && c''.column < indent then some (text'.reverse, gap'.broken, c'')
          else readPlain inFlow indent fuel text' gap' c''

/-! ## Quoted scalars -/

/-- The value of a hexadecimal digit. -/
def hexValue? (c : Char) : Option Nat :=
  if '0' ≤ c && c ≤ '9' then some (c.toNat - 48)
  else if 'a' ≤ c && c ≤ 'f' then some (c.toNat - 87)
  else if 'A' ≤ c && c ≤ 'F' then some (c.toNat - 55)
  else none

/-- The number that the next `n` characters write in hexadecimal. -/
def readHex (n : Nat) (c : Cursor) : Option Nat := do
  let digits ← (c.rest.take n).mapM hexValue?
  if digits.length == n then some (digits.foldl (fun v d => v * 16 + d) 0) else none

/-- The character with a given code point. -/
def charOf? (n : Nat) : Option Char :=
  if n > 0x10ffff || (0xd800 ≤ n && n ≤ 0xdfff) then none else some (Char.ofNat n)

/-- The character that a backslash followed by `c` stands for. -/
def simpleEscape? (c : Char) : Option Char :=
  match c with
  | '0' => some '\x00'
  | 'a' => some '\x07'
  | 'b' => some '\x08'
  | 't' | '\t' => some '\t'
  | 'n' => some '\n'
  | 'v' => some '\x0b'
  | 'f' => some '\x0c'
  | 'r' => some '\r'
  | 'e' => some '\x1b'
  | ' ' => some ' '
  | '"' => some '"'
  | '/' => some '/'
  | '\\' => some '\\'
  | 'N' => some '\u0085'
  | '_' => some '\u00a0'
  | 'L' => some '\u2028'
  | 'P' => some '\u2029'
  | _ => none

/-- How many hexadecimal digits follow a backslash and this character. -/
def escapeDigits (c : Char) : Nat :=
  match c with
  | 'x' => 2
  | 'u' => 4
  | 'U' => 8
  | _ => 0

/-- Reads an escape sequence; the cursor stands at its backslash. -/
def readEscape (c : Cursor) : Option (Char × Cursor) := do
  let kind ← c.peekAt 1
  match escapeDigits kind with
  | 0 => return (← simpleEscape? kind, c.skip 2)
  | n =>
    let ch ← charOf? (← readHex n (c.skip 2))
    return (ch, c.skip (2 + n))

/-- Reads the characters of a quoted scalar up to a blank, a line break or the closing quote, in
front of `done`.  The flag tells whether an escaped line break ended the run. -/
def readQuotedRun (single : Bool) : Nat → List Char → Cursor → Option (List Char × Bool × Cursor)
  | 0, _, _ => none
  | fuel + 1, done, c =>
    match c.peek with
    | none => some (done, false, c)
    | some ch =>
      if isBlankChar ch || isBreak ch then some (done, false, c)
      else if single then
        if ch == '\'' then
          if c.peekAt 1 == some '\'' then readQuotedRun single fuel ('\'' :: done) (c.skip 2)
          else some (done, false, c)
        else readQuotedRun single fuel (ch :: done) (c.skip 1)
      else if ch == '"' then some (done, false, c)
      else if ch == '\\' then
        if (c.peekAt 1).any isBreak then some (done, true, (c.skip 1).skipBreak.2)
        else do
          let (e, c') ← readEscape c
          readQuotedRun single fuel (e :: done) c'
      else readQuotedRun single fuel (ch :: done) (c.skip 1)

/-- Reads a quoted scalar behind its opening quote. -/
def readQuoted (single : Bool) : Nat → List Char → Cursor → Option (List Char × Cursor)
  | 0, _, _ => none
  | fuel + 1, text, c =>
    if c.atAnyMarker || c.atEnd then none
    else do
      let (text, escapedBreak, c) ← readQuotedRun single (fuel + 1) text c
      if c.stands (if single then '\'' else '"') then some (text.reverse, c.skip 1)
      else
        let (gap, c) ← readGap 0 (fuel + 1) { broken := escapedBreak } c
        readQuoted single fuel (gap.text.reverse ++ text) c

/-! ## Block scalars -/

/-- What becomes of the line breaks at the end of a block. -/
inductive Chomping where
  | strip
  | clip
  | keep
deriving DecidableEq, Repr

/-- The chomping that a character asks for. -/
def chomping? : Option Char → Option Chomping
  | some '+' => some .keep
  | some '-' => some .strip
  | _ => none

/-- The indentation that a character asks for; zero is refused by the caller. -/
def digit? : Option Char → Option Nat
  | some c => if c.isDigit then some (c.toNat - 48) else none
  | none => none

/-- The header of a block: its chomping, and its indentation if given, in either order. -/
def readHeader (c : Cursor) : Option (Chomping × Nat × Cursor) :=
  match chomping? c.peek with
  | some ch =>
    match digit? (c.peekAt 1) with
    | some 0 => none
    | some n => some (ch, n, c.skip 2)
    | none => some (ch, 0, c.skip 1)
  | none =>
    match digit? c.peek with
    | some 0 => none
    | some n =>
      match chomping? (c.peekAt 1) with
      | some ch => some (ch, n, c.skip 2)
      | none => some (.clip, n, c.skip 1)
    | none => some (.clip, 0, c)

/-- Steps over indentation and empty lines.  Tells what the empty lines read as and the widest
indentation seen.  `indent` is zero while it is not known. -/
def readEmptyLines (indent : Nat) :
    Nat → List Char → Nat → Cursor → Option (List Char × Nat × Cursor)
  | 0, _, _, _ => none
  | fuel + 1, breaks, widest, c =>
    let spaces := (c.rest.takeWhile (· == ' ')).length
    let c := c.skip (if indent == 0 then spaces else min spaces (indent - c.column))
    let widest := max widest c.column
    if (indent == 0 || c.column < indent) && c.stands '\t' then none
    else if c.atBreak then
      let (text, c') := c.skipBreak
      readEmptyLines indent fuel (breaks ++ text) widest c'
    else some (breaks, widest, c)

/-- Reads the lines of a block.  `lead` is what the break behind the last line reads as, `empties`
what the empty lines behind it read as, and `wasBlank` tells whether that line began with a
blank. -/
def readLines (literal : Bool) (indent : Nat) : Nat → List Char → List Char → List Char → Bool →
    Cursor → Option (List Char × List Char × List Char × Cursor)
  | 0, _, _, _, _, _ => none
  | fuel + 1, text, lead, empties, wasBlank, c =>
    if c.column == indent && !c.atEnd then
      let blank := c.atBlank
      let joint :=
        if !literal && lead.head? == some '\n' && !wasBlank && !blank then
          (if empties.isEmpty then [' '] else [])
        else lead
      let (line, c) := c.span fun ch => !isBreak ch
      let (lead', c) := c.skipBreak
      do
        let (empties', _, c) ← readEmptyLines indent (fuel + 1) [] 0 c
        readLines literal indent fuel
          (line.reverse ++ (empties.reverse ++ (joint.reverse ++ text))) lead' empties' blank c
    else some (text, lead, empties, c)

/-- Reads a block scalar behind its indicator; `parent` is the indentation around it, which is
negative at the top. -/
def readBlock (fuel : Nat) (literal : Bool) (parent : Int) (c : Cursor) :
    Option (List Char × Cursor) := do
  let (chomping, increment, c) ← readHeader c
  let c ← c.finishLine
  let given := if increment == 0 then 0 else (max parent 0).toNat + increment
  let (empties, widest, c) ← readEmptyLines given fuel [] 0 c
  let indent := if given == 0 then max (max widest (parent + 1).toNat) 1 else given
  let (text, lead, empties, c) ← readLines literal indent fuel [] [] empties false c
  let tail := match chomping with
    | .strip => []
    | .clip => lead
    | .keep => lead ++ empties
  return (text.reverse ++ tail, c)

end GitGateway.Yaml.Scalar
