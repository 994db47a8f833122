import GitGateway.Yaml.Scalar

/-!
# Reading tokens

The reader keeps the indentation of the open block collections and, for every open flow
collection, the place where a key without its own sign could have begun.  When a value's sign
comes, the key token is put in front of what was read since that place.  A key without a sign must
stay on one line and within 1024 characters.
-/

namespace GitGateway.Yaml

/-- A place where a key could have begun. -/
structure KeyStart where
  /-- Whether nothing but a key may stand there. -/
  required : Bool
  /-- How many tokens came before it. -/
  tokens : Nat
  index : Nat
  line : Nat
  column : Nat
deriving DecidableEq, Repr

/-- The reader's state. -/
structure Lexer where
  cursor : Cursor
  /-- The tokens read so far, last first. -/
  tokens : List Token := []
  /-- How many tokens were read so far. -/
  count : Nat := 0
  /-- The indentation of the innermost block collection; negative at the top. -/
  indent : Int := -1
  /-- The indentations of the block collections around it. -/
  outer : List Int := []
  /-- The possible start of a key, for each open flow collection and for the block around them. -/
  keys : List (Option KeyStart) := [none]
  /-- Whether a key without a sign may begin here. -/
  keyAllowed : Bool := true
deriving DecidableEq, Repr

namespace Lexer

/-- Whether a flow collection is open. -/
def inFlow (l : Lexer) : Bool := 1 < l.keys.length

/-- Adds a token. -/
def push (l : Lexer) (t : Token) : Lexer := { l with tokens := t :: l.tokens, count := l.count + 1 }

/-- Puts a token in front of those read after the first `n`. -/
def insertAt (l : Lexer) (n : Nat) (t : Token) : Lexer :=
  let later := l.count - n
  { l with tokens := l.tokens.take later ++ t :: l.tokens.drop later, count := l.count + 1 }

/-- Replaces the possible key of the innermost collection. -/
def setKey (l : Lexer) (k : Option KeyStart) : Lexer := { l with keys := k :: l.keys.tail }

/-- The possible key of the innermost collection. -/
def key? (l : Lexer) : Option KeyStart := (l.keys.head?).join

/-- Gives up a possible key; fails if nothing but a key could stand there. -/
def dropKey (l : Lexer) : Option Lexer :=
  match l.key? with
  | some k => if k.required then none else some (l.setKey none)
  | none => some (l.setKey none)

/-- Gives up the possible keys that are too long or were left behind on an earlier line. -/
def dropStaleKeys (l : Lexer) : Option Lexer := do
  let fresh (k : KeyStart) : Bool :=
    !(k.line < l.cursor.line || k.index + 1024 < l.cursor.index)
  let keys ← l.keys.mapM fun
    | some k => if fresh k then some (some k) else if k.required then none else some none
    | none => some none
  return { l with keys }

/-- Notes that a key may begin here. -/
def saveKey (l : Lexer) : Option Lexer :=
  if l.keyAllowed then do
    let c := l.cursor
    let required := !l.inFlow && l.indent == (c.column : Int)
    let l ← l.dropKey
    return l.setKey (some ⟨required, l.count, c.index, c.line, c.column⟩)
  else some l

/-- Opens a block collection at a column if it is indented deeper than the innermost one.  The
token goes in front of those read after the first `at?`. -/
def roll (l : Lexer) (column : Nat) (at? : Option Nat) (t : Token) : Lexer :=
  if l.inFlow then l
  else if l.indent < (column : Int) then
    let l := { l with outer := l.indent :: l.outer, indent := column }
    match at? with
    | some n => l.insertAt n t
    | none => l.push t
  else l

/-- Closes block collections that are indented deeper than `column`; `stack` is what lies around
the innermost one. -/
def closeBlocks (column : Int) : Int → List Int → Nat → Int × List Int × Nat
  | indent, [], closed => (indent, [], closed)
  | indent, o :: rest, closed =>
    if column < indent then closeBlocks column o rest (closed + 1) else (indent, o :: rest, closed)

/-- Closes the block collections that are indented deeper than `column`. -/
def unroll (l : Lexer) (column : Int) : Lexer :=
  if l.inFlow then l
  else
    let (indent, outer, closed) := closeBlocks column l.indent l.outer 0
    { l with indent, outer, tokens := List.replicate closed .blockEnd ++ l.tokens,
             count := l.count + closed }

/-- Moves the cursor. -/
def moveTo (l : Lexer) (c : Cursor) : Lexer := { l with cursor := c }

/-- Steps over one character. -/
def eat (l : Lexer) : Lexer := l.moveTo (l.cursor.skip 1)

/-- Allows or forbids a key to begin here. -/
def allowKey (l : Lexer) (b : Bool) : Lexer := { l with keyAllowed := b }

/-! ## Blanks and comments -/

/-- Steps over blanks, comments and line breaks up to the next token.  A tab counts as a blank only
where no key may begin. -/
def skipToToken : Nat → Lexer → Lexer
  | 0, l => l
  | fuel + 1, l =>
    let c := if l.cursor.index == 0 && l.cursor.stands '\uFEFF' then l.cursor.skip 1 else l.cursor
    let tabs := l.inFlow || !l.keyAllowed
    let c := (c.span fun ch => ch == ' ' || (tabs && ch == '\t')).2
    let c := if c.stands '#' then c.skipLineText else c
    if c.atBreak then
      skipToToken fuel
        { l with cursor := c.skipBreak.2, keyAllowed := l.keyAllowed || !l.inFlow }
    else l.moveTo c

/-! ## Directives, anchors and tags -/

/-- Reads a number of at most nine digits. -/
def readNumber (c : Cursor) : Option (Nat × Cursor) :=
  let (digits, c) := c.span Char.isDigit
  if digits.isEmpty || 9 < digits.length then none
  else some (digits.foldl (fun n d => n * 10 + (d.toNat - 48)) 0, c)

/-- Reads a handle: `!`, word characters, and perhaps another `!`. -/
def readHandle (directive : Bool) (c : Cursor) : Option (List Char × Cursor) :=
  if !c.stands '!' then none
  else
    let (word, c) := (c.skip 1).span isWordChar
    if c.stands '!' then some ('!' :: word ++ ['!'], c.skip 1)
    else if directive && !word.isEmpty then none
    else some ('!' :: word, c)

/-- Whether a character may stand in a tag. -/
def isTagChar (verbatim : Bool) (c : Char) : Bool :=
  isWordChar c || ";/?:@&=+$.!~*'()".toList.contains c ||
    (verbatim && (c == ',' || c == '[' || c == ']'))

/-- Reads the bytes that a run of percent escapes writes. -/
def readPercent (c : Cursor) : Option (UInt8 × Cursor) :=
  if c.stands '%' then (Scalar.readHex 2 (c.skip 1)).map fun n => (UInt8.ofNat n, c.skip 3) else none

/-- Reads one character that is written as percent escapes of its bytes. -/
def readEscapedChar (c : Cursor) : Option (List Char × Cursor) := do
  let (lead, c) ← readPercent c
  let more ← if lead < 0x80 then some 0 else if lead &&& 0xe0 == 0xc0 then some 1
    else if lead &&& 0xf0 == 0xe0 then some 2 else if lead &&& 0xf8 == 0xf0 then some 3 else none
  let step (s : List UInt8 × Cursor) (_ : Nat) : Option (List UInt8 × Cursor) := do
    let (b, c) ← readPercent s.2
    if b &&& 0xc0 == 0x80 then some (s.1 ++ [b], c) else none
  let (bytes, c) ← (List.range more).foldlM step ([lead], c)
  return ((Text.Utf8.decodeLossy bytes).toList, c)

/-- Reads the characters of a tag in front of `done`, last first. -/
def readTagText (verbatim : Bool) : Nat → List Char → Cursor → Option (List Char × Cursor)
  | 0, _, _ => none
  | fuel + 1, done, c =>
    match c.peek with
    | some ch =>
      if ch == '%' then do
        let (cs, c) ← readEscapedChar c
        readTagText verbatim fuel (cs.reverse ++ done) c
      else if isTagChar verbatim ch then readTagText verbatim fuel (ch :: done) (c.skip 1)
      else some (done.reverse, c)
    | none => some (done.reverse, c)

/-- Reads a tag's text, which must not be empty. -/
def readUri (fuel : Nat) (verbatim : Bool) (c : Cursor) : Option (List Char × Cursor) := do
  let (text, c) ← readTagText verbatim fuel [] c
  if text.isEmpty then none else some (text, c)

/-- Reads a tag: its handle and the rest. -/
def readTag (fuel : Nat) (inFlow : Bool) (c : Cursor) : Option (Token × Cursor) := do
  let (t, c) ←
    if c.peekAt 1 == some '<' then do
      let (uri, c) ← readUri fuel true (c.skip 2)
      if c.stands '>' then some (Token.tag "" (String.ofList uri), c.skip 1) else none
    else do
      let (handle, c) ← readHandle false c
      if 1 < handle.length && handle.getLast? == some '!' then do
        let (uri, c) ← readUri fuel false c
        some (Token.tag (String.ofList handle) (String.ofList uri), c)
      else do
        let (more, c) ← readTagText false fuel [] c
        let suffix := handle.tail ++ more
        some (if suffix.isEmpty then Token.tag "" "!" else Token.tag "!" (String.ofList suffix), c)
  if (inFlow && c.stands ',') || c.blankOrEndAt 0 then some (t, c) else none

/-- Reads the value of a version directive. -/
def readVersion (c : Cursor) : Option (Token × Cursor) := do
  let (major, c) ← readNumber c.skipBlanks
  if !c.stands '.' then none
  else
    let (minor, c) ← readNumber (c.skip 1)
    some (.version major minor, c)

/-- Reads the value of a tag directive. -/
def readTagDirective (fuel : Nat) (c : Cursor) : Option (Token × Cursor) := do
  let (handle, c) ← readHandle true c.skipBlanks
  if !c.atBlank then none
  else
    let (uri, c) ← readUri fuel true c.skipBlanks
    if c.blankOrEndAt 0 then
      some (.tagDirective (String.ofList handle) (String.ofList uri), c)
    else none

/-- Reads a directive; the cursor stands at its percent sign. -/
def readDirective (fuel : Nat) (c : Cursor) : Option (Token × Cursor) := do
  let (name, c) := (c.skip 1).span isWordChar
  if !c.blankOrEndAt 0 then none
  else
    let (t, c) ←
      if name == "YAML".toList then readVersion c
      else if name == "TAG".toList then readTagDirective fuel c
      else none
    return (t, ← c.finishLine)

/-- Reads the name of an anchor or an alias; the cursor stands at its sign. -/
def readAnchor (c : Cursor) : Option (String × Cursor) :=
  let (name, c) := (c.skip 1).span isWordChar
  if name.isEmpty then none
  else if c.blankOrEndAt 0 || c.peek.any fun ch => "?:,]\x7d%@\x60".toList.contains ch then
    some (String.ofList name, c)
  else none

/-! ## Tokens -/

/-- Adds a token that was read by a scanner for anchors, tags and scalars, before which a key could
begin. -/
def pushNode (l : Lexer) (read : Cursor → Option (Token × Cursor)) : Option Lexer := do
  let l ← l.saveKey
  let (t, c) ← read l.cursor
  return ((l.moveTo c).allowKey false).push t

/-- Reads a document marker. -/
def documentMarker (l : Lexer) (t : Token) : Option Lexer := do
  let l ← (l.unroll (-1)).dropKey
  return ((l.allowKey false).push t).moveTo (l.cursor.skip 3)

/-- Opens a flow collection. -/
def openFlow (l : Lexer) (t : Token) : Option Lexer := do
  let l ← l.saveKey
  return ({ l with keys := none :: l.keys, keyAllowed := true }.push t).eat

/-- Closes a flow collection. -/
def closeFlow (l : Lexer) (t : Token) : Option Lexer := do
  let l ← l.dropKey
  let keys := if l.inFlow then l.keys.tail else l.keys
  return ({ l with keys, keyAllowed := false }.push t).eat

/-- Reads the comma of a flow collection. -/
def flowEntry (l : Lexer) : Option Lexer := do
  let l ← l.dropKey
  return ((l.allowKey true).push .flowEntry).eat

/-- Reads the dash of a block sequence. -/
def blockEntry (l : Lexer) : Option Lexer := do
  if !l.inFlow && !l.keyAllowed then none
  else
    let l ← (l.roll l.cursor.column none .blockSequenceStart).dropKey
    return ((l.allowKey true).push .blockEntry).eat

/-- Reads the sign of a key. -/
def explicitKey (l : Lexer) : Option Lexer := do
  if !l.inFlow && !l.keyAllowed then none
  else
    let l ← (l.roll l.cursor.column none .blockMappingStart).dropKey
    return ((l.allowKey !l.inFlow).push .key).eat

/-- Reads the sign of a value.  If a key could have begun before it, that is where it did. -/
def value (l : Lexer) : Option Lexer :=
  match l.key? with
  | some k =>
    let l := l.insertAt k.tokens .key
    let l := l.roll k.column (some k.tokens) .blockMappingStart
    some ((((l.setKey none).allowKey false).push .value).eat)
  | none =>
    if !l.inFlow && !l.keyAllowed then none
    else
      let l := l.roll l.cursor.column none .blockMappingStart
      some (((l.allowKey !l.inFlow).push .value).eat)

/-- Reads a block scalar. -/
def blockScalar (fuel : Nat) (l : Lexer) (style : ScalarStyle) : Option Lexer := do
  let l ← l.dropKey
  let (text, c) ← Scalar.readBlock fuel (style == .literal) l.indent (l.cursor.skip 1)
  return ((l.allowKey true).moveTo c).push (.scalar style (String.ofList text))

/-- Reads a quoted scalar. -/
def quotedScalar (fuel : Nat) (style : ScalarStyle) (c : Cursor) : Option (Token × Cursor) := do
  let (text, c) ← Scalar.readQuoted (style == .singleQuoted) fuel [] (c.skip 1)
  return (.scalar style (String.ofList text), c)

/-- Reads a plain scalar.  Behind a line break a key may begin again. -/
def plainScalar (fuel : Nat) (l : Lexer) : Option Lexer := do
  let l ← l.saveKey
  let (text, broken, c) ← Scalar.readPlain l.inFlow (l.indent + 1).toNat fuel [] {} l.cursor
  return ((l.allowKey broken).moveTo c).push (.scalar .plain (String.ofList text))

/-- Characters that start no plain scalar by themselves. -/
def isIndicator (c : Char) : Bool := "-?:,[]\x7b\x7d#&*!|>'\"%@\x60".toList.contains c

/-- Whether a plain scalar starts here. -/
def plainStarts (l : Lexer) : Bool :=
  let c := l.cursor
  !(c.blankOrEndAt 0 || c.peek.any isIndicator) ||
    (c.stands '-' && !(c.peekAt 1).any isBlankChar) ||
    (!l.inFlow && (c.stands '?' || c.stands ':') && !c.blankOrEndAt 1)

/-- Reads one token. -/
def token (fuel : Nat) (l : Lexer) : Option Lexer :=
  let c := l.cursor
  let signs (n : Nat) : Bool := l.inFlow || c.blankOrEndAt n
  match c.peek with
  | none => some l
  | some ch =>
    if c.column == 0 && ch == '%' then do
      let l ← (l.unroll (-1)).dropKey
      let (t, c) ← readDirective fuel c
      return ((l.allowKey false).moveTo c).push t
    else if c.atMarker ['-', '-', '-'] then l.documentMarker .documentStart
    else if c.atMarker ['.', '.', '.'] then l.documentMarker .documentEnd
    else if ch == '[' then l.openFlow .flowSequenceStart
    else if ch == '\x7b' then l.openFlow .flowMappingStart
    else if ch == ']' then l.closeFlow .flowSequenceEnd
    else if ch == '\x7d' then l.closeFlow .flowMappingEnd
    else if ch == ',' then l.flowEntry
    else if ch == '-' && c.blankOrEndAt 1 then l.blockEntry
    else if ch == '?' && signs 1 then l.explicitKey
    else if ch == ':' && signs 1 then l.value
    else if ch == '*' then
      l.pushNode fun c => (readAnchor c).map fun r => (.alias r.1, r.2)
    else if ch == '&' then
      l.pushNode fun c => (readAnchor c).map fun r => (.anchor r.1, r.2)
    else if ch == '!' then l.pushNode (readTag fuel l.inFlow)
    else if ch == '|' && !l.inFlow then blockScalar fuel l .literal
    else if ch == '>' && !l.inFlow then blockScalar fuel l .folded
    else if ch == '\'' then l.pushNode (quotedScalar fuel .singleQuoted)
    else if ch == '"' then l.pushNode (quotedScalar fuel .doubleQuoted)
    else if l.plainStarts then plainScalar fuel l
    else none

/-- Closes everything that is open at the end of the text. -/
def finish (l : Lexer) : Option (List Token) := do
  let l ← (l.unroll (-1)).dropKey
  return l.tokens.reverse

/-- Reads tokens up to the end. -/
def run (fuel : Nat) : Nat → Lexer → Option (List Token)
  | 0, _ => none
  | n + 1, l => do
    let l ← (skipToToken fuel l).dropStaleKeys
    let l := l.unroll l.cursor.column
    if l.cursor.atEnd then l.finish
    else
      let l ← token fuel l
      run fuel n l

end Lexer

/-- The tokens of a YAML text; nothing if it has none. -/
def tokens? (text : String) : Option (List Token) :=
  let cs := text.toList
  let fuel := cs.length + 2
  if cs.all isAllowed then Lexer.run fuel fuel { cursor := Cursor.start cs } else none

end GitGateway.Yaml
