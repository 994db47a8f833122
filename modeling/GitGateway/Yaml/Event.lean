import GitGateway.Yaml.Lexer

/-!
# Events of a YAML stream

The documents of a stream as a flat sequence: scalars, references to anchors, and the starts and
ends of collections.  The reader keeps a stack of what it expects next; each step gives one event.
A node that is left out reads as an empty plain scalar.
-/

namespace GitGateway.Yaml

/-- What may stand before a node. -/
structure Properties where
  anchor : Option String := none
  /-- The resolved tag. -/
  tag : Option String := none
deriving DecidableEq, Repr

/-- One event. -/
inductive Event where
  | documentStart
  | documentEnd
  | alias (name : String)
  | scalar (props : Properties) (style : ScalarStyle) (text : String)
  | sequenceStart (props : Properties)
  | sequenceEnd
  | mappingStart (props : Properties)
  | mappingEnd
deriving DecidableEq, Repr

namespace Event

/-- The scalar that stands for a node that was left out. -/
def empty : Event := .scalar {} .plain ""

end Event

/-- What the reader of events expects next. -/
inductive Expect where
  /-- A document; the first needs no marker. -/
  | document (first : Bool)
  | documentContent
  | documentEnd
  | blockNode
  | blockSequenceEntry
  | indentlessEntry
  | blockMappingKey
  | blockMappingValue
  | flowSequenceEntry (first : Bool)
  | flowPairKey
  | flowPairValue
  | flowPairEnd
  | flowMappingKey (first : Bool)
  | flowMappingValue (empty : Bool)
deriving DecidableEq, Repr

/-- The reader's state: what is expected, the tokens left, and the tag handles of the document. -/
structure EventReader where
  stack : List Expect
  tokens : List Token
  handles : List (String × String) := []
deriving DecidableEq, Repr

namespace EventReader

/-- The event of a step and the state after it. -/
abbrev Step := Option (Option Event × EventReader)

/-- Replaces what is expected next. -/
def expecting (r : EventReader) (es : List Expect) : EventReader :=
  { r with stack := es ++ r.stack.tail }

/-- Expects one thing more before the rest. -/
def push (r : EventReader) (e : Expect) : EventReader := { r with stack := e :: r.stack }

/-- Expects exactly this. -/
def settle (r : EventReader) (es : List Expect) : EventReader := { r with stack := es }

/-- Drops the next token. -/
def skip (r : EventReader) : EventReader := { r with tokens := r.tokens.tail }

/-- The next token. -/
def peek (r : EventReader) : Option Token := r.tokens.head?

/-- Whether this token comes next. -/
def sees (r : EventReader) (t : Token) : Bool := r.peek == some t

/-- Gives an event. -/
def give (r : EventReader) (e : Event) : Step := some (some e, r)

/-- The handles that every document knows. -/
def defaultHandles : List (String × String) := [("!", "!"), ("!!", "tag:yaml.org,2002:")]

/-- The tag that a handle and a suffix write. -/
def resolveTag (r : EventReader) (handle suffix : String) : Option String :=
  if handle == "" then some suffix else (r.handles.lookup handle).map (· ++ suffix)

/-- Reads an anchor and a tag in either order; fails on a handle that is not known. -/
def properties (r : EventReader) : Option (Properties × EventReader) :=
  match r.tokens with
  | .anchor a :: .tag h s :: _ =>
    (r.resolveTag h s).map fun t => (⟨some a, some t⟩, r.skip.skip)
  | .tag h s :: .anchor a :: _ =>
    (r.resolveTag h s).map fun t => (⟨some a, some t⟩, r.skip.skip)
  | .anchor a :: _ => some (⟨some a, none⟩, r.skip)
  | .tag h s :: _ => (r.resolveTag h s).map fun t => (⟨none, some t⟩, r.skip)
  | _ => some ({}, r)

/-- A scalar's properties; the tag that says nothing is dropped. -/
def scalarProperties (p : Properties) : Properties :=
  if p.tag == some "!" then { p with tag := none } else p

/-- Reads a node.  What is expected after it stands on the stack. -/
def node (r : EventReader) (block indentless : Bool) : Step :=
  match r.peek with
  | some (.alias name) => r.skip.give (.alias name)
  | _ => do
    let (p, r) ← r.properties
    match r.peek with
    | some .blockEntry =>
      if indentless then
        (r.push .indentlessEntry).give (.sequenceStart p)
      else if p.anchor.isSome || p.tag.isSome then r.give (.scalar p .plain "")
      else none
    | some (.scalar style text) => r.skip.give (.scalar (scalarProperties p) style text)
    | some .flowSequenceStart =>
      (r.skip.push (.flowSequenceEntry true)).give (.sequenceStart p)
    | some .flowMappingStart =>
      (r.skip.push (.flowMappingKey true)).give (.mappingStart p)
    | some .blockSequenceStart =>
      if block then (r.skip.push .blockSequenceEntry).give (.sequenceStart p)
      else if p.anchor.isSome || p.tag.isSome then r.give (.scalar p .plain "")
      else none
    | some .blockMappingStart =>
      if block then (r.skip.push .blockMappingKey).give (.mappingStart p)
      else if p.anchor.isSome || p.tag.isSome then r.give (.scalar p .plain "")
      else none
    | _ =>
      if p.anchor.isSome || p.tag.isSome then r.give (.scalar p .plain "")
      else none

/-- Reads directives; fails on a repeated one and on a version that is not 1.1 or 1.2. -/
def directives : List Token → Bool → List (String × String) →
    Option (List (String × String) × List Token)
  | .version major minor :: rest, seen, hs =>
    if seen || major != 1 || !(minor == 1 || minor == 2) then none else directives rest true hs
  | .tagDirective h s :: rest, seen, hs =>
    if (hs.lookup h).isSome then none else directives rest seen (hs ++ [(h, s)])
  | rest, _, hs => some (hs ++ defaultHandles, rest)

/-- Starts a document, or ends the stream. -/
def document (r : EventReader) (first : Bool) : Step :=
  let tokens := if first then r.tokens else r.tokens.dropWhile (· == .documentEnd)
  match tokens with
  | [] => some (none, { r with stack := [], tokens := [] })
  | t :: _ =>
    let explicit := match t with
      | .version _ _ | .tagDirective _ _ | .documentStart => true
      | _ => !first
    if explicit then do
      let (handles, tokens) ← directives tokens false []
      match tokens with
      | .documentStart :: rest =>
        some (some .documentStart, { stack := [.documentContent, .documentEnd], tokens := rest, handles })
      | _ => none
    else
      some (some .documentStart,
        { stack := [.blockNode, .documentEnd], tokens, handles := defaultHandles })

/-- Whether a document's content is left out before this token. -/
def endsContent : Option Token → Bool
  | none | some .documentStart | some .documentEnd => true
  | some (.version _ _) | some (.tagDirective _ _) => true
  | _ => false

/-- Reads the entry of a collection behind its sign, or gives the empty scalar if one of `ends`
comes next. -/
def entry (r : EventReader) (ends : List Token) (block indentless : Bool) : Step :=
  if r.peek.any ends.contains then r.give .empty else r.node block indentless

/-- Takes one step.  The expectation on top of the stack is replaced by what it turns into. -/
def step (r : EventReader) : Step :=
  match r.stack with
  | [] => some (none, r)
  | .document first :: _ => r.document first
  | .documentContent :: rest =>
    let r := r.settle rest
    if endsContent r.peek then r.give .empty else r.node true false
  | .documentEnd :: _ =>
    let r := if r.sees .documentEnd then r.skip else r
    ({ r with stack := [.document false], handles := [] }).give .documentEnd
  | .blockNode :: rest => (r.settle rest).node true false
  | .blockSequenceEntry :: rest =>
    if r.sees .blockEntry then r.skip.entry [.blockEntry, .blockEnd] true false
    else if r.sees .blockEnd then (r.skip.settle rest).give .sequenceEnd
    else none
  | .indentlessEntry :: rest =>
    if r.sees .blockEntry then r.skip.entry [.blockEntry, .key, .value, .blockEnd] true false
    else (r.settle rest).give .sequenceEnd
  | .blockMappingKey :: rest =>
    if r.sees .key then
      (r.skip.expecting [.blockMappingValue]).entry [.key, .value, .blockEnd] true true
    else if r.sees .blockEnd then (r.skip.settle rest).give .mappingEnd
    else none
  | .blockMappingValue :: _ =>
    let r' := r.expecting [.blockMappingKey]
    if r.sees .value then r'.skip.entry [.key, .value, .blockEnd] true true
    else r'.give .empty
  | .flowSequenceEntry first :: rest =>
    let r := r.expecting [.flowSequenceEntry false]
    let close (r : EventReader) : Step := (r.skip.settle rest).give .sequenceEnd
    if r.sees .flowSequenceEnd then close r
    else if !first && !r.sees .flowEntry then none
    else
      let r := if first then r else r.skip
      if r.sees .key then
        (r.skip.push .flowPairKey).give (.mappingStart {})
      else if r.sees .flowSequenceEnd then close r
      else r.node false false
  | .flowPairKey :: _ =>
    let r := r.expecting [.flowPairValue]
    if r.sees .value || r.sees .flowEntry || r.sees .flowSequenceEnd then r.skip.give .empty
    else r.node false false
  | .flowPairValue :: _ =>
    let r' := r.expecting [.flowPairEnd]
    if r.sees .value then r'.skip.entry [.flowEntry, .flowSequenceEnd] false false
    else r'.give .empty
  | .flowPairEnd :: rest => (r.settle rest).give .mappingEnd
  | .flowMappingKey first :: rest =>
    let close (r : EventReader) : Step := (r.skip.settle rest).give .mappingEnd
    if r.sees .flowMappingEnd then close r
    else if !first && !r.sees .flowEntry then none
    else
      let r := if first then r else r.skip
      if r.sees .key then
        (r.skip.expecting [.flowMappingValue false]).entry
          [.value, .flowEntry, .flowMappingEnd] false false
      else if r.sees .flowMappingEnd then close r
      else (r.expecting [.flowMappingValue true]).node false false
  | .flowMappingValue empty :: _ =>
    let r' := r.expecting [.flowMappingKey false]
    if !empty && r.sees .value then r'.skip.entry [.flowEntry, .flowMappingEnd] false false
    else r'.give .empty

/-- Reads events up to the end of the stream. -/
def run : Nat → List Event → EventReader → Option (List Event)
  | 0, _, _ => none
  | fuel + 1, done, r =>
    match r.step with
    | none => none
    | some (none, _) => some done.reverse
    | some (some e, r) => run fuel (e :: done) r

end EventReader

/-- The events of a YAML text; nothing if it is malformed. -/
def events? (text : String) : Option (List Event) := do
  let ts ← tokens? text
  EventReader.run (4 * ts.length + 8) [] { stack := [.document true], tokens := ts }

end GitGateway.Yaml
