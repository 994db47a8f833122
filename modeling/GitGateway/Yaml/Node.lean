import GitGateway.Yaml.Event

/-!
# Nodes of a YAML document

A document as a tree.  A reference to an anchored node stays a reference: it holds the number of the
anchor, and the document knows which node each number stands for in the end.  An anchor gets as
number how many other names had been anchored before it, so a name that is anchored twice can share
its number with a later one; the last node with a number is the one that counts.
-/

namespace GitGateway.Yaml

/-- A node. -/
inductive Node where
  | alias (id : Nat)
  | scalar (tag : Option String) (style : ScalarStyle) (text : String)
  | sequence (tag : Option String) (items : List Node)
  | mapping (tag : Option String) (entries : List (Node × Node))
deriving Repr

/-- A document. -/
structure Document where
  root : Node
  /-- The nodes that anchor numbers stand for. -/
  anchored : List (Nat × Node) := []
  /-- How many events the document has. -/
  size : Nat := 0
deriving Repr

/-! ## Anchor numbers -/

/-- Anchors met so far. -/
structure Anchors where
  /-- The number of each name; a name stands once. -/
  ids : List (String × Nat) := []
  /-- Where the node with each number begins, the latest first. -/
  starts : List (Nat × Nat) := []
deriving DecidableEq, Repr

namespace Anchors

/-- Notes that the node at event `place` has this anchor. -/
def note (a : Anchors) (place : Nat) : Option String → Anchors
  | none => a
  | some name =>
    let id := a.ids.length
    ⟨(name, id) :: a.ids.filter (·.1 != name), (id, place) :: a.starts⟩

/-- The anchor that a node's first event carries. -/
def ofEvent : Event → Option String
  | .scalar p _ _ | .sequenceStart p | .mappingStart p => p.anchor
  | _ => none

/-- Notes an event; a reference must be to a name that was met. -/
def step (a : Anchors) (place : Nat) (e : Event) : Option Anchors :=
  match e with
  | .alias name => if (a.ids.lookup name).isSome then some a else none
  | e => some (a.note place (ofEvent e))

end Anchors

/-! ## Trees -/

/-- A collection that is not closed yet; what was read last comes first. -/
inductive Frame where
  | sequence (tag : Option String) (items : List Node)
  | mapping (tag : Option String) (entries : List (Node × Node)) (key : Option Node)
deriving Repr

/-- The collections around the place of reading, innermost first, or the finished node. -/
structure Builder where
  frames : List Frame := []
  finished : Option Node := none
deriving Repr

namespace Builder

/-- Adds a whole node. -/
def add (b : Builder) (n : Node) : Builder :=
  match b.frames with
  | [] => { b with finished := some n }
  | .sequence t items :: rest => { b with frames := .sequence t (n :: items) :: rest }
  | .mapping t entries none :: rest => { b with frames := .mapping t entries (some n) :: rest }
  | .mapping t entries (some k) :: rest =>
    { b with frames := .mapping t ((k, n) :: entries) none :: rest }

/-- Opens a collection. -/
def enter (b : Builder) (f : Frame) : Builder := { b with frames := f :: b.frames }

/-- Closes the innermost collection. -/
def close (b : Builder) : Builder :=
  match b.frames with
  | [] => b
  | .sequence t items :: rest => { b with frames := rest }.add (.sequence t items.reverse)
  | .mapping t entries _ :: rest => { b with frames := rest }.add (.mapping t entries.reverse)

/-- Takes an event; `id` is the anchor number of a reference.  Events behind the finished node
change nothing. -/
def step (b : Builder) (e : Event × Nat) : Builder :=
  if b.finished.isSome then b
  else
    match e.1 with
    | .alias _ => b.add (.alias e.2)
    | .scalar p style text => b.add (.scalar p.tag style text)
    | .sequenceStart p => b.enter (.sequence p.tag [])
    | .mappingStart p => b.enter (.mapping p.tag [] none)
    | .sequenceEnd | .mappingEnd => b.close
    | .documentStart | .documentEnd => b

end Builder

namespace Node

/-- The node that a sequence of events begins with. -/
def ofEvents? (es : List (Event × Nat)) : Option Node := (es.foldl Builder.step {}).finished

end Node

namespace Document

/-- Gives every reference the number its name has at that place. -/
def number : Nat → Anchors → List (Event × Nat) → List Event →
    Option (List (Event × Nat) × Anchors)
  | _, a, done, [] => some (done.reverse, a)
  | place, a, done, e :: es =>
    match a.step place e with
    | none => none
    | some a' =>
      let id := match e with
        | .alias name => (a.ids.lookup name).getD 0
        | _ => 0
      number (place + 1) a' ((e, id) :: done) es

/-- The document that a sequence of events holds. -/
def ofEvents? (es : List Event) : Option Document := do
  let (numbered, anchors) ← number 0 {} [] es
  let root ← Node.ofEvents? numbered
  let anchored := anchors.starts.filterMap fun s =>
    (Node.ofEvents? (numbered.drop s.2)).map fun n => (s.1, n)
  return { root, anchored, size := es.length }

/-- The only document of a YAML text. -/
def ofText? (text : String) : Option Document := do
  match ← events? text with
  | .documentStart :: rest =>
    let body := rest.takeWhile (· != .documentEnd)
    if rest.dropWhile (· != .documentEnd) == [.documentEnd] then ofEvents? body else none
  | _ => none

end Document

end GitGateway.Yaml
