import GitGateway.Config.Validate
import GitGateway.Yaml.Node

/-!
# Reading a configuration

A configuration is one YAML document.  A text takes any scalar as it is written; a number and a
truth value must be plain; a left-out value stands for an empty list or an empty table.  Unknown
keys of a table are ignored and known ones may stand once; in the table of repositories the last
entry of a name counts.  References to anchors are followed, but not without bound.
-/

namespace GitGateway.Config

open GitGateway.Yaml

/-- Reading inside a document; the state counts how many references were followed. -/
abbrev Decode (α : Type) := StateT Nat Option α

namespace Decode

/-- Nothing fits. -/
def mismatch : Decode α := fun _ => none

/-- Gives a value if there is one. -/
def ofOption (o : Option α) : Decode α := fun n => o.map (·, n)

/-- The node itself, or the node that a reference stands for. -/
def target (d : Document) : Node → Decode Node
  | .alias id => fun n =>
    if d.size * 100 < n + 1 then none else (d.anchored.lookup id).map (·, n + 1)
  | n => pure n

/-- Whether a node was left out. -/
def isLeftOut : Node → Bool
  | .scalar _ style text => style == .plain && text == ""
  | _ => false

/-! ## Scalars -/

/-- Any scalar as text. -/
def text (d : Document) (n : Node) : Decode String := do
  match ← target d n with
  | .scalar _ _ s => return s
  | _ => mismatch

/-- The text of a scalar that may be a number or a truth value: a plain one, or a literal block that
its tag calls so. -/
def literal (d : Document) (tag : String) (n : Node) : Decode String := do
  match ← target d n with
  | .scalar t style s =>
    if style == .plain || (style == .literal && t == some tag) then return s else mismatch
  | _ => mismatch

/-- The truth value that a text writes. -/
def truth? (s : String) : Option Bool :=
  if ["true", "True", "TRUE"].contains s then some true
  else if ["false", "False", "FALSE"].contains s then some false
  else none

/-- A truth value. -/
def bool (d : Document) (n : Node) : Decode Bool := do
  ofOption (truth? (← literal d "tag:yaml.org,2002:bool" n))

/-- The number that digits write, below 2 to the 64. -/
def digits? (base : Nat) (cs : List Char) : Option Nat :=
  let value (c : Char) : Option Nat := SocketAddr.digit? base c
  if cs.isEmpty || cs.any (fun c => (value c).isNone) then none
  else
    let n := cs.foldl (fun n c => n * base + (value c).getD 0) 0
    if n < UInt64.size then some n else none

/-- Whether a number is written with a zero in front of other digits. -/
def isPadded (cs : List Char) : Bool :=
  1 < cs.length && cs.head? == some '0' && cs.all Char.isDigit

/-- The natural number that a text writes: decimal, or in another base behind `0x`, `0o` or `0b`,
and perhaps with one plus sign in front. -/
def nat? (s : String) : Option Nat :=
  let cs := match s.toList with
    | '+' :: rest => rest
    | cs => cs
  let other := match cs with
    | '0' :: 'x' :: rest => digits? 16 rest
    | '0' :: 'o' :: rest => digits? 8 rest
    | '0' :: 'b' :: rest => digits? 2 rest
    | _ => none
  match other with
  | some n => some n
  | none => if isPadded cs then none else digits? 10 cs

/-- A natural number. -/
def nat (d : Document) (n : Node) : Decode Nat := do
  ofOption (nat? (← literal d "tag:yaml.org,2002:int" n))

/-- The name behind the mark of a local tag. -/
def localTag? (tag : Option String) : Option String :=
  match tag.map String.toList with
  | some ('!' :: rest) => some (if rest.isEmpty then "!" else String.ofList rest)
  | _ => none

/-- An access level: its name as a scalar, or as the tag of a node that says nothing else. -/
def level (d : Document) (n : Node) : Decode AccessLevel := do
  match ← target d n with
  | .scalar tag style s =>
    match localTag? tag with
    | some name =>
      if style == .plain && ["", "~", "null", "Null", "NULL"].contains s then
        ofOption (AccessLevel.ofName? name)
      else mismatch
    | none => ofOption (AccessLevel.ofName? s)
  | _ => mismatch

/-! ## Collections -/

/-- The nodes of a list. -/
def items (d : Document) (n : Node) : Decode (List Node) := do
  match ← target d n with
  | .sequence _ ns => return ns
  | n => if isLeftOut n then return [] else mismatch

/-- The entries of a table, with their keys as text. -/
def entries (d : Document) (n : Node) : Decode (List (String × Node)) := do
  match ← target d n with
  | .mapping _ es => es.mapM fun e => return (← text d e.1, e.2)
  | n => if isLeftOut n then return [] else mismatch

/-- The entries of a table with known keys, none of which may stand twice. -/
def fields (d : Document) (known : List String) (n : Node) : Decode (List (String × Node)) := do
  let es := (← entries d n).filter fun e => known.contains e.1
  if (es.map (·.1)).Nodup then return es else mismatch

/-- The value of a field, or a default. -/
def field (es : List (String × Node)) (key : String) (read : Node → Decode α) (default : α) :
    Decode α :=
  match es.lookup key with
  | some n => read n
  | none => pure default

/-- The value of a field that must be there. -/
def required (es : List (String × Node)) (key : String) (read : Node → Decode α) : Decode α :=
  match es.lookup key with
  | some n => read n
  | none => mismatch

/-- A list of texts. -/
def textList (d : Document) (n : Node) : Decode (List String) := do (← items d n).mapM (text d)

/-! ## The parts of a configuration -/

/-- The listener's settings. -/
def ssh (d : Document) (n : Node) : Decode SshSettings := do
  let es ← fields d ["listen_addr", "key_path", "max_timeout", "idle_timeout",
    "max_auth_attempts", "shutdown_grace"] n
  let s : SshSettings := {}
  return {
    listenAddr := ← field es "listen_addr" (text d) s.listenAddr
    keyPath := ← field es "key_path" (text d) s.keyPath
    maxTimeout := ← field es "max_timeout" (nat d) s.maxTimeout
    idleTimeout := ← field es "idle_timeout" (nat d) s.idleTimeout
    maxAuthAttempts := ← field es "max_auth_attempts" (nat d) s.maxAuthAttempts
    shutdownGrace := ← field es "shutdown_grace" (nat d) s.shutdownGrace }

/-- A user. -/
def user (d : Document) (n : Node) : Decode UserSettings := do
  let es ← fields d ["name", "keys", "access"] n
  return {
    name := ← required es "name" (text d)
    keys := ← field es "keys" (textList d) []
    access := ← field es "access" (level d) .readOnly }

/-- A repository's settings. -/
def repo (d : Document) (n : Node) : Decode RepoSettings := do
  let es ← fields d ["private", "collaborators"] n
  return {
    isPrivate := ← field es "private" (bool d) false
    collaborators := ← field es "collaborators" (textList d) [] }

/-- Adds an entry to a table; the last entry of a name counts. -/
def insert (table : List (String × α)) (key : String) (value : α) : List (String × α) :=
  table.filter (·.1 != key) ++ [(key, value)]

/-- The table of repositories. -/
def repos (d : Document) (n : Node) : Decode (List (String × RepoSettings)) := do
  let es ← (← entries d n).mapM fun e => return (e.1, ← repo d e.2)
  return es.foldl (fun table e => insert table e.1 e.2) []

/-- The access settings. -/
def access (d : Document) (n : Node) : Decode AccessSettings := do
  let es ← fields d ["anon_access", "allow_keyless", "admin_keys", "users", "repos"] n
  let a : AccessSettings := {}
  return {
    anonymous := ← field es "anon_access" (level d) a.anonymous
    keyless := ← field es "allow_keyless" (bool d) a.keyless
    adminKeys := ← field es "admin_keys" (textList d) []
    users := ← field es "users" (fun n => do (← items d n).mapM (user d)) []
    repos := ← field es "repos" (repos d) [] }

/-- A whole configuration. -/
def config (d : Document) (n : Node) : Decode Config := do
  let es ← fields d ["name", "data_path", "repos_dir", "ssh", "access"] n
  let dataPath ← required es "data_path" (text d)
  let c : Config := { dataPath }
  return {
    dataPath
    name := ← field es "name" (text d) c.name
    reposDir := ← field es "repos_dir" (text d) c.reposDir
    ssh := ← field es "ssh" (ssh d) c.ssh
    access := ← field es "access" (access d) c.access }

end Decode

/-- The configuration that a YAML text writes, valid or not. -/
def decode? (yaml : String) : Option Config := do
  let d ← Document.ofText? yaml
  let (c, _) ← (Decode.config d d.root).run 0
  return c

/-- The valid configuration that a YAML text writes. -/
def ofYaml (yaml : String) : Except Invalid Config :=
  match decode? yaml with
  | none => .error .malformed
  | some c => (check c).map fun _ => c

end GitGateway.Config
