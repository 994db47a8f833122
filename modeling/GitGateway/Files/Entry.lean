import GitGateway.Text.Utf8

/-!
# File trees

What lies on a disk: files, links and directories.  A name is text if its bytes are, and raw bytes
otherwise, so that every name has one form.  A place is the list of names from the top.
-/

namespace GitGateway

/-- The name of an entry. -/
inductive FileName where
  | text (s : String)
  /-- A name whose bytes are no text. -/
  | raw (bytes : List UInt8)
deriving DecidableEq, Repr

namespace FileName

/-- The name that has these bytes. -/
def ofBytes (bytes : List UInt8) : FileName :=
  match Text.Utf8.decode? bytes with
  | some s => .text s
  | none => .raw bytes

/-- The length in bytes. -/
def size : FileName → Nat
  | .text s => s.utf8ByteSize
  | .raw bytes => bytes.length

/-- The name as text; what is no text shows as the replacement character. -/
def shown : FileName → String
  | .text s => s
  | .raw bytes => Text.Utf8.decodeLossy bytes

/-- What stands behind the last dot, unless nothing stands before it or the name is `..`. -/
def extensionOf [BEq α] (dot : α) (name : List α) : Option (List α) :=
  if name == [dot, dot] then none
  else
    let after := (name.reverse.takeWhile (· != dot)).reverse
    if after.length + 1 < name.length then some after else none

/-- Whether the name is that of a bare repository's directory. -/
def isGit : FileName → Bool
  | .text s => extensionOf '.' s.toList == some ['g', 'i', 't']
  | .raw bytes => extensionOf 46 bytes == some [103, 105, 116]

end FileName

/-- What lies under a name. -/
inductive Entry where
  | file (data : List UInt8)
  /-- A link to a path. -/
  | link (target : String)
  /-- A directory, whose entries stand in the order in which they are listed. -/
  | dir (readable : Bool) (entries : List (FileName × Entry))
deriving Repr

namespace Entry

/-- An empty directory. -/
def emptyDir : Entry := .dir true []

/-- Whether this is a directory. -/
def isDir : Entry → Bool
  | .dir _ _ => true
  | _ => false

/-- Whether this is a file. -/
def isFile : Entry → Bool
  | .file _ => true
  | _ => false

/-- The entries of a directory; anything else has none. -/
def entries : Entry → List (FileName × Entry)
  | .dir _ es => es
  | _ => []

/-- The entry with a name. -/
def child? (e : Entry) (name : FileName) : Option Entry := e.entries.lookup name

/-- The entry at a place, without following links. -/
def at? (e : Entry) : List FileName → Option Entry
  | [] => some e
  | name :: rest => (e.child? name).bind fun c => c.at? rest

/-- Puts an entry under a name, in place of what was there. -/
def setChild (e : Entry) (name : FileName) (c : Entry) : Entry :=
  match e with
  | .dir r es =>
    if (es.lookup name).isSome then
      .dir r (es.map fun p => if p.1 == name then (name, c) else p)
    else .dir r (es ++ [(name, c)])
  | e => e

/-- Takes away the entry with a name. -/
def dropChild (e : Entry) (name : FileName) : Entry :=
  match e with
  | .dir r es => .dir r (es.filter fun p => p.1 != name)
  | e => e

/-- Changes the directory at a place; nothing changes if there is nothing. -/
def modifyAt (e : Entry) (f : Entry → Entry) : List FileName → Entry
  | [] => f e
  | name :: rest =>
    match e.child? name with
    | some c => e.setChild name (c.modifyAt f rest)
    | none => e

end Entry

end GitGateway
