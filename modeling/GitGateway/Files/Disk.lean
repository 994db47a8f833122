import GitGateway.Files.Entry
import GitGateway.Files.OsError
import GitGateway.Path

/-!
# Disks

The operations on a file tree that the gateway needs, with the refusals the system gives.  A path
is followed step by step: `..` goes to the directory above, links are followed a limited number of
times, and a name or path can be too long.
-/

namespace GitGateway

/-- A disk. -/
structure Disk where
  /-- The directory that absolute paths start from. -/
  top : Entry := .emptyDir
  /-- The place that other paths start from, innermost name first. -/
  here : List FileName := []
deriving Repr

namespace Disk

/-! ## Following a path -/

/-- One step of a path as the system takes it. -/
inductive Step where
  /-- Stay, which needs a directory. -/
  | stay
  | up
  | down (name : FileName)
deriving DecidableEq, Repr

/-- The step that a piece of a path stands for. -/
def stepOf (piece : String) : Step :=
  if piece == "" || piece == "." then .stay
  else if piece == ".." then .up
  else .down (.text piece)

/-- The steps of a path from its start. -/
def steps (path : String) : List Step :=
  match Path.pieces path with
  | "" :: rest => rest.map stepOf
  | ps => ps.map stepOf

/-- Where a path leads. -/
inductive Lead where
  /-- To the entry at a place. -/
  | entry (place : List FileName) (e : Entry)
  /-- To a name that its directory does not have. -/
  | missing (dir : List FileName) (name : FileName)
  | refused (e : OsError)
deriving Repr

/-- The longest name. -/
def maxName : Nat := 255

/-- A path of this length is too long. -/
def maxPath : Nat := 4096

/-- How many links are followed. -/
def maxLinks : Nat := 40

/-- Follows steps from a directory, whose place is given innermost first.  A step up or down from a
directory needs the right to search it.  What becomes of a link is up to `onLink`, which is given
where the link lies, its target and the steps behind it; a link at the end is followed only if
`last` says so. -/
def followWith (d : Disk) (rights : List FileName → Bool) (last : Bool)
    (onLink : List FileName → String → List Step → Lead) (here : List FileName) : List Step → Lead
  | [] =>
    match d.top.at? here.reverse with
    | some e => .entry here.reverse e
    | none => .refused .notFound
  | .stay :: rest => followWith d rights last onLink here rest
  | .up :: rest =>
    if rights here.reverse then followWith d rights last onLink here.tail rest
    else .refused .permissionDenied
  | .down name :: rest =>
    if rights here.reverse then
      if maxName < name.size then .refused .nameTooLong
      else
        match (d.top.at? here.reverse).bind fun e => e.child? name with
        | none => if rest.isEmpty then .missing here.reverse name else .refused .notFound
        | some (.dir _ _) => followWith d rights last onLink (name :: here) rest
        | some (.file data) =>
          if rest.isEmpty then .entry (name :: here).reverse (.file data)
          else .refused .notDirectory
        | some (.link target) =>
          if rest.isEmpty && !last then .entry (name :: here).reverse (.link target)
          else onLink here target rest
    else .refused .permissionDenied

/-- Follows steps from a directory, whose place is given innermost first, for somebody who has the
right to search some directories.  `links` links may still be followed; one at the end is followed
only if `last` says so. -/
def followAs (d : Disk) (rights : List FileName → Bool) (last : Bool) :
    (links : Nat) → List FileName → List Step → Lead
  | 0 => followWith d rights last fun _ _ _ => .refused .tooManyLinks
  | links + 1 => followWith d rights last fun here target rest =>
    followAs d rights last links (if Path.isAbsolute target then [] else here)
      (steps target ++ rest)

/-- Follows steps from a directory for somebody who may search every directory. -/
def follow (d : Disk) (last : Bool) (links : Nat) (here : List FileName) (todo : List Step) : Lead :=
  d.followAs (fun _ => true) last links here todo

/-- Where a path leads. -/
def lead (d : Disk) (last : Bool) (path : String) : Lead :=
  if path.toList.contains '\x00' then .refused .nulInPath
  else if path == "" then .refused .notFound
  else if maxPath ≤ path.utf8ByteSize then .refused .nameTooLong
  else d.follow last maxLinks (if Path.isAbsolute path then [] else d.here) (steps path)

/-- The length of names that stand behind slashes. -/
def sizeBehind : List FileName → Nat
  | [] => 0
  | name :: names => 1 + name.size + sizeBehind names

/-- The length of a path that goes on from another one along names. -/
def sizeAlong (root : String) : List FileName → Nat
  | [] => root.utf8ByteSize
  | name :: names =>
    let front := if root.toList.getLast?.all (· == '/') then 0 else 1
    root.utf8ByteSize + front + name.size + sizeBehind names

/-- Where a path leads that goes on from another one along names, which need not be text, for
somebody who has the right to search some directories. -/
def leadAlong (d : Disk) (rights : List FileName → Bool) (root : String) (names : List FileName) :
    Lead :=
  if root.toList.contains '\x00' then .refused .nulInPath
  else if root == "" && names.isEmpty then .refused .notFound
  else if maxPath ≤ sizeAlong root names then .refused .nameTooLong
  else
    d.followAs rights true maxLinks (if Path.isAbsolute root then [] else d.here)
      (steps root ++ names.map .down)

/-- The entry that a path leads to, with links followed. -/
def stat (d : Disk) (path : String) : Except OsError Entry :=
  match d.lead true path with
  | .entry _ e => .ok e
  | .missing _ _ => .error .notFound
  | .refused e => .error e

/-- Whether a path leads to anything. -/
def exists? (d : Disk) (path : String) : Bool := (d.stat path).toOption.isSome

/-- Whether a path leads to a directory. -/
def isDir (d : Disk) (path : String) : Bool := (d.stat path).toOption.any Entry.isDir

/-- Whether a path leads to a file. -/
def isFile (d : Disk) (path : String) : Bool := (d.stat path).toOption.any Entry.isFile

/-! ## Changes -/

/-- Puts an entry under a name of the directory at a place. -/
def put (d : Disk) (dir : List FileName) (name : FileName) (e : Entry) : Disk :=
  { d with top := d.top.modifyAt (fun p => p.setChild name e) dir }

/-- A path without slashes at its end, unless it is nothing else. -/
def trimSlashes (path : String) : String :=
  let kept := path.toList.reverse.dropWhile (· == '/')
  if kept.isEmpty then path else String.ofList kept.reverse

/-- Makes a directory the start of paths that are not absolute. -/
def enter (d : Disk) (path : String) : Disk :=
  match d.lead true path with
  | .entry place (.dir _ _) => { d with here := place.reverse }
  | _ => d

/-- Makes one directory. -/
def makeDir (d : Disk) (path : String) : Except OsError Disk :=
  match d.lead false (trimSlashes path) with
  | .entry _ _ => .error .alreadyExists
  | .missing dir name => .ok (d.put dir name .emptyDir)
  | .refused e => .error e

/-- Makes the directory and those above it; directories that are there already are fine. -/
def makeDirs (d : Disk) (path : String) : Nat → Except OsError Disk
  | 0 => .error .notFound
  | fuel + 1 =>
    if path == "" then .ok d
    else
      match d.makeDir path with
      | .ok d => .ok d
      | .error .notFound =>
        match Path.parent? path with
        | none => .error .notFound
        | some above =>
          match d.makeDirs above fuel with
          | .error e => .error e
          | .ok d =>
            match d.makeDir path with
            | .ok d => .ok d
            | .error e => if d.isDir path then .ok d else .error e
      | .error e => if d.isDir path then .ok d else .error e

/-- Makes the directory and those above it. -/
def makeDirAll (d : Disk) (path : String) : Except OsError Disk :=
  d.makeDirs path (path.length + 1)

/-- Writes a file, in place of the file that was there. -/
def writeFile (d : Disk) (path : String) (data : List UInt8) : Except OsError Disk :=
  match d.lead true path with
  | .entry _ (.dir _ _) => .error .isDirectory
  | .entry place _ =>
    match place.getLast? with
    | some name => .ok (d.put place.dropLast name (.file data))
    | none => .error .isDirectory
  | .missing dir name => .ok (d.put dir name (.file data))
  | .refused e => .error e

/-- Writes a file that must not be there yet, not even as a link that leads nowhere. -/
def createFile (d : Disk) (path : String) (data : List UInt8) : Except OsError Disk :=
  match d.lead false path with
  | .entry _ _ => .error .alreadyExists
  | .missing dir name => .ok (d.put dir name (.file data))
  | .refused e => .error e

/-- Makes a link. -/
def makeLink (d : Disk) (path target : String) : Except OsError Disk :=
  match d.lead false path with
  | .entry _ _ => .error .alreadyExists
  | .missing dir name => .ok (d.put dir name (.link target))
  | .refused e => .error e

/-- Takes away what a path leads to, with everything below it; tells whether there was anything. -/
def remove (d : Disk) (path : String) : Disk × Bool :=
  match d.lead false path with
  | .entry place _ =>
    match place.getLast? with
    | some name =>
      ({ d with top := d.top.modifyAt (fun p => p.dropChild name) place.dropLast }, true)
    | none => (d, false)
  | _ => (d, false)

/-- The bytes of a file. -/
def contents (d : Disk) (path : String) : Except OsError (List UInt8) :=
  match d.stat path with
  | .ok (.file data) => .ok data
  | .ok _ => .error .isDirectory
  | .error e => .error e

end Disk

end GitGateway
