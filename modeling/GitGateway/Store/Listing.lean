import GitGateway.Files.Disk
import GitGateway.Log

/-!
# Bare repositories on a disk

A bare repository is a directory that holds a file `HEAD`.  A listing finds those below a root
whose name ends in `.git`, at any depth, but it looks neither behind links nor into a repository it
found.  A directory that cannot be read only hides what lies below it.
-/

namespace GitGateway

namespace Store

/-- Whether a path leads to a bare repository. -/
def isBare (d : Disk) (path : String) : Bool :=
  d.isDir path && d.isFile (Path.join path "HEAD")

end Store

/-- What a listing finds. -/
structure Listing where
  /-- Paths of the repositories below the root, without `.git`. -/
  names : List String := []
  /-- Directories that could not be read, and why. -/
  unreadable : List (String × OsError) := []
deriving DecidableEq, Repr

namespace Listing

/-- Two findings one after the other. -/
def append (a b : Listing) : Listing := ⟨a.names ++ b.names, a.unreadable ++ b.unreadable⟩

instance : Append Listing := ⟨append⟩

/-- Whether the directory at a place, given innermost first, holds a file `HEAD`. -/
def holdsHead (d : Disk) (place : List FileName) : Bool :=
  match d.follow true Disk.maxLinks place [.down (.text "HEAD")] with
  | .entry _ e => e.isFile
  | _ => false

/-- A path of names, given innermost first. -/
def shown (names : List FileName) : String :=
  String.intercalate "/" (names.reverse.map FileName.shown)

/-- A path without one `.git` at its end. -/
def dropSuffix (s : String) : String :=
  let cs := s.toList
  let suffix := ['.', 'g', 'i', 't']
  if suffix.isSuffixOf cs then String.ofList (cs.take (cs.length - suffix.length)) else s

/-- What lies below a directory.  `place` is where it is on the disk and `below` where it is below
the root, both innermost first. -/
def ofEntries (d : Disk) (root : String) (place below : List FileName) :
    List (FileName × Entry) → Listing
  | [] => {}
  | (name, .dir readable es) :: rest =>
    let here :=
      if name.isGit && holdsHead d (name :: place) then ⟨[dropSuffix (shown (name :: below))], []⟩
      else if readable then ofEntries d root (name :: place) (name :: below) es
      else ⟨[], [(Path.join root (shown (name :: below)), .permissionDenied)]⟩
    here ++ ofEntries d root place below rest
  | _ :: rest => ofEntries d root place below rest

/-- The findings below a root, unsorted. -/
def find (d : Disk) (root : String) : Listing :=
  match d.lead true root with
  | .entry place (.dir true es) => ofEntries d root place.reverse [] es
  | .entry _ (.dir false _) => ⟨[], [(root, .permissionDenied)]⟩
  | .entry _ _ => ⟨[], [(root, .notDirectory)]⟩
  | _ => {}

/-- The repositories below a root, sorted; a root that is missing has none. -/
def ofDisk (d : Disk) (root : String) : Listing :=
  let found := find d root
  { found with names := found.names.mergeSort fun a b => decide (a ≤ b) }

/-- What is reported about the directories that could not be read. -/
def events (l : Listing) : List LogEvent :=
  l.unreadable.map fun (path, e) =>
    ⟨.warn, "git::bare_repo", "failed to read directory while listing repos",
      [("path", path), ("error", e.message)]⟩

end Listing

end GitGateway
