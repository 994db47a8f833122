import GitGateway.Access.Policy
import GitGateway.Gateway
import GitGateway.Host
import GitGateway.Store.Listing

/-!
# The repository store

Bare repositories in a directory tree, one for each name, with an access policy that is read once.
A repository that is created private carries a mark on the disk, so that it stays private when the
gateway starts anew; while the gateway runs it also keeps the marked names itself, so that asking
for a level never touches the disk.  Creations hold a lock, and look again once they have it.
-/

namespace GitGateway

/-- A store whose policy was read. -/
structure Store where
  /-- The directory of the repositories. -/
  root : String
  policy : Policy
deriving DecidableEq, Repr

namespace Store

/-- The file that marks a repository private. -/
def marker : String := "forgegate-private"

/-- Reports events in order. -/
def report : List LogEvent → OnHost Unit
  | [] => return ()
  | e :: rest => do
    OnHost.emit e
    report rest

/-! ## Looking -/

/-- The repositories below a directory. -/
def listing (root : String) : OnHost (List String) := do
  let found := Listing.ofDisk (← OnHost.ask .disk) root
  report found.events
  return found.names

/-- Confines the path of a repository, and reports an escape. -/
def confine (root : String) (name : RepoName) : OnHost (Except BackendError RepoPath) :=
  match Confine.repoPath root name with
  | .ok path => return .ok path
  | .error e => do
    OnHost.emit e.event
    return .error (.other (.ofText e.message))

/-- The level of an identity on a repository. -/
def accessLevel (s : Store) (name : RepoName) (key : Option ClientKey) : OnHost AccessLevel := do
  return s.policy.level (← OnHost.ask .marks) name key

/-- Looks a repository up. -/
def lookup (s : Store) (name : RepoName) : OnHost (Except BackendError Repository) := do
  match ← confine s.root name with
  | .error e => return .error e
  | .ok path =>
    if isBare (← OnHost.ask .disk) path.text then
      return .ok ⟨name, path.text, s.policy.isPrivate (← OnHost.ask .marks) name⟩
    else return .error .notFound

/-- The names of all repositories. -/
def list (s : Store) : OnHost (Except BackendError (List RepoName)) := do
  return .ok ((← listing s.root).map RepoName.sanitize)

/-! ## Creating -/

/-- The call that makes a bare repository. -/
def initCall (path : String) : Git.Call :=
  ⟨"git", ["init", "--bare", "--quiet", path], []⟩

/-- Text without surrounding blanks. -/
def trimmed (bytes : List UInt8) : String :=
  String.ofList (Text.trim (Text.Utf8.decodeLossy bytes).toList)

/-- Judges how making a repository ended. -/
def judgeInit : Except OsError Git.Report → Except Failure Unit
  | .error e => .error ⟨["failed to spawn git init --bare", e.message]⟩
  | .ok report =>
    if report.exit.isSuccess then .ok ()
    else
      .error (.ofText ("git init --bare failed (status " ++ report.exit.text ++ "): " ++
        trimmed report.diagnostics))

/-- Makes the directory above a path. -/
def makeParent (path : String) : OnHost (Except Failure Unit) :=
  match Path.parent? path with
  | none => return .ok ()
  | some above => do
    match ← OnHost.ask (.makeDirAll above) with
    | .ok () => return .ok ()
    | .error e => return .error ⟨["failed to create parent directory: " ++ above, e.message]⟩

/-- Makes a bare repository at a path. -/
def init (path : String) : OnHost (Except Failure Unit) := do
  match ← makeParent path with
  | .error e => return .error e
  | .ok () => return judgeInit (← OnHost.ask (.runGit (initCall path)))

/-- Puts the private mark on a repository, on the disk first. -/
def markPrivate (name : RepoName) (path : RepoPath) : OnHost (Except Failure Unit) := do
  match ← OnHost.ask (.touch (Path.join path.text marker)) with
  | .error e => return .error ⟨["failed to mark repository private", e.message]⟩
  | .ok () =>
    OnHost.ask (.mark name.text)
    return .ok ()

/-- What is reported when a repository was made. -/
def createdEvent (isPrivate : Bool) : LogEvent :=
  ⟨.info, "backend::fs", "repository created", [("private", if isPrivate then "true" else "false")]⟩

/-- Makes a bare repository and, if it is private, puts the mark on it. -/
def furnish (name : RepoName) (path : RepoPath) (isPrivate : Bool) :
    OnHost (Except Failure Unit) := do
  match ← init path.text with
  | .error e => return .error e
  | .ok () => if isPrivate then markPrivate name path else return .ok ()

/-- Makes a repository that is not there. -/
def make (name : RepoName) (path : RepoPath) (isPrivate : Bool) :
    OnHost (Except BackendError Repository) := do
  match ← furnish name path isPrivate with
  | .error e => return .error (.other e)
  | .ok () =>
    OnHost.emit (createdEvent isPrivate)
    return .ok ⟨name, path.text, isPrivate⟩

/-- Makes a repository unless it is there; the lock is held. -/
def createLocked (name : RepoName) (path : RepoPath) (isPrivate : Bool) :
    OnHost (Except BackendError Repository) := do
  if isBare (← OnHost.ask .disk) path.text then return .error .alreadyExists
  else make name path isPrivate

/-- Creates a repository. -/
def create (s : Store) (name : RepoName) (isPrivate : Bool) :
    OnHost (Except BackendError Repository) := do
  if name.isEmpty then
    return .error (.other (.ofText "refusing to create a repository with an empty name"))
  else
    match ← confine s.root name with
    | .error e => return .error e
    | .ok path =>
      OnHost.ask .lock
      let result ← createLocked name path isPrivate
      OnHost.ask .unlock
      return result

/-! ## Opening -/

/-- Those names of a listing whose repository carries the private mark. -/
def marked (root : String) : List String → OnHost (List String)
  | [] => return []
  | entry :: rest => do
    let name := RepoName.sanitize entry
    match ← confine root name with
    | .error _ => marked root rest
    | .ok path =>
      let isMarked := (← OnHost.ask .disk).isFile (Path.join path.text marker)
      let others ← marked root rest
      return if isMarked then name.text :: others else others

/-- The names marked private on the disk. -/
def scan (root : String) : OnHost (List String) := do marked root (← listing root)

/-- Opens the store at a root; gives the names that are marked private as well. -/
def openAt (root : String) (settings : AccessSettings) :
    OnHost (Except Failure (Store × List String)) := do
  match Policy.ofSettings settings with
  | .error e => return .error e.failure
  | .ok policy => return .ok (⟨root, policy⟩, ← scan root)

end Store

end GitGateway
