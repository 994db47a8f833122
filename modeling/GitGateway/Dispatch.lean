import GitGateway.Gateway

/-!
# Git dispatch

A git request is served in a fixed order: the repository's path is confined to the store, the
identity's level is asked for, the request is authorized, a push creates a missing repository, and
only then the streams go to the pack service.  Since authorization comes before any look at the
store, an identity without read access learns nothing about what exists.
-/

namespace GitGateway

/-- What became of a command. -/
inductive Dispatched where
  /-- It was no git request. -/
  | passed
  /-- The pack operation ran to its end. -/
  | completed
deriving DecidableEq, Repr

namespace Dispatch

/-- Confines the path of a repository, and reports an escape. -/
def confine (root : String) (name : RepoName) : Handler (Except SessionError RepoPath) :=
  match Confine.repoPath root name with
  | .ok path => return .ok path
  | .error e => do
    Handler.emit e.event
    return .error (.pathEscape e)

/-- Looks again for a repository that somebody else has just created. -/
def awaitWinner (name : RepoName) : Handler (Except SessionError Unit) := do
  match ← Handler.lookup name with
  | .ok _ => return .ok ()
  | .error e =>
    let context := "repository " ++ name.text ++ " vanished after concurrent creation"
    return .error (.systemFailure (e.failure.context context))

/-- What is reported when a push creates a repository. -/
def createdEvent (r : Repository) : LogEvent :=
  ⟨.info, "middleware::dispatch", "created repository on first push",
    [("repo", r.name.text), ("path", r.path)]⟩

/-- Creates a repository; losing the race to somebody else is fine. -/
def createMissing (name : RepoName) : Handler (Except SessionError Unit) := do
  match ← Handler.create name false with
  | .ok r =>
    Handler.emit (createdEvent r)
    return .ok ()
  | .error .alreadyExists => awaitWinner name
  | .error e =>
    return .error (.systemFailure (e.failure.context ("failed to create repository " ++ name.text)))

/-- Makes sure that the target of a push exists. -/
def ensureRepository (name : RepoName) : Handler (Except SessionError Unit) := do
  match ← Handler.lookup name with
  | .ok _ => return .ok ()
  | .error .notFound => createMissing name
  | .error e =>
    return .error (.systemFailure (e.failure.context ("failed to look up repository " ++ name.text)))

/-- Runs the pack operation. -/
def serve (service : Git.Service) (path : RepoPath) : Handler (Except SessionError Dispatched) := do
  match ← Handler.serve service path with
  | .ok () => return .ok .completed
  | .error .invalidRepository => return .error .invalidRepository
  | .error (.failed f) => return .error (.systemFailure f)

/-- Whether a level suffices for an operation. -/
def permits (level : AccessLevel) : Git.Service → Bool
  | .receivePack => level.canWrite
  | .uploadPack | .uploadArchive => level.canRead

/-- Serves an authorized request; a push creates its target first. -/
def serveAuthorized (service : Git.Service) (name : RepoName) (path : RepoPath) :
    Handler (Except SessionError Dispatched) :=
  match service with
  | .receivePack => do
    match ← ensureRepository name with
    | .error e => return .error e
    | .ok () => serve service path
  | .uploadPack | .uploadArchive => serve service path

/-- Serves a request for an operation on a repository. -/
def request (root : String) (service : Git.Service) (name : RepoName) :
    Handler (Except SessionError Dispatched) := do
  match ← confine root name with
  | .error e => return .error e
  | .ok path =>
    if name.isEmpty then return .error .invalidRepository
    else
      let level ← Handler.accessLevel name (← get).key
      if permits level service then serveAuthorized service name path
      else return .error .notAuthorized

end Dispatch

/-- Serves the session's command if it is a git request on the store at `root`. -/
def dispatch (root : String) : Handler (Except SessionError Dispatched) := do
  match Git.Request.ofWords (← get).command with
  | .other => return .ok .passed
  | .pack service name => Dispatch.request root service name

end GitGateway
