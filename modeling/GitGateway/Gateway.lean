import GitGateway.Access.Level
import GitGateway.Git.Request
import GitGateway.Log
import GitGateway.Program
import GitGateway.Session

/-!
# What a session asks for

A session's handlers need a repository store, an access policy, a pack service and a log.  They ask
for each by a question; the surroundings may answer anything, and may crash instead of answering.
A handler is a program over these questions that works on a session.  What it did to the session
before a crash stays done.
-/

namespace GitGateway

/-- Why a computation broke off; a crash may carry a text. -/
structure Crash where
  text : Option String
deriving DecidableEq, Repr

namespace Crash

/-- The text of a crash. -/
def message (c : Crash) : String := c.text.getD "non-string panic payload"

end Crash

/-- A repository that the store knows. -/
structure Repository where
  name : RepoName
  path : String
  isPrivate : Bool
deriving DecidableEq, Repr

/-- Why the store refuses. -/
inductive BackendError where
  | notFound
  | alreadyExists
  | other (cause : Failure)
deriving DecidableEq, Repr

namespace BackendError

/-- The explanations of a refusal. -/
def failure : BackendError → Failure
  | .notFound => .ofText "repository not found"
  | .alreadyExists => .ofText "repository already exists"
  | .other f => f

end BackendError

/-- Why a pack operation fails. -/
inductive PackError where
  /-- The target is no repository. -/
  | invalidRepository
  | failed (cause : Failure)
deriving DecidableEq, Repr

namespace PackError

/-- The wording of a failure. -/
def message : PackError → String
  | .invalidRepository => "invalid repo"
  | .failed f => f.message

end PackError

/-- How a pack operation left the streams, and how it ended. -/
structure Served where
  io : PackIo
  result : Except Crash (Except PackError Unit)

/-- What a handler may ask for. -/
inductive Ask where
  /-- Reports an event. -/
  | emit (e : LogEvent)
  /-- The level of an identity on a repository. -/
  | accessLevel (name : RepoName) (key : Option ClientKey)
  /-- Whether sessions without a key are admitted. -/
  | allowKeyless
  | lookup (name : RepoName)
  | create (name : RepoName) (isPrivate : Bool)
  /-- The names of all repositories. -/
  | list
  /-- Runs a pack operation. -/
  | serve (service : Git.Service) (path : RepoPath) (io : PackIo)
deriving DecidableEq, Repr

namespace Ask

/-- What answers a question. -/
abbrev Answer : Ask → Type
  | .emit _ => Unit
  | .accessLevel _ _ => Except Crash AccessLevel
  | .allowKeyless => Except Crash Bool
  | .lookup _ => Except Crash (Except BackendError Repository)
  | .create _ _ => Except Crash (Except BackendError Repository)
  | .list => Except Crash (Except BackendError (List RepoName))
  | .serve _ _ _ => Served

end Ask

/-- A program over the questions of a session. -/
abbrev Asking := Program Ask Ask.Answer

/-- A computation on a session. -/
abbrev Handler := ExceptT Crash (StateT Session Asking)

namespace Handler

/-- Asks a question. -/
def ask (q : Ask) : Handler q.Answer := liftM (m := Asking) (Program.call q)

/-- Reports an event. -/
def emit (e : LogEvent) : Handler Unit := ask (.emit e)

/-- The level of an identity on a repository. -/
def accessLevel (name : RepoName) (key : Option ClientKey) : Handler AccessLevel := do
  ExceptT.mk (pure (← ask (.accessLevel name key)))

/-- Looks a repository up. -/
def lookup (name : RepoName) : Handler (Except BackendError Repository) := do
  ExceptT.mk (pure (← ask (.lookup name)))

/-- Creates a repository. -/
def create (name : RepoName) (isPrivate : Bool) : Handler (Except BackendError Repository) := do
  ExceptT.mk (pure (← ask (.create name isPrivate)))

/-- The names of all repositories. -/
def list : Handler (Except BackendError (List RepoName)) := do
  ExceptT.mk (pure (← ask .list))

/-- Runs a pack operation on the session's streams. -/
def serve (service : Git.Service) (path : RepoPath) : Handler (Except PackError Unit) := do
  let served ← ask (.serve service path (← get).packIo)
  modify (·.withIo served.io)
  ExceptT.mk (pure served.result)

/-- Writes to the client's output; a failed write ends nothing. -/
def writeStdout (data : List UInt8) : Handler Unit := modify fun s => (s.writeStdout data).2

/-- Writes to the client's diagnostics; a failed write ends nothing. -/
def writeStderr (data : List UInt8) : Handler Unit := modify fun s => (s.writeStderr data).2

/-- Ends the session. -/
def exit (status : Nat) : Handler Unit := modify (·.exit status)

/-- Ends the session with an error. -/
def fatal (e : SessionError) : Handler Unit := modify (·.fatal e)

/-- How a computation ended, crash or not. -/
def outcome (h : Handler α) : Handler (Except Crash α) := ExceptT.mk do
  return .ok (← h.run)

/-- Ends as another computation did. -/
def resume (o : Except Crash α) : Handler α := ExceptT.mk (pure o)

end Handler

end GitGateway
