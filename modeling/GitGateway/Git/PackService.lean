import GitGateway.Gateway
import GitGateway.Host
import GitGateway.Store.Listing

/-!
# The pack service

A pack operation is left to a git program.  The service makes sure that the target is a bare
repository, starts the program with nothing of the client's environment but the protocol version,
exchanges bytes, and judges how the exchange ended: a client that went away counts for more than
the status of the program.
-/

namespace GitGateway.Git

/-- The variables a client may set for the program. -/
def forwardedNames : List String := ["GIT_PROTOCOL"]

/-- The variables that are set for the program: of those that may be, the value sent last. -/
def overrides (env : List (String × String)) : List (String × String) :=
  forwardedNames.filterMap fun name => (env.reverse.lookup name).map fun value => (name, value)

/-- A pack service that runs a git program. -/
structure PackService where
  program : String := "git"
deriving DecidableEq, Repr

namespace PackService

/-- The call that serves an operation. -/
def call (p : PackService) (service : Service) (path : RepoPath) (env : List (String × String)) :
    Call :=
  ⟨p.program, [service.subcommand, path.text], overrides env⟩

/-- What is said about a target that is no bare repository. -/
def refusal (service : Service) (path : RepoPath) : PackError :=
  match service with
  | .uploadPack | .uploadArchive => .invalidRepository
  | .receivePack => .failed (.ofText ("push target " ++ path.text ++ " is not a bare repository"))

/-- Judges how an exchange ended. -/
def judge (service : Service) (x : Exchange) : Except PackError Unit :=
  match x.outputEnd, x.diagnosticsEnd with
  | some (.failed e), _ =>
    .error (.failed ⟨["failed to stream pack output to client", e.message]⟩)
  | _, some (.failed e) =>
    .error (.failed ⟨["failed to stream pack diagnostics to client", e.message]⟩)
  | _, _ =>
    if x.child.exit.isSuccess then .ok ()
    else
      .error (.failed (.ofText ("git " ++ service.subcommand ++ " exited with " ++
        x.child.exit.text)))

/-- Serves an operation. -/
def serve (p : PackService) (service : Service) (path : RepoPath) (io : PackIo) :
    OnHost Served := do
  if Store.isBare (← OnHost.ask .disk) path.text then
    match ← OnHost.ask (.exchange (p.call service path io.env) io) with
    | .error e =>
      return ⟨io, .ok (.error (.failed ⟨["failed to spawn git " ++ service.subcommand, e.message]⟩))⟩
    | .ok x => return ⟨x.io, .ok (judge service x)⟩
  else return ⟨io, .ok (.error (refusal service path))⟩

end PackService

end GitGateway.Git
