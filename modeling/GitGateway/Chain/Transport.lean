import GitGateway.Chain
import GitGateway.Dispatch
import GitGateway.Text.Quoted

/-!
# Git transport

The stage that serves git requests.  A request that completes ends the session well; one that fails
is reported with its cause and ends the session with that cause's message.
-/

namespace GitGateway.Stage

/-- What is reported about a failed request. -/
def failureEvent (s : Session) (e : SessionError) : LogEvent :=
  let user := ("user", s.user)
  let command := ("command", Text.quotedList s.command)
  match e with
  | .notAuthorized => ⟨.warn, "middleware::dispatch", "git command denied", [user, command]⟩
  | .invalidRepository =>
    ⟨.info, "middleware::dispatch", "invalid repository requested", [user, command]⟩
  | .pathEscape cause =>
    ⟨.warn, "middleware::dispatch", "rejected repository path outside the store",
      [user, ("error", cause.message)]⟩
  | .systemFailure cause =>
    ⟨.error, "middleware::dispatch", "git command failed",
      [user, command, ("error", cause.message)]⟩

/-- Serves git requests on the store at `root`. -/
def transport (root : String) : Stage := .before do
  match ← dispatch root with
  | .ok .passed => return ()
  | .ok .completed => Handler.exit 0
  | .error e =>
    Handler.emit (failureEvent (← get) e)
    Handler.fatal e

end GitGateway.Stage
