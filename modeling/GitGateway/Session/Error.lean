import GitGateway.Failure
import GitGateway.Repo.Confine

/-!
# Why a session fails

Every fatal end of a session has one of four causes.  The client is told one of three fixed
messages, which say nothing about what went wrong inside.
-/

namespace GitGateway

/-- The cause of a session's fatal end. -/
inductive SessionError where
  /-- The identity's level is below what the operation needs. -/
  | notAuthorized
  /-- The repository is missing or malformed. -/
  | invalidRepository
  | pathEscape (cause : PathEscape)
  | systemFailure (cause : Failure)
deriving DecidableEq, Repr

namespace SessionError

/-- The wording for the log. -/
def message : SessionError → String
  | .notAuthorized => "not authorized"
  | .invalidRepository => "invalid repository"
  | .pathEscape e => e.message
  | .systemFailure f => "system failure: " ++ f.message

/-- The wording for the client. -/
def clientMessage : SessionError → String
  | .notAuthorized => "you are not authorized to do this"
  | .invalidRepository => "invalid repo"
  | .pathEscape _ | .systemFailure _ => "something went wrong"

/-- The exit status of a session that ends so. -/
def exitStatus (_ : SessionError) : Nat := 1

end SessionError

end GitGateway
