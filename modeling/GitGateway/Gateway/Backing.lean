import GitGateway.Git.PackService
import GitGateway.Store

/-!
# A gateway on a store

The questions of a session, answered by a repository store and a pack service on one host.
-/

namespace GitGateway

/-- A repository store and a pack service. -/
structure Backing where
  store : Store
  pack : Git.PackService := {}
deriving DecidableEq, Repr

namespace Backing

/-- How a question of a session is answered. -/
def answer (b : Backing) : (q : Ask) → OnHost q.Answer
  | .emit e => OnHost.emit e
  | .accessLevel name key => do return .ok (← b.store.accessLevel name key)
  | .allowKeyless => return .ok b.store.policy.keyless
  | .lookup name => do return .ok (← b.store.lookup name)
  | .create name isPrivate => do return .ok (← b.store.create name isPrivate)
  | .list => do return .ok (← b.store.list)
  | .serve service path io => b.pack.serve service path io

/-- A computation on a session, with its questions answered. -/
def carryOut {α : Type} (b : Backing) (h : Handler α) (s : Session) :
    OnHost (Except Crash α × Session) :=
  (h.run.run s).interpret b.answer

end Backing

end GitGateway
