/-!
# Supervision

A connection runs until it ends by itself, until its time limit passes, or until the server kills
it.  The event that comes first decides how the connection is said to have ended.
-/

namespace GitGateway.Ssh

/-- How a supervised connection ended. -/
inductive Outcome (ε : Type) where
  | completed
  | failed (e : ε)
  | timedOut
  | killed
deriving DecidableEq, Repr

/-- What happens to a connection, and when. -/
structure Watch (ε : Type) where
  /-- How the connection ends by itself, and when; it may run forever. -/
  ending : Option (Nat × Except ε Unit) := none
  /-- The time limit. -/
  limit : Option Nat := none
  /-- When the server kills the connection. -/
  kill : Option Nat := none

namespace Watch

variable {ε : Type}

/-- Everything that may happen, with its time. -/
def events (w : Watch ε) : List (Nat × Outcome ε) :=
  (w.ending.map fun (t, r) => (t, match r with | .ok () => .completed | .error e => .failed e)).toList
    ++ (w.limit.map fun t => (t, .timedOut)).toList ++ (w.kill.map fun t => (t, .killed)).toList

/-- The earlier of two events; the first of two at the same time. -/
def earlier (a b : Nat × Outcome ε) : Nat × Outcome ε := if b.1 < a.1 then b else a

/-- How the connection ends, if it does. -/
def outcome? (w : Watch ε) : Option (Outcome ε) :=
  match w.events with
  | [] => none
  | e :: rest => some (rest.foldl earlier e).2

end Watch

end GitGateway.Ssh
