import GitGateway.Access.Key
import GitGateway.Git.PktLine
import GitGateway.Log
import GitGateway.Net.SocketAddr
import GitGateway.Session.Error
import GitGateway.Stream

/-!
# Sessions

One command of one client: who it is, what it asked for, and the three streams it talks through.  A
session ends once, with an exit status; what comes after that changes neither the status nor what
the client was sent, except for a pack operation, which is handed the streams themselves.
-/

namespace GitGateway

/-- The streams and the environment that a pack operation is handed. -/
structure PackIo where
  stdin : Source
  stdout : Sink
  stderr : Sink
  env : List (String × String)
deriving DecidableEq, Repr

/-- A session. -/
structure Session where
  command : List String
  peer : Option SocketAddr := none
  user : String := ""
  key : Option ClientKey := none
  env : List (String × String) := []
  stdin : Source := {}
  stdout : Sink := {}
  stderr : Sink := {}
  exitStatus : Option Nat := none
deriving DecidableEq, Repr

namespace Session

/-- Whether the session has ended. -/
def isTerminated (s : Session) : Bool := s.exitStatus.isSome

/-- What a write to a session that has ended reports. -/
def exitedError : IoError := ⟨.brokenPipe, "session already exited"⟩

/-- Writes to the client's output. -/
def writeStdout (s : Session) (data : List UInt8) : Except IoError Unit × Session :=
  if s.isTerminated then (.error exitedError, s)
  else
    let (r, sink) := s.stdout.writeAll data
    (r, { s with stdout := sink })

/-- Writes to the client's diagnostics. -/
def writeStderr (s : Session) (data : List UInt8) : Except IoError Unit × Session :=
  if s.isTerminated then (.error exitedError, s)
  else
    let (r, sink) := s.stderr.writeAll data
    (r, { s with stderr := sink })

/-- What is reported about an output that was shut down, if that failed. -/
def shutdownEvents (output : String) : Except IoError Unit → List LogEvent
  | .ok () => []
  | .error e =>
    [⟨.debug, "session", "failed to close session " ++ output, [("error", e.message)]⟩]

/-- Ends the session and shuts its outputs down; gives what is reported of that.  Only the first end
counts, and an output that fails to shut down keeps the other one from nothing. -/
def finish (s : Session) (status : Nat) : List LogEvent × Session :=
  if s.isTerminated then ([], s)
  else
    let s := { s with exitStatus := some status }
    let (out, stdout) := s.stdout.shutdown
    let s := { s with stdout }
    let (err, stderr) := s.stderr.shutdown
    let s := { s with stderr }
    (shutdownEvents "stdout" out ++ shutdownEvents "stderr" err, s)

/-- Ends the session; what is reported of that is not kept in the log. -/
def exit (s : Session) (status : Nat) : Session := (s.finish status).2

/-- Ends the session with an error, of which the client is told in one message. -/
def fatal (s : Session) (e : SessionError) : Session :=
  let s :=
    if s.isTerminated then s
    else { s with stdout := (s.stdout.writeAll (Git.PktLine.encodeError e.clientMessage)).2 }
  s.exit e.exitStatus

/-- The streams for a pack operation. -/
def packIo (s : Session) : PackIo := ⟨s.stdin, s.stdout, s.stderr, s.env⟩

/-- Takes the streams back. -/
def withIo (s : Session) (io : PackIo) : Session :=
  { s with stdin := io.stdin, stdout := io.stdout, stderr := io.stderr }

theorem exit_eq (s : Session) (status : Nat) : s.exit status =
    if s.isTerminated then s
    else { s with
      exitStatus := some status
      stdout := s.stdout.shutdown.2
      stderr := s.stderr.shutdown.2 } := by
  unfold exit finish
  split <;> rfl

@[simp] theorem exit_exitStatus (s : Session) (status : Nat) :
    (s.exit status).exitStatus = some (s.exitStatus.getD status) := by
  cases h : s.exitStatus <;> simp [exit_eq, isTerminated, h]

end Session

end GitGateway
