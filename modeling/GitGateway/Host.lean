import GitGateway.Files.Disk
import GitGateway.Git.Exchange
import GitGateway.Log
import GitGateway.Program

/-!
# What the gateway asks of its host

The store and the pack service live on a host: its disk, its git program, and what the gateway
itself keeps while it runs, which is the lock of creations and the names marked private.  Each
question is answered in one step; between two of them others may act.
-/

namespace GitGateway

/-- How a git program is called. -/
structure Git.Call where
  program : String
  arguments : List String
  /-- The variables that are set on top of the gateway's own environment. -/
  overrides : List (String × String) := []
deriving DecidableEq, Repr

/-- What a git program left behind that ran for its own sake. -/
structure Git.Report where
  exit : Git.Exit
  diagnostics : List UInt8
deriving DecidableEq, Repr

/-- A question to the host. -/
inductive HostAsk where
  /-- Reports an event. -/
  | emit (e : LogEvent)
  /-- Everything that lies on the disk. -/
  | disk
  | makeDirAll (path : String)
  /-- Writes an empty file. -/
  | touch (path : String)
  /-- Runs a git program without input. -/
  | runGit (call : Git.Call)
  /-- Starts a git program and exchanges bytes with it until the exchange is over. -/
  | exchange (call : Git.Call) (io : PackIo)
  /-- Waits for the lock of creations and takes it. -/
  | lock
  | unlock
  /-- The names that are marked private. -/
  | marks
  /-- Marks a name private. -/
  | mark (name : String)
deriving DecidableEq, Repr

namespace HostAsk

/-- What answers a question. -/
abbrev Answer : HostAsk → Type
  | .emit _ => Unit
  | .disk => Disk
  | .makeDirAll _ => Except OsError Unit
  | .touch _ => Except OsError Unit
  | .runGit _ => Except OsError Git.Report
  | .exchange _ _ => Except OsError Git.Exchange
  | .lock => Unit
  | .unlock => Unit
  | .marks => List String
  | .mark _ => Unit

end HostAsk

/-- A program over the questions to a host. -/
abbrev OnHost := Program HostAsk HostAsk.Answer

namespace OnHost

/-- Asks a question. -/
def ask (q : HostAsk) : OnHost q.Answer := Program.call q

/-- Reports an event. -/
def emit (e : LogEvent) : OnHost Unit := ask (.emit e)

end OnHost

end GitGateway
