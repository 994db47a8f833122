import GitGateway.Gateway.Backing
import GitGateway.Scripted.Git

/-!
# A host that is a value

A host with a disk, a git program that follows a script, and a record of what was reported.  Nobody
else acts on it, so the lock of creations is always free.
-/

namespace GitGateway.Scripted

/-- The state of the host. -/
structure Host where
  disk : Disk := {}
  /-- The git program, if there is one. -/
  git : Option Git := some {}
  /-- The variables that the git program reports about. -/
  names : List String := []
  /-- The names marked private. -/
  marks : List String := []
  /-- What was reported, in order. -/
  log : List LogEvent := []
deriving Repr

namespace Host

/-- Whether a text has a NUL character. -/
def hasNul (s : String) : Bool := s.toList.contains '\x00'

/-- Whether a call has a NUL character anywhere. -/
def callHasNul (c : GitGateway.Git.Call) : Bool :=
  hasNul c.program || c.arguments.any hasNul || c.overrides.any fun v => hasNul v.1 || hasNul v.2

/-- The program of a call. -/
def find (h : Host) (c : GitGateway.Git.Call) : Except OsError Git :=
  if callHasNul c then .error .nulInData
  else if Path.isAbsolute c.program then
    match h.disk.stat c.program with
    | .ok _ => .error .permissionDenied
    | .error e => .error e
  else
    match h.git with
    | some git => if c.program == "git" then .ok git else .error .notFound
    | none => .error .notFound

/-- Makes a change to the disk, if it is allowed. -/
def change (h : Host) (d : Except OsError Disk) : Except OsError Unit × Host :=
  match d with
  | .ok disk => (.ok (), { h with disk })
  | .error e => (.error e, h)

/-- Runs a git program that makes a repository. -/
def runGit (h : Host) (c : GitGateway.Git.Call) : Except OsError GitGateway.Git.Report × Host :=
  match h.find c with
  | .error e => (.error e, h)
  | .ok git =>
    let (report, disk) := git.init.runInit h.disk (c.arguments.getLastD "")
    (.ok report, { h with disk })

/-- Exchanges bytes with a git program that serves a repository. -/
def exchange (h : Host) (c : GitGateway.Git.Call) (io : PackIo) :
    Except OsError GitGateway.Git.Exchange :=
  (h.find c).map fun git => (GitGateway.Git.Exchange.start io (git.pack.child h.names c)).run

/-- How a question is answered. -/
def answer : (q : HostAsk) → Host → q.Answer × Host
  | .emit e, h => ((), { h with log := h.log ++ [e] })
  | .disk, h => (h.disk, h)
  | .makeDirAll path, h => h.change (h.disk.makeDirAll path)
  | .touch path, h => h.change (h.disk.writeFile path [])
  | .runGit c, h => h.runGit c
  | .exchange c io, h => (h.exchange c io, h)
  | .lock, h => ((), h)
  | .unlock, h => ((), h)
  | .marks, h => (h.marks, h)
  | .mark name, h => ((), { h with marks := name :: h.marks })

/-- Runs a program on the host. -/
def run {α : Type} (h : Host) (p : OnHost α) : α × Host := p.run answer h

/-- Whether an answer ever comes: an exchange is waited for until it is over. -/
def comes : (q : HostAsk) → q.Answer → Bool
  | .exchange _ _, .ok x => x.isOver
  | _, _ => true

/-- Runs a program on the host, if all that it asks is answered. -/
def run? {α : Type} : OnHost α → Host → Option (α × Host)
  | Program.done a, h => some (a, h)
  | Program.ask q next, h =>
    let (a, h) := answer q h
    if comes q a then run? (next a) h else none

/-- Opens a store, whose marked names are then the host's. -/
def openStore (h : Host) (root : String) (settings : AccessSettings) :
    Except Failure Store × Host :=
  match h.run (Store.openAt root settings) with
  | (.ok (store, marks), h) => (.ok store, { h with marks })
  | (.error e, h) => (.error e, h)

theorem run_of_run? {α : Type} {p : OnHost α} {h : Host} {r : α × Host} (hr : h.run? p = some r) :
    h.run p = r := by
  induction p generalizing h with
  | done a => exact Option.some.inj hr
  | ask q next ih =>
    have hcomes : comes q (answer q h).1 = true ∧
        run? (next (answer q h).1) (answer q h).2 = some r := by
      simpa [run?] using hr
    exact ih _ hcomes.2

end Host

end GitGateway.Scripted
