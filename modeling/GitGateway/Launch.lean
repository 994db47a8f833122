import GitGateway.Config.Load
import GitGateway.Launch.Options
import GitGateway.Scripted.Host
import GitGateway.Ssh.HostKey.Load

/-!
# Launching the gateway

A start goes through fixed steps: read the options, load the configuration, make the store's
directory, open the store, load or make the host key, bind the listener, and serve until a signal
asks for the end.  The first step that fails ends the program with that failure.
-/

namespace GitGateway

namespace Launch

/-- The signals that ask for the end. -/
inductive Signal where
  | interrupt
  | terminate
deriving DecidableEq, Repr

namespace Signal

/-- The name of a signal. -/
def name : Signal → String
  | .interrupt => "SIGINT"
  | .terminate => "SIGTERM"

end Signal

/-- What a start finds around it. -/
structure Setting where
  disk : Disk
  /-- The bytes that a fresh host key is made of. -/
  secret : List UInt8
  /-- The signal that comes once the gateway listens. -/
  signal : Signal

/-- How a start ended. -/
structure Ending where
  status : Nat := 0
  stdout : String := ""
  stderr : String := ""
  /-- How the log was to be written, if it came to that. -/
  logFormat : Option LogFormat := none
  /-- What was reported, in order. -/
  log : List LogEvent := []
  disk : Disk

/-! ## The listener -/

/-- Ports that only the system's own services may use. -/
def isReserved (port : Nat) : Bool := 0 < port && port < 1024

/-- Whether the address is one of this host's own. -/
def isOwn : SocketAddr → Bool
  | .v4 octets _ => octets.head? == some 127 || octets == [0, 0, 0, 0]
  | .v6 groups _ _ => groups == [0, 0, 0, 0, 0, 0, 0, 0] || groups == [0, 0, 0, 0, 0, 0, 0, 1]

/-- Binds the listener. -/
def bind (a : SocketAddr) : Except OsError Unit :=
  if isReserved a.port then .error .permissionDenied
  else if isOwn a then .ok ()
  else .error .addressNotAvailable

/-- The address of the listener, once it is bound. -/
def listen (text : String) : Except Failure SocketAddr :=
  match SocketAddr.ofText? text with
  | none =>
    .error ⟨["invalid SSH listen address: " ++ Text.quoted text, "invalid socket address syntax"]⟩
  | some a =>
    match bind a with
    | .ok () => .ok a
    | .error e => .error ⟨["failed to bind SSH listener on " ++ a.text, e.message]⟩

/-! ## The steps -/

/-- A start that is under way: it changes the disk and the log, or fails. -/
abbrev Step := ExceptT Failure (StateM Scripted.Host)

/-- Reports an event. -/
def say (origin message : String) (details : List (String × String) := []) : Step Unit :=
  modify fun h => { h with log := h.log ++ [⟨.info, origin, message, details⟩] }

/-- Makes the store's directory and opens the store. -/
def prepareStore (c : Config) : Step Unit := do
  let h ← get
  match h.disk.makeDirAll c.reposPath with
  | .error e => throw ⟨["failed to create repository store: " ++ c.reposPath, e.message]⟩
  | .ok disk =>
    let (opened, h) := { h with disk }.openStore c.reposPath c.access
    set h
    match opened with
    | .error e => throw e
    | .ok _ => say "main" "repository store ready" [("path", c.reposPath)]

/-- Loads or makes the host key. -/
def prepareKey (c : Config) (secret : List UInt8) : Step Unit := do
  let h ← get
  match Ssh.HostKey.loadOrGenerate h.disk c.hostKeyPath secret with
  | .error e => throw e
  | .ok loaded => set { h with disk := loaded.disk, log := h.log ++ [loaded.event] }

/-- Serves until the signal comes, and shuts down; nobody is connected. -/
def serve (c : Config) (signal : Signal) : Step Unit := do
  match listen c.ssh.listenAddr with
  | .error e => throw e
  | .ok a =>
    say "ssh::server" "SSH server listening" [("address", a.text)]
    say "main" ("received " ++ signal.name)
    say "ssh::server" "shutting down SSH server"
      [("active", "0"), ("grace_secs", toString c.ssh.shutdownGrace)]
    say "ssh::server" "SSH server stopped accepting connections" [("address", a.text)]
    say "ssh::server" "SSH server shut down cleanly"
    say "main" "forgegate shut down cleanly"

/-- All steps after the configuration was loaded. -/
def steps (s : Setting) (o : Options) (c : Config) : Step Unit := do
  say "main" "starting forgegate" [("config_path", o.config)]
  prepareStore c
  prepareKey c s.secret
  serve c s.signal

/-- How the steps end. -/
def perform (s : Setting) (o : Options) (c : Config) : Ending :=
  let (result, h) := (steps s o c).run.run { disk := s.disk }
  let ending : Ending := { logFormat := some o.logFormat, log := h.log, disk := h.disk }
  match result with
  | .ok () => ending
  | .error e => { ending with status := 1, stderr := e.report }

end Launch

/-- Starts the gateway. -/
def launch (s : Launch.Setting) (words : List String) : Launch.Ending :=
  match Launch.Start.ofWords words with
  | .help => { stdout := Launch.helpText, disk := s.disk }
  | .refuse text => { status := 2, stderr := text, disk := s.disk }
  | .run o =>
    match Config.load s.disk o.config with
    | .error e => { status := 1, stderr := e.failure.report, disk := s.disk }
    | .ok c => Launch.perform s o c

end GitGateway
