import GitGateway.Gateway.Admission
import GitGateway.Git.CommandLine
import GitGateway.Text.Quoted
import GitGateway.Text.Utf8

/-!
# Connections

What the gateway does with the requests of one client.  The client proves who it is, opens channels,
sends variables, and starts at most one session on each channel; what it sends afterwards is that
session's input.  Every request is one step, which may ask for the client's admission and which has
effects on the client and on the sessions.  A session may take input in part before it fails to take
the rest.  If the connection breaks off over that, no further request is served.
-/

namespace GitGateway.Ssh

/-- A channel of a connection. -/
structure Channel where
  /-- The variables sent so far, in order. -/
  env : List (String × String) := []
  /-- Whether a session was started. -/
  isStarted : Bool := false
  /-- Whether the session's input is still open. -/
  takesInput : Bool := false
deriving DecidableEq, Repr

/-- A connection. -/
structure Connection where
  peer : Option SocketAddr := none
  /-- The user named by the last attempt that was accepted. -/
  user : Option String := none
  /-- The key of the last attempt that was accepted, if it was one with a key. -/
  key : Option ClientKey := none
  /-- The open channels by their numbers. -/
  channels : List (Nat × Channel) := []
deriving DecidableEq, Repr

/-- What became of input that was passed on to a session.  Where it failed, so many bytes were taken
before. -/
inductive Feed where
  | written
  /-- The session does not read any more. -/
  | closed (taken : Nat)
  /-- The session did not take it in time. -/
  | stalled (taken : Nat)
  /-- The server ends the connection. -/
  | cancelled (taken : Nat)
deriving DecidableEq, Repr

/-- What a session took of its input. -/
def Feed.part : Feed → List UInt8 → List UInt8
  | .written, bytes => bytes
  | .closed n, bytes | .stalled n, bytes | .cancelled n, bytes => bytes.take n

/-- A request of the client. -/
inductive Request where
  | proveKey (user : String) (key : ClientKey)
  /-- Asks to be let in without a key. -/
  | withoutKey (user : String)
  | openChannel (channel : Nat)
  | setVariable (channel : Nat) (name value : String)
  | terminal (channel : Nat)
  /-- Starts a session with a command line. -/
  | exec (channel : Nat) (line : List UInt8)
  /-- Starts a session without a command. -/
  | shell (channel : Nat)
  /-- Sends input; `fed` is what becomes of it if a session takes input. -/
  | data (channel : Nat) (bytes : List UInt8) (fed : Feed)
  | eof (channel : Nat)
  | closeChannel (channel : Nat)
deriving DecidableEq, Repr

/-- What a request leads to. -/
inductive Effect where
  | accept
  | reject
  /-- The request on a channel was granted. -/
  | success (channel : Nat)
  | failure (channel : Nat)
  /-- A session begins; its streams are the channel's. -/
  | start (channel : Nat) (session : Session)
  | input (channel : Nat) (bytes : List UInt8)
  /-- The session's input has come to its end. -/
  | inputEnd (channel : Nat)
  | report (e : LogEvent)
  /-- The connection breaks off. -/
  | breakOff (why : String)
deriving DecidableEq, Repr

/-- Whether it is the end of the connection. -/
def Effect.isBreak : Effect → Bool
  | .breakOff _ => true
  | _ => false

namespace Connection

/-- The channel with a number; a channel nobody opened is fresh. -/
def channel (c : Connection) (n : Nat) : Channel := (c.channels.lookup n).getD {}

/-- Takes a channel away. -/
def dropChannel (c : Connection) (n : Nat) : Connection :=
  { c with channels := c.channels.filter fun p => p.1 != n }

/-- Puts a channel under a number. -/
def setChannel (c : Connection) (n : Nat) (ch : Channel) : Connection :=
  { c with channels := (n, ch) :: (c.dropChannel n).channels }

/-- An event of this part of the gateway. -/
def event (c : Connection) (severity : Severity) (message : String)
    (details : List (String × String)) : LogEvent :=
  let peer := match c.peer with
    | some a => "Some(" ++ a.text ++ ")"
    | none => "None"
  ⟨severity, "ssh::session", message, ("peer", peer) :: details⟩

/-! ## Authentication -/

/-- Lets a client in, or not. -/
def conclude (c : Connection) (isAdmitted : Bool) (user : String) (key : Option ClientKey) :
    Connection × List Effect :=
  let kind := if key.isSome then "public-key auth " else "keyless auth "
  let details := ("user", user) ::
    (key.map fun k => ("fingerprint", k.fingerprint)).toList
  if isAdmitted then
    ({ c with user := some user, key },
      [.report (c.event .info (kind ++ "accepted") details), .accept])
  else (c, [.report (c.event .warn (kind ++ "rejected") details), .reject])

/-! ## Channels -/

/-- The session that a channel starts. -/
def session (c : Connection) (ch : Channel) (command : List String) : Session where
  command := command
  peer := c.peer
  user := c.user.getD ""
  key := c.key
  env := ch.env

/-- Starts a session, unless the channel has one. -/
def start (c : Connection) (n : Nat) (command : List String) : Connection × List Effect :=
  let ch := c.channel n
  if ch.isStarted then
    (c, [.report (c.event .warn "ignoring second exec request on channel" []), .failure n])
  else
    (c.setChannel n { ch with isStarted := true, takesInput := true },
      [.success n, .start n (c.session ch command)])

/-- Ends the input of a channel's session, if it is open. -/
def endInput (c : Connection) (n : Nat) : Connection × List Effect :=
  match c.channels.lookup n with
  | some ch =>
    (c.setChannel n { ch with takesInput := false }, if ch.takesInput then [.inputEnd n] else [])
  | none => (c, [])

/-- The details about a client that does not go on. -/
def shownUser (c : Connection) : String :=
  match c.user with
  | some u => "Some(" ++ Text.quoted u ++ ")"
  | none => "None"

/-- Passes input on. -/
def feed (c : Connection) (n : Nat) (bytes : List UInt8) (fed : Feed) : Connection × List Effect :=
  let stalled := "session input stalled past the idle timeout"
  if (c.channels.lookup n).any fun ch => ch.takesInput then
    let (c, effects) := match fed with
      | .written => (c, [])
      | .closed _ => (c.setChannel n { c.channel n with takesInput := false }, [])
      | .stalled _ =>
        (c, [.report (c.event .warn stalled [("user", c.shownUser)]), .breakOff stalled])
      | .cancelled _ => (c, [.breakOff "connection terminated"])
    (c, .input n (fed.part bytes) :: effects)
  else (c, [])

/-- What a request about channels leads to; nothing for the other requests. -/
def onChannel (c : Connection) : Request → Connection × List Effect
  | .openChannel n => (c.setChannel n {}, [])
  | .setVariable n name value =>
    let ch := c.channel n
    (c.setChannel n { ch with env := ch.env ++ [(name, value)] }, [])
  | .terminal n => (c, [.success n])
  | .exec n line => c.start n (Git.CommandLine.split (Text.Utf8.decodeLossy line))
  | .shell n => c.start n []
  | .data n bytes fed => c.feed n bytes fed
  | .eof n => c.endInput n
  | .closeChannel n =>
    let (c, effects) := c.endInput n
    (c.dropChannel n, effects)
  | .proveKey _ _ | .withoutKey _ => (c, [])

/-- What a request leads to. -/
def step (c : Connection) (r : Request) : Asking (Except Crash (Connection × List Effect)) := do
  match r with
  | .proveKey user key =>
    return (← Admission.byKey key).map fun isAdmitted => c.conclude isAdmitted user (some key)
  | .withoutKey user =>
    return (← Admission.withoutKey).map fun isAdmitted => c.conclude isAdmitted user none
  | r => return .ok (c.onChannel r)

/-- What requests lead to, one after the other, until the connection breaks off. -/
def run (c : Connection) : List Request → Asking (Except Crash (Connection × List Effect))
  | [] => return .ok (c, [])
  | r :: rest => do
    match ← c.step r with
    | .error crash => return .error crash
    | .ok (c, effects) =>
      if effects.any Effect.isBreak then return .ok (c, effects)
      else return (← c.run rest).map fun (c, later) => (c, effects ++ later)

end Connection

end GitGateway.Ssh
