import GitGateway.Stream.Pipe

/-!
# Relays

While a session runs, two pumps carry its output and its diagnostics to the client's channel, each
from a pipe of its own.  The session, the pumps and the client take turns in any order.  Once the
session and both pumps are done, the channel gets the exit status, the end of the output and its
close, in this order.

A channel may stop taking messages at any time.  A pump that finds this out gives up and takes its
end of the pipe away, so that a write to it fails; the last messages are tried all the same.
-/

namespace GitGateway.Ssh

/-- A message on a channel. -/
inductive Message where
  | data (bytes : List UInt8)
  | diagnostics (bytes : List UInt8)
  | exitStatus (status : Nat)
  | eof
  | close
deriving DecidableEq, Repr

/-- One of the two outputs of a session. -/
inductive Output where
  | stdout
  | stderr
deriving DecidableEq, Repr

/-- The message that carries bytes of an output. -/
def Output.message : Output → List UInt8 → Message
  | .stdout, bytes => .data bytes
  | .stderr, bytes => .diagnostics bytes

/-- One thing that a session still does. -/
structure Write where
  output : Output
  bytes : List UInt8
deriving DecidableEq, Repr

/-- What a pump is doing. -/
inductive Pump where
  | reading
  /-- It has read these bytes and sends them next. -/
  | sending (bytes : List UInt8)
  | done
deriving DecidableEq, Repr

/-- An output on its way to the channel. -/
structure Lane where
  pipe : Pipe
  pump : Pump := .reading
deriving DecidableEq, Repr

/-- The state of a relay. -/
structure Relay where
  /-- What the session still writes. -/
  todo : List Write
  /-- The exit status it then has; a session that sets none counts as successful. -/
  exitStatus : Option Nat
  /-- Whether the session has ended. -/
  hasEnded : Bool := false
  stdout : Lane
  stderr : Lane
  /-- Whether the channel takes messages. -/
  isOpen : Bool := true
  /-- What is sent after the output, in order. -/
  farewell : Option (List Message) := none
  /-- What was sent. -/
  sent : List Message := []
deriving DecidableEq, Repr

/-- Who takes a turn. -/
inductive RelayParty where
  | session
  | pump (output : Output)
  | farewell
  /-- The client, who may stop taking messages. -/
  | client
deriving DecidableEq, Repr

namespace Relay

/-- How much a pump carries at once. -/
def chunk : Nat := 32768

/-- How much a channel's pipe holds. -/
def pipeCapacity : Nat := 65536

/-- The start of a relay. -/
def ofSession (todo : List Write) (exitStatus : Option Nat) : Relay where
  todo := todo
  exitStatus := exitStatus
  stdout := { pipe := ⟨pipeCapacity, [], false⟩ }
  stderr := { pipe := ⟨pipeCapacity, [], false⟩ }

/-! ## Outputs -/

/-- Where an output stands. -/
def lane (r : Relay) : Output → Lane
  | .stdout => r.stdout
  | .stderr => r.stderr

/-- Moves an output on. -/
def setLane (r : Relay) (lane : Lane) : Output → Relay
  | .stdout => { r with stdout := lane }
  | .stderr => { r with stderr := lane }

theorem lane_setLane (r : Relay) (lane : Lane) (o o' : Output) :
    (r.setLane lane o).lane o' = if o' = o then lane else r.lane o' := by
  cases o <;> cases o' <;> rfl

@[simp] theorem setLane_todo (r : Relay) (lane : Lane) (o : Output) :
    (r.setLane lane o).todo = r.todo := by
  cases o <;> rfl

@[simp] theorem setLane_exitStatus (r : Relay) (lane : Lane) (o : Output) :
    (r.setLane lane o).exitStatus = r.exitStatus := by
  cases o <;> rfl

@[simp] theorem setLane_hasEnded (r : Relay) (lane : Lane) (o : Output) :
    (r.setLane lane o).hasEnded = r.hasEnded := by
  cases o <;> rfl

@[simp] theorem setLane_isOpen (r : Relay) (lane : Lane) (o : Output) :
    (r.setLane lane o).isOpen = r.isOpen := by
  cases o <;> rfl

@[simp] theorem setLane_farewell (r : Relay) (lane : Lane) (o : Output) :
    (r.setLane lane o).farewell = r.farewell := by
  cases o <;> rfl

@[simp] theorem setLane_sent (r : Relay) (lane : Lane) (o : Output) :
    (r.setLane lane o).sent = r.sent := by
  cases o <;> rfl

/-- Takes an end of an output's pipe away. -/
def closePipe (r : Relay) (o : Output) : Relay :=
  r.setLane ⟨(r.lane o).pipe.close, (r.lane o).pump⟩ o

/-- Sets what the session still writes. -/
def withTodo (r : Relay) (todo : List Write) : Relay := { r with todo }

/-- Ends the session, which closes what is still open. -/
def endSession (r : Relay) : Relay :=
  let closed := (r.closePipe .stdout).closePipe .stderr
  { closed with hasEnded := true }

/-- Puts a message on the channel. -/
def put (r : Relay) (m : Message) : Relay := { r with sent := r.sent ++ [m] }

/-- Sends a message, if the channel takes it. -/
def send (r : Relay) (m : Message) : Relay := if r.isOpen then r.put m else r

/-! ## Turns -/

/-- Lets the session go on.  With nothing left to write, a session that sets an exit status closes
its output and then its diagnostics; its end closes what is still open. -/
def stepSession (r : Relay) : Option Relay :=
  if r.hasEnded then none
  else
    match r.todo with
    | [] =>
      if r.exitStatus.isSome && !r.stdout.pipe.isClosed then some (r.closePipe .stdout)
      else if r.exitStatus.isSome && !r.stderr.pipe.isClosed then some (r.closePipe .stderr)
      else some r.endSession
    | w :: rest =>
      if w.bytes.isEmpty then some (r.withTodo rest)
      else
        match (r.lane w.output).pipe.write w.bytes with
        | (.pending, _) => none
        | (.ready (.error _), _) => some (r.withTodo rest)
        | (.ready (.ok n), pipe) =>
          some ((r.setLane ⟨pipe, (r.lane w.output).pump⟩ w.output).withTodo
            (⟨w.output, w.bytes.drop n⟩ :: rest))

/-- Lets the pump of an output go on: it reads what the pipe holds, a chunk at most, and sends it,
until the pipe or the channel comes to its end. -/
def stepPump (r : Relay) (o : Output) : Option Relay :=
  match (r.lane o).pump with
  | .done => none
  | .reading =>
    match (r.lane o).pipe.read chunk with
    | (.pending, _) => none
    | (.ready [], pipe) => some (r.setLane ⟨pipe, .done⟩ o)
    | (.ready bytes, pipe) => some (r.setLane ⟨pipe, .sending bytes⟩ o)
  | .sending bytes =>
    if r.isOpen then
      some ((r.setLane ⟨(r.lane o).pipe, .reading⟩ o).send (o.message bytes))
    else some (r.setLane ⟨(r.lane o).pipe.close, .done⟩ o)

/-- Sends the next of the last messages, once everything else is done. -/
def stepFarewell (r : Relay) : Option Relay :=
  match r.farewell with
  | none =>
    if r.hasEnded && r.stdout.pump == .done && r.stderr.pump == .done then
      some { r with farewell := some [.exitStatus (r.exitStatus.getD 0), .eof, .close] }
    else none
  | some [] => none
  | some (m :: rest) => some ({ r with farewell := some rest }.send m)

/-- Lets the client stop taking messages. -/
def stepClient (r : Relay) : Option Relay :=
  if r.isOpen then some { r with isOpen := false } else none

/-- The turn of a party; none if it has to wait or has nothing left to do. -/
def step (r : Relay) : RelayParty → Option Relay
  | .session => r.stepSession
  | .pump o => r.stepPump o
  | .farewell => r.stepFarewell
  | .client => r.stepClient

/-- Whether everything was sent. -/
def isOver (r : Relay) : Bool := r.farewell == some []

/-- Gives turns in this order; a party that cannot take its turn is passed over. -/
def run (r : Relay) (turns : List RelayParty) : Relay :=
  turns.foldl (fun r p => (r.step p).getD r) r

end Relay

end GitGateway.Ssh
