import GitGateway.Git.Exit
import GitGateway.Session
import GitGateway.Stream.Pipe

/-!
# Exchanges with a git program

A pack operation runs a git program and carries bytes both ways: the client's input to the program,
the program's output and diagnostics to the client, each through a pipe.  Five parties take turns in
any order: the program, the two halves of the input copy, and the two output copies.  The operation
is over once both output copies have ended and so has the program; the input is not waited for.

An output copy that fails stops reading, and its pipe stays open.
-/

namespace GitGateway.Git

/-- One thing that a program does. -/
inductive Act where
  | print (data : List UInt8)
  /-- Writes diagnostics. -/
  | complain (data : List UInt8)
  /-- Prints all of its input. -/
  | echo
deriving DecidableEq, Repr

/-- A program that was started. -/
structure Child where
  /-- What it still does. -/
  todo : List Act
  /-- How it then ends. -/
  exit : Exit
deriving DecidableEq, Repr

/-- The copy of the client's input. -/
structure Feed where
  /-- What was read and not yet passed on. -/
  buffer : List UInt8 := []
  /-- Whether the input came to its end. -/
  drained : Bool := false
  isOver : Bool := false
deriving DecidableEq, Repr

/-- How the copy of an output ended. -/
inductive CopyEnd where
  /-- Everything was carried. -/
  | finished
  | failed (cause : IoError)
deriving DecidableEq, Repr

/-- The state of an exchange. -/
structure Exchange where
  io : PackIo
  child : Child
  hasEnded : Bool := false
  feed : Feed := {}
  input : Pipe
  output : Pipe
  diagnostics : Pipe
  /-- How the copy of the output ended, once it has. -/
  outputEnd : Option CopyEnd := none
  diagnosticsEnd : Option CopyEnd := none
deriving DecidableEq, Repr

/-- Who takes a turn. -/
inductive Party where
  | feedRead
  | feedWrite
  | child
  | output
  | diagnostics
deriving DecidableEq, Repr

namespace Exchange

/-- How much a copy carries at once. -/
def chunk : Nat := 8192

/-- Ends the input copy, which closes the program's input. -/
def endFeed (x : Exchange) : Exchange :=
  { x with feed := { x.feed with buffer := [], isOver := true }, input := x.input.close }

/-- Reads more of the client's input. -/
def stepFeedRead (x : Exchange) : Option Exchange :=
  if x.feed.isOver || x.feed.drained || chunk ≤ x.feed.buffer.length then none
  else
    let (result, stdin) := x.io.stdin.read (chunk - x.feed.buffer.length)
    let x := { x with io := { x.io with stdin } }
    match result with
    | .error _ => some x.endFeed
    | .ok [] => some { x with feed := { x.feed with drained := true } }
    | .ok data => some { x with feed := { x.feed with buffer := x.feed.buffer ++ data } }

/-- Passes on what was read, or ends the copy. -/
def stepFeedWrite (x : Exchange) : Option Exchange :=
  if x.feed.isOver then none
  else if x.feed.buffer.isEmpty then (if x.feed.drained then some x.endFeed else none)
  else
    match x.input.write x.feed.buffer with
    | (.pending, _) => none
    | (.ready (.error _), _) => some x.endFeed
    | (.ready (.ok n), input) =>
      some { x with input, feed := { x.feed with buffer := x.feed.buffer.drop n } }

/-- Lets the program end, which closes all of its pipes. -/
def endChild (x : Exchange) : Exchange :=
  { x with
    hasEnded := true
    input := x.input.close
    output := x.output.close
    diagnostics := x.diagnostics.close }

/-- Sets what the program still does. -/
def withTodo (x : Exchange) (todo : List Act) : Exchange :=
  { x with child := { x.child with todo } }

/-- Lets the program go on. -/
def stepChild (x : Exchange) : Option Exchange :=
  if x.hasEnded then none
  else
    match x.child.todo with
    | [] => some x.endChild
    | .print data :: rest =>
      if data.isEmpty then some (x.withTodo rest)
      else
        match x.output.write data with
        | (.ready (.ok n), output) => some ({ x with output }.withTodo (.print (data.drop n) :: rest))
        | _ => none
    | .complain data :: rest =>
      if data.isEmpty then some (x.withTodo rest)
      else
        match x.diagnostics.write data with
        | (.ready (.ok n), diagnostics) =>
          some ({ x with diagnostics }.withTodo (.complain (data.drop n) :: rest))
        | _ => none
    | .echo :: rest =>
      match x.input.read chunk with
      | (.pending, _) => none
      | (.ready [], _) => some (x.withTodo rest)
      | (.ready data, input) => some ({ x with input }.withTodo (.print data :: .echo :: rest))

/-- Carries output to a client's stream; tells whether the copy is over. -/
def carry (pipe : Pipe) (sink : Sink) : Option (Pipe × Sink × Option CopyEnd) :=
  match pipe.read chunk with
  | (.pending, _) => none
  | (.ready [], pipe) => some (pipe, sink, some .finished)
  | (.ready data, pipe) =>
    match sink.writeAll data with
    | (.ok (), sink) => some (pipe, sink, none)
    | (.error e, sink) => some (pipe, sink, some (.failed e))

/-- Carries output to the client. -/
def stepOutput (x : Exchange) : Option Exchange :=
  if x.outputEnd.isSome then none
  else
    (carry x.output x.io.stdout).map fun (output, stdout, outputEnd) =>
      { x with output, outputEnd, io := { x.io with stdout } }

/-- Carries diagnostics to the client. -/
def stepDiagnostics (x : Exchange) : Option Exchange :=
  if x.diagnosticsEnd.isSome then none
  else
    (carry x.diagnostics x.io.stderr).map fun (diagnostics, stderr, diagnosticsEnd) =>
      { x with diagnostics, diagnosticsEnd, io := { x.io with stderr } }

/-- The turn of a party; none if it has to wait or has nothing left to do. -/
def step (x : Exchange) : Party → Option Exchange
  | .feedRead => x.stepFeedRead
  | .feedWrite => x.stepFeedWrite
  | .child => x.stepChild
  | .output => x.stepOutput
  | .diagnostics => x.stepDiagnostics

/-- Whether the operation is over. -/
def isOver (x : Exchange) : Bool :=
  x.outputEnd.isSome && x.diagnosticsEnd.isSome && x.hasEnded

/-- How much the system keeps in a pipe. -/
def pipeCapacity : Nat := 65536

/-- The start of an exchange. -/
def start (io : PackIo) (child : Child) : Exchange where
  io := io
  child := child
  input := ⟨pipeCapacity, [], false⟩
  output := ⟨pipeCapacity, [], false⟩
  diagnostics := ⟨pipeCapacity, [], false⟩

/-! ## One order of turns -/

/-- Gives a party its turn, if it can take it. -/
def turn (x : Exchange) (party : Party) : Exchange := (x.step party).getD x

/-- The turns of a round. -/
def round : List Party := [.feedWrite, .child, .output, .diagnostics, .feedRead]

/-- Gives turns in rounds, until the operation is over or a round changes nothing. -/
def rounds : Nat → Exchange → Exchange
  | 0, x => x
  | fuel + 1, x =>
    if x.isOver then x
    else if round.all fun p => (x.step p).isNone then x
    else rounds fuel (round.foldl turn x)

/-- How many turns a program may need for the rest of what it does, its input apart. -/
def ownBytes : List Act → Nat
  | [] => 0
  | .print data :: rest | .complain data :: rest => data.length + 1 + ownBytes rest
  | .echo :: rest => 1 + ownBytes rest

/-- A number of rounds that suffices: in each, a byte moves on or a party ends. -/
def enough (x : Exchange) : Nat := 8 * (x.io.stdin.bytes.length + ownBytes x.child.todo) + 16

/-- Runs an exchange; the input copy reads twice before it writes. -/
def run (x : Exchange) : Exchange :=
  rounds x.enough ((x.turn .feedRead).turn .feedRead)

end Exchange

end GitGateway.Git
