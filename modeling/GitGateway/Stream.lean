/-!
# Byte streams

The two ends a session talks through.  A source gives its bytes and then the end, or fails there; a
sink takes bytes up to a limit, and every write past it fails.  A sink that was shut down still
counts what is forced into it, and it counts how often it was shut down, also when that fails.
-/

namespace GitGateway

/-- What kind of failure a stream reports. -/
inductive IoKind where
  | brokenPipe
  | connectionAborted
  | connectionReset
deriving DecidableEq, Repr

/-- A failure of a stream. -/
structure IoError where
  kind : IoKind
  message : String
deriving DecidableEq, Repr

namespace IoError

/-- The reader behind a stream is gone. -/
def clientGone : IoError := ⟨.brokenPipe, "client went away"⟩

/-- The writer behind a stream broke off. -/
def inputReset : IoError := ⟨.connectionReset, "input reset"⟩

end IoError

/-- Input that is still to be read. -/
structure Source where
  bytes : List UInt8 := []
  /-- Whether reading past the last byte fails instead of ending. -/
  fails : Bool := false
deriving DecidableEq, Repr

namespace Source

/-- Reads at most `n` bytes; nothing read means the end. -/
def read (s : Source) (n : Nat) : Except IoError (List UInt8) × Source :=
  let got := s.bytes.take n
  if got.isEmpty && s.fails then (.error .inputReset, s)
  else (.ok got, { s with bytes := s.bytes.drop n })

end Source

/-- Output that was taken so far. -/
structure Sink where
  /-- How many bytes can be taken in all; without a limit every write succeeds. -/
  limit : Option Nat := none
  written : List UInt8 := []
  /-- How often the sink was shut down. -/
  shutdowns : Nat := 0
  /-- What shutting the sink down fails with, if it does. -/
  stuck : Option IoError := none
deriving DecidableEq, Repr

namespace Sink

/-- How much of `n` more bytes the sink can take. -/
def room (s : Sink) (n : Nat) : Nat :=
  match s.limit with
  | some l => min n (l - s.written.length)
  | none => n

/-- Writes all of `data`, or what fits. -/
def writeAll (s : Sink) (data : List UInt8) : Except IoError Unit × Sink :=
  let n := s.room data.length
  let s' := { s with written := s.written ++ data.take n }
  if n < data.length then (.error .clientGone, s') else (.ok (), s')

/-- Shuts the sink down; one that fails to do so was shut down all the same. -/
def shutdown (s : Sink) : Except IoError Unit × Sink :=
  ((s.stuck.map .error).getD (.ok ()), { s with shutdowns := s.shutdowns + 1 })

/-- Whether the sink was closed. -/
def isClosed (s : Sink) : Bool := 0 < s.shutdowns

end Sink

end GitGateway
