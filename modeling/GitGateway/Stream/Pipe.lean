import GitGateway.Stream

/-!
# Pipes

A pipe holds what was written and not yet read, up to a capacity.  Reading an empty pipe waits for
its writer and ends once the pipe is closed; writing to a full one waits for its reader, and to a
closed one fails.  So an operation on a pipe either happens now or has to wait.
-/

namespace GitGateway

/-- What an operation gives if it is tried now. -/
inductive Poll (α : Type) where
  | ready (a : α)
  /-- It has to wait. -/
  | pending
deriving DecidableEq, Repr

/-- Bytes on their way. -/
structure Pipe where
  capacity : Nat
  bytes : List UInt8 := []
  /-- Whether one of the ends is gone. -/
  isClosed : Bool := false
deriving DecidableEq, Repr

namespace Pipe

/-- How many bytes fit in. -/
def room (p : Pipe) : Nat := p.capacity - p.bytes.length

/-- Writes what fits; tells how much that was. -/
def write (p : Pipe) (data : List UInt8) : Poll (Except IoError Nat) × Pipe :=
  if p.isClosed then (.ready (.error ⟨.brokenPipe, "broken pipe"⟩), p)
  else if p.room == 0 then (.pending, p)
  else (.ready (.ok (min p.room data.length)), { p with bytes := p.bytes ++ data.take p.room })

/-- Reads at most `n` bytes; nothing read means the end, unless nothing was asked for, which never
has to wait. -/
def read (p : Pipe) (n : Nat) : Poll (List UInt8) × Pipe :=
  if p.bytes.isEmpty && !p.isClosed && 0 < n then (.pending, p)
  else (.ready (p.bytes.take n), { p with bytes := p.bytes.drop n })

/-- Takes an end away. -/
def close (p : Pipe) : Pipe := { p with isClosed := true }

end Pipe

end GitGateway
