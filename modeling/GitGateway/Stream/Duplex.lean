import GitGateway.Stream.Cancellable

/-!
# Duplex streams

Two ends joined by two pipes, one for each direction.  An end that is shut down closes the pipe it
writes to; an end that is dropped closes both.
-/

namespace GitGateway

/-- Two ends: the near one, and the far one that may be gone. -/
structure Duplex where
  /-- From the far end to the near one. -/
  incoming : Pipe
  /-- From the near end to the far one. -/
  outgoing : Pipe
  farIsGone : Bool := false
deriving DecidableEq, Repr

namespace Duplex

/-- Two fresh ends. -/
def ofCapacity (capacity : Nat) : Duplex := ⟨⟨capacity, [], false⟩, ⟨capacity, [], false⟩, false⟩

/-- What a read gives, which never fails. -/
def readable : Poll (List UInt8) → Poll (Except IoError (List UInt8))
  | .ready data => .ready (.ok data)
  | .pending => .pending

/-- How the near end reacts, whoever polls it. -/
def near {ω : Type} : Polled ω Duplex
  | .read n, _, d =>
    let (data, incoming) := d.incoming.read n
    (readable data, { d with incoming })
  | .write data, _, d =>
    let (result, outgoing) := d.outgoing.write data
    (result, { d with outgoing })
  | .flush, _, d => (.ready (.ok ()), d)
  | .shutdown, _, d => (.ready (.ok ()), { d with outgoing := d.outgoing.close })

/-- The ends seen from the far one. -/
def flip (d : Duplex) : Duplex := { d with incoming := d.outgoing, outgoing := d.incoming }

/-- Does something at the far end, unless it is gone. -/
def atFar {α : Type} (d : Duplex) (f : Duplex → α × Duplex) : Option α × Duplex :=
  if d.farIsGone then (none, d)
  else
    let (a, d) := f d.flip
    (some a, d.flip)

/-- Drops the far end. -/
def dropFar (d : Duplex) : Duplex :=
  if d.farIsGone then d
  else { incoming := d.incoming.close, outgoing := d.outgoing.close, farIsGone := true }

end Duplex

end GitGateway
