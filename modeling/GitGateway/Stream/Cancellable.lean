import GitGateway.Stream.Pipe

/-!
# Streams that can be cut

A connection's stream is polled: an operation either happens now or has to wait, and whoever has to
wait leaves a waker.  A stream that can be cut behaves like the stream it wraps until it is
cancelled; from then on reading, writing and flushing fail without touching the wrapped stream, and
only shutting down still reaches it.  To be cancelled wakes one: who polled last for something that
the cancellation makes fail.
-/

namespace GitGateway

/-- An operation on a stream. -/
inductive StreamOp where
  /-- Reads at most so many bytes; nothing read means the end. -/
  | read (n : Nat)
  /-- Writes some of the bytes; tells how many. -/
  | write (data : List UInt8)
  | flush
  | shutdown
deriving DecidableEq, Repr

namespace StreamOp

/-- What an operation gives. -/
abbrev Result : StreamOp → Type
  | .read _ => List UInt8
  | .write _ => Nat
  | .flush | .shutdown => Unit

/-- What is answered when an operation is polled. -/
abbrev Answer (op : StreamOp) : Type := Poll (Except IoError op.Result)

end StreamOp

/-- How a stream with states `σ` reacts when an operation on it is polled with a waker. -/
abbrev Polled (ω σ : Type) := (op : StreamOp) → ω → σ → op.Answer × σ

/-- The state of a stream that can be cut. -/
structure Cancellable (ω σ : Type) where
  inner : σ
  isCancelled : Bool := false
  /-- Whom the cancellation wakes. -/
  waiting : Option ω := none
deriving DecidableEq, Repr

namespace Cancellable

variable {ω σ : Type}

/-- What an operation on a cancelled stream reports. -/
def terminated : IoError := ⟨.connectionAborted, "connection terminated by the server"⟩

/-- Cancels the stream; gives whom that wakes.  A stream is cancelled once. -/
def cancel (s : Cancellable ω σ) : Option ω × Cancellable ω σ :=
  if s.isCancelled then (none, s) else (s.waiting, { s with isCancelled := true, waiting := none })

/-- Polls the wrapped stream. -/
def pass {α : Type} (s : Cancellable ω σ) (f : σ → α × σ) : α × Cancellable ω σ :=
  let (a, inner) := f s.inner
  (a, { s with inner })

/-- Polls the wrapped stream unless the stream is cancelled, and is woken when it will be. -/
def guard {α : Type} (s : Cancellable ω σ) (w : ω) (f : σ → Poll (Except IoError α) × σ) :
    Poll (Except IoError α) × Cancellable ω σ :=
  if s.isCancelled then (.ready (.error terminated), s)
  else { s with waiting := some w }.pass f

/-- How a stream that can be cut reacts. -/
def polled (p : Polled ω σ) : Polled ω (Cancellable ω σ)
  | .read n, w, s => s.guard w (p (.read n) w)
  | .write data, w, s => s.guard w (p (.write data) w)
  | .flush, w, s => s.guard w (p .flush w)
  | .shutdown, w, s => s.pass (p .shutdown w)

end Cancellable

end GitGateway
