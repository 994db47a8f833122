import GitGateway.Proofs.Transcripts
import GitGateway.Stream.Duplex

/-!
# Cutting a stream

A client polls a stream, and the stream may change from behind in between, as when the peer sends
something.  Whatever the client does, a stream that can be cut answers as the wrapped one does until
it is cancelled (`run_of_open`).  From then on it answers as a **severed** stream, on which all but
shutting down fails and changes nothing (`run_of_cancelled`).  Both follow from what one event does,
by induction on the client.

The stream knows one waker, that of the last poll for something that a cancellation makes fail, and
only this one is woken.  So an operation that waits is woken unless somebody else has polled for
another one since (`wakerAfter_eq`).
-/

namespace GitGateway

open Program

/-- Whether a cancellation makes the operation fail. -/
def StreamOp.isGuarded : StreamOp → Bool
  | .shutdown => false
  | .read _ | .write _ | .flush => true

/-- What happens to a stream with states `σ`. -/
inductive StreamEvent (ω σ : Type) where
  | poll (op : StreamOp) (waker : ω)
  /-- The stream changes without being polled. -/
  | behind (change : σ → σ)

namespace StreamEvent

variable {ω σ : Type}

/-- What is answered to an event. -/
abbrev Answer : StreamEvent ω σ → Type
  | .poll op _ => op.Answer
  | .behind _ => Unit

/-- Whom an event leaves to be woken by a cancellation. -/
def waker? : StreamEvent ω σ → Option ω
  | .poll op w => if op.isGuarded then some w else none
  | .behind _ => none

end StreamEvent

/-- How a client uses a stream, and what happens behind it in the meantime. -/
abbrev StreamUse (ω σ α : Type) := Program (StreamEvent ω σ) StreamEvent.Answer α

/-- What a stream answers to an event. -/
def Polled.answer {ω σ : Type} (p : Polled ω σ) : (e : StreamEvent ω σ) → σ → e.Answer × σ
  | .poll op w, s => p op w s
  | .behind change, s => ((), change s)

namespace Cancellable

variable {ω σ α β : Type}

/-- What a stream that can be cut answers to an event at the stream that it wraps. -/
def answer (p : Polled ω σ) :
    (e : StreamEvent ω σ) → Cancellable ω σ → e.Answer × Cancellable ω σ
  | .poll op w, s => polled p op w s
  | .behind change, s => ((), { s with inner := change s.inner })

/-- A stream on which nothing is left to do but to shut it down. -/
def severed (p : Polled ω σ) : Polled ω σ
  | .read _, _, s | .write _, _, s | .flush, _, s => (.ready (.error terminated), s)
  | .shutdown, w, s => p .shutdown w s

variable (p : Polled ω σ) {s : Cancellable ω σ}

/-! ## One event -/

theorem answer_of_open (h : s.isCancelled = false) (e : StreamEvent ω σ) :
    answer p e s = ((p.answer e s.inner).1,
      ⟨(p.answer e s.inner).2, false, e.waker?.or s.waiting⟩) := by
  obtain ⟨inner, isCancelled, waiting⟩ := s
  cases h
  cases e with
  | behind change => rfl
  | poll op w => cases op <;> rfl

theorem answer_of_cancelled (h : s.isCancelled = true) (e : StreamEvent ω σ) :
    answer p e s = (((severed p).answer e s.inner).1,
      { s with inner := ((severed p).answer e s.inner).2 }) := by
  obtain ⟨inner, isCancelled, waiting⟩ := s
  cases h
  cases e with
  | behind change => rfl
  | poll op w => cases op <;> rfl

/-! ## A whole use -/

/-- Who waits after what happened, if somebody waited before. -/
def wakerAfter (before : Option ω) (t : List (Sigma (@StreamEvent.Answer ω σ))) : Option ω :=
  t.foldl (fun w c ↦ c.1.waker?.or w) before

/-- Until it is cancelled, a stream that can be cut answers as the wrapped one does. -/
theorem run_of_open (h : s.isCancelled = false) (u : StreamUse ω σ α) :
    u.transcript (answer p) s = u.transcript p.answer s.inner ∧
      u.run (answer p) s = ((u.run p.answer s.inner).1, ⟨(u.run p.answer s.inner).2, false,
        wakerAfter s.waiting (u.transcript p.answer s.inner)⟩) := by
  induction u generalizing s with
  | done a =>
    obtain ⟨inner, isCancelled, waiting⟩ := s
    cases h
    exact ⟨rfl, rfl⟩
  | ask e next ih =>
    rw [transcript, transcript, run_ask, run_ask, answer_of_open p h]
    obtain ⟨htranscript, hrun⟩ := @ih (p.answer e s.inner).1
      ⟨(p.answer e s.inner).2, false, e.waker?.or s.waiting⟩ rfl
    exact ⟨congrArg _ htranscript, hrun⟩

/-- Once it is cancelled, a stream answers as the severed one does. -/
theorem run_of_cancelled (h : s.isCancelled = true) (u : StreamUse ω σ α) :
    u.transcript (answer p) s = u.transcript (severed p).answer s.inner ∧
      u.run (answer p) s = ((u.run (severed p).answer s.inner).1,
        { s with inner := (u.run (severed p).answer s.inner).2 }) := by
  induction u generalizing s with
  | done a => exact ⟨rfl, rfl⟩
  | ask e next ih =>
    rw [transcript, transcript, run_ask, run_ask, answer_of_cancelled p h]
    obtain ⟨htranscript, hrun⟩ := @ih ((severed p).answer e s.inner).1
      { s with inner := ((severed p).answer e s.inner).2 } h
    exact ⟨congrArg _ htranscript, hrun⟩

/-- A severed stream refuses what a cancellation makes fail. -/
theorem eq_terminated_of_mem {u : StreamUse ω σ α} {t : σ} {op : StreamOp} {w : ω} {a : op.Answer}
    (h : ⟨.poll op w, a⟩ ∈ u.transcript (severed p).answer t) (hguarded : op.isGuarded = true) :
    a = .ready (.error terminated) := by
  obtain ⟨there, hanswer⟩ := exists_of_mem_transcript h
  cases op with
  | shutdown => cases hguarded
  | read | write | flush => exact hanswer

/-- Nobody but one waits after a poll, as long as nobody else polls. -/
theorem wakerAfter_eq {before : Option ω} {t rest : List (Sigma (@StreamEvent.Answer ω σ))}
    {op : StreamOp} {w : ω} {a : op.Answer} (hguarded : op.isGuarded = true)
    (hrest : ∀ c ∈ rest, ∀ w', c.1.waker? = some w' → w' = w) :
    wakerAfter before (t ++ ⟨.poll op w, a⟩ :: rest) = some w := by
  rw [wakerAfter, List.foldl_append, List.foldl_cons, StreamEvent.waker?, if_pos hguarded,
    Option.some_or]
  induction rest with
  | nil => rfl
  | cons c rest ih =>
    rw [List.forall_mem_cons] at hrest
    rw [List.foldl_cons]
    cases hc : c.1.waker? with
    | none => exact ih hrest.2
    | some w' =>
      obtain rfl := hrest.1 w' hc
      exact ih hrest.2

/-! ## The main result -/

/-- **Cutting.**  Until it is cancelled, a stream that can be cut gives a client the answers of the
wrapped one, and leaves that one as it would be without the wrapping.  The cancellation wakes
whoever polled for an operation that it makes fail, unless another waker was left for one since.
From then on the client gets the answers of a severed stream: all that it polls but shutting down is
aborted, and changes nothing. -/
theorem transparent_until_cut (inner : σ) (before : StreamUse ω σ α)
    (after : α → StreamUse ω σ β) :
    let opened := before.run (answer p) ⟨inner, false, none⟩
    let bare := before.run p.answer inner
    let cut := opened.2.cancel
    let ended := (after bare.1).run (answer p) cut.2
    let refused := (after bare.1).run (severed p).answer bare.2
    (before.transcript (answer p) ⟨inner, false, none⟩ = before.transcript p.answer inner ∧
      opened.1 = bare.1 ∧ opened.2.inner = bare.2) ∧
    (∀ t op w a rest, before.transcript p.answer inner = t ++ ⟨.poll op w, a⟩ :: rest →
      op.isGuarded = true → (∀ c ∈ rest, ∀ w', c.1.waker? = some w' → w' = w) →
        cut.1 = some w) ∧
    ((after bare.1).transcript (answer p) cut.2 =
        (after bare.1).transcript (severed p).answer bare.2 ∧
      ended.1 = refused.1 ∧ ended.2.inner = refused.2) ∧
    ∀ op w a, ⟨.poll op w, a⟩ ∈ (after bare.1).transcript (answer p) cut.2 →
      op.isGuarded = true → ∃ e, a = .ready (.error e) ∧ e.kind = .connectionAborted := by
  intro opened bare cut ended refused
  obtain ⟨htranscript, hopened⟩ := @run_of_open _ _ _ p ⟨inner, false, none⟩ rfl before
  have hcut : cut = (wakerAfter none (before.transcript p.answer inner),
      ⟨bare.2, true, none⟩) := congrArg (fun r ↦ r.2.cancel) hopened
  obtain ⟨hafter, hended⟩ := @run_of_cancelled _ _ _ p cut.2 (by rw [hcut]) (after bare.1)
  have hinner : cut.2.inner = bare.2 := by rw [hcut]
  rw [hinner] at hafter hended
  refine ⟨⟨htranscript, congrArg (·.1) hopened, congrArg (·.2.inner) hopened⟩, ?_,
    ⟨hafter, congrArg (·.1) hended, congrArg (·.2.inner) hended⟩, ?_⟩
  · intro t op w a rest ht hguarded hrest
    rw [hcut, ht]
    exact wakerAfter_eq hguarded hrest
  · intro op w a ha hguarded
    rw [hafter] at ha
    exact ⟨terminated, eq_terminated_of_mem p ha hguarded, rfl⟩

/-- A read that waits behind a write is woken by a cancellation, and then aborted. -/
theorem waiting_read_woken_and_aborted :
    let before : StreamUse Nat Duplex Unit :=
      .ask (.poll (.write [1, 2]) 1) fun _ ↦ .ask (.poll (.read 1) 2) fun _ ↦ .done ()
    let cut := (before.run (answer Duplex.near) ⟨.ofCapacity 8, false, none⟩).2.cancel
    before.transcript Duplex.near.answer (.ofCapacity 8) =
        [⟨.poll (.write [1, 2]) 1, .ready (.ok 2)⟩, ⟨.poll (.read 1) 2, .pending⟩] ∧
      cut.1 = some 2 ∧ ∃ e, (polled Duplex.near (.read 1) 2 cut.2).1 = .ready (.error e) ∧
        e.kind = .connectionAborted := by
  intro before cut
  have ht : before.transcript Duplex.near.answer (.ofCapacity 8) =
      [⟨.poll (.write [1, 2]) 1, .ready (.ok 2)⟩, ⟨.poll (.read 1) 2, .pending⟩] := rfl
  obtain ⟨-, hwoken, -, haborted⟩ := transparent_until_cut Duplex.near (.ofCapacity 8) before
    fun _ ↦ .call (StreamEvent.poll (.read 1) 2)
  exact ⟨ht, hwoken [_] _ 2 _ [] ht rfl (List.forall_mem_nil _),
    haborted (.read 1) 2 _ (List.mem_singleton_self _) rfl⟩

/-- A read that waits is not woken by a cancellation if somebody else has written meanwhile. -/
theorem waiting_read_not_woken :
    let before : StreamUse Nat Duplex Unit :=
      .ask (.poll (.read 1) 1) fun _ ↦ .ask (.poll (.write [1, 2]) 2) fun _ ↦ .done ()
    before.transcript (answer Duplex.near) ⟨.ofCapacity 8, false, none⟩ =
        [⟨.poll (.read 1) 1, .pending⟩, ⟨.poll (.write [1, 2]) 2, .ready (.ok 2)⟩] ∧
      (before.run (answer Duplex.near) ⟨.ofCapacity 8, false, none⟩).2.cancel.1 = some 2 :=
  ⟨rfl, rfl⟩

end Cancellable

end GitGateway
