import GitGateway.Proofs.Answers
import GitGateway.Proofs.Stages

/-!
# What a session puts out

A session is written to and ended by calls in any order.  The first call that ends it decides its
status and closes both outputs; a fatal one sends a packet before.  What was written until then has
come to the client as far as its streams took it, and what is written later is refused.

A **sink** takes what is written to it in pieces as it would take it at once
(`Sink.accepted_append`), so the bytes that came to a client are those of one long write, cut where
its stream fails.  No call looks at what an earlier one reported: a write that fails ends nothing,
and neither a packet nor a close that fails keeps a session from ending.
-/

namespace GitGateway

namespace Sink

variable {s : Sink} {data more : List UInt8}

/-- What a sink takes of the bytes that are written to it. -/
def accepted (s : Sink) (data : List UInt8) : List UInt8 := data.take (s.room data.length)

/-- A sink that has taken what it can. -/
def receive (s : Sink) (data : List UInt8) : Sink :=
  { s with written := s.written ++ s.accepted data }

/-- Whether a sink takes all of the bytes that are written to it. -/
def Fits (s : Sink) (data : List UInt8) : Prop := s.accepted data = data

instance (s : Sink) (data : List UInt8) : Decidable (s.Fits data) :=
  inferInstanceAs (Decidable (s.accepted data = data))

@[simp] theorem receive_limit : (s.receive data).limit = s.limit := rfl
@[simp] theorem receive_shutdowns : (s.receive data).shutdowns = s.shutdowns := rfl
@[simp] theorem receive_written : (s.receive data).written = s.written ++ s.accepted data := rfl

theorem accepted_of_limit_none (h : s.limit = none) : s.accepted data = data := by
  simp [accepted, room, h]

theorem accepted_of_limit {limit : Nat} (h : s.limit = some limit) :
    s.accepted data = data.take (limit - s.written.length) := by
  unfold accepted room
  rw [h]
  exact (List.take_eq_take_min.trans (by rw [Nat.min_comm])).symm

@[simp] theorem accepted_nil : s.accepted [] = [] := List.take_nil

@[simp] theorem receive_nil : s.receive [] = s := by simp [receive]

/-- After a piece, a sink takes of the next what it would have taken of it behind the first. -/
theorem accepted_append : s.accepted (data ++ more) =
    s.accepted data ++ (s.receive data).accepted more := by
  cases h : s.limit with
  | none =>
    have hreceive : (s.receive data).limit = none := h
    rw [accepted_of_limit_none h, accepted_of_limit_none h, accepted_of_limit_none hreceive]
  | some limit =>
    have hreceive : (s.receive data).limit = some limit := h
    rw [accepted_of_limit h, accepted_of_limit hreceive, receive_written, accepted_of_limit h,
      List.take_append, List.length_append, List.length_take]
    have hrest : limit - s.written.length - data.length =
        limit - (s.written.length + min (limit - s.written.length) data.length) := by omega
    rw [hrest]

theorem receive_append : s.receive (data ++ more) = (s.receive data).receive more := by
  simp [receive, accepted_append, ← List.append_assoc]

theorem length_accepted_le : (s.accepted data).length ≤ data.length := List.length_take_le' _ _

theorem fits_iff_le : s.Fits data ↔ data.length ≤ s.room data.length := by
  unfold Fits accepted
  constructor
  · intro h
    have hlen := congrArg List.length h
    rw [List.length_take] at hlen
    omega
  · exact List.take_of_length_le

theorem fits_append_iff : s.Fits (data ++ more) ↔ s.Fits data ∧ (s.receive data).Fits more := by
  unfold Fits
  rw [accepted_append]
  constructor
  · intro h
    have hlen := congrArg List.length h
    have hdata : (s.accepted data).length ≤ data.length := length_accepted_le
    have hmore : ((s.receive data).accepted more).length ≤ more.length := length_accepted_le
    rw [List.length_append, List.length_append] at hlen
    exact List.append_inj h (by omega)
  · rintro ⟨hdata, hmore⟩
    rw [hdata, hmore]

/-- A sink that did not take everything takes nothing more. -/
theorem receive_of_not_fits (h : ¬ s.Fits data) : (s.receive data).receive more = s.receive data := by
  have hnone : (s.receive data).accepted more = [] := by
    cases hlimit : s.limit with
    | none => exact absurd (accepted_of_limit_none hlimit) h
    | some limit =>
      have hlong : limit - s.written.length < data.length := by
        refine Nat.lt_of_not_le fun hle ↦ h ?_
        rw [Fits, accepted_of_limit hlimit, List.take_of_length_le hle]
      have hfull : limit - (s.receive data).written.length = 0 := by
        rw [receive_written, accepted_of_limit hlimit, List.length_append, List.length_take]
        omega
      rw [accepted_of_limit (s := s.receive data) hlimit, hfull, List.take_zero]
  rw [receive, hnone, List.append_nil]

/-- A write takes what it can, and reports whether that was all. -/
theorem writeAll_eq : s.writeAll data =
    (if s.Fits data then .ok () else .error .clientGone, s.receive data) := by
  unfold writeAll
  by_cases h : s.Fits data
  · rw [if_pos h]
    simp [Nat.not_lt.2 (fits_iff_le.1 h), receive, accepted]
  · have hlt : s.room data.length < data.length := Nat.lt_of_not_le fun hle ↦ h (fits_iff_le.2 hle)
    rw [if_neg h]
    simp [hlt, receive, accepted]

end Sink

/-! ## Calls on a session -/

/-- A call on the outputs of a session. -/
inductive OutputCall where
  | writeStdout (data : List UInt8)
  | writeStderr (data : List UInt8)
  | exit (status : Nat)
  | fatal (e : SessionError)
deriving DecidableEq, Repr

namespace OutputCall

/-- The status with which a call ends a session, if it is one that does. -/
def status? : OutputCall → Option Nat
  | .exit status => some status
  | .fatal e => some e.exitStatus
  | .writeStdout _ | .writeStderr _ => none

/-- Whether a call ends a session. -/
def ends (call : OutputCall) : Bool := call.status?.isSome

/-- What a call writes to the client's output. -/
def stdoutData : OutputCall → List UInt8
  | .writeStdout data => data
  | _ => []

/-- What a call writes to the client's diagnostics. -/
def stderrData : OutputCall → List UInt8
  | .writeStderr data => data
  | _ => []

/-- The packet that a call sends as it ends a session. -/
def packet : OutputCall → List UInt8
  | .fatal e => Git.PktLine.encodeError e.clientMessage
  | _ => []

/-- Makes a call; a write also reports how it went. -/
def make (s : Session) : OutputCall → Option (Except IoError Unit) × Session
  | .writeStdout data => (some (s.writeStdout data).1, (s.writeStdout data).2)
  | .writeStderr data => (some (s.writeStderr data).1, (s.writeStderr data).2)
  | .exit status => (none, s.exit status)
  | .fatal e => (none, s.fatal e)

/-- The calls before the first one that ends a session. -/
def opening (calls : List OutputCall) : List OutputCall := calls.takeWhile fun call ↦ !call.ends

/-- The first call that ends a session. -/
def ending? (calls : List OutputCall) : Option OutputCall := calls.find? ends

end OutputCall

namespace Session

open OutputCall (opening ending?)

variable {s : Session} {call : OutputCall} {calls : List OutputCall}

/-- The session after some calls. -/
def after (s : Session) (calls : List OutputCall) : Session :=
  calls.foldl (fun s call ↦ (call.make s).2) s

/-- A session that has ended refuses every write, and no call changes it. -/
theorem make_of_isTerminated (hs : s.isTerminated = true) :
    call.make s = (if call.ends then none else some (.error exitedError), s) := by
  cases call with
  | writeStdout data | writeStderr data =>
    simp [OutputCall.make, OutputCall.ends, OutputCall.status?, writeStdout, writeStderr, hs]
  | exit status => simp [OutputCall.make, OutputCall.ends, OutputCall.status?, exit_eq, hs]
  | fatal e =>
    simp [OutputCall.make, OutputCall.ends, OutputCall.status?, fatal_of_isTerminated hs]

/-- A write to a session that goes on changes what its outputs have taken. -/
theorem make_of_not_ends (hs : s.isTerminated = false) (hcall : call.ends = false) :
    (call.make s).2 = { s with
      stdout := s.stdout.receive call.stdoutData
      stderr := s.stderr.receive call.stderrData } := by
  cases call with
  | writeStdout data | writeStderr data =>
    simp [OutputCall.make, OutputCall.stdoutData, OutputCall.stderrData, writeStdout, writeStderr,
      hs, Sink.writeAll_eq]
  | exit status | fatal e => cases hcall

/-- The call that ends a session sets the status, and closes both outputs behind its packet. -/
theorem make_of_ends (hs : s.isTerminated = false) (hcall : call.ends = true) :
    (call.make s).2 = { s with
      exitStatus := call.status?
      stdout := (s.stdout.receive call.packet).shutdown.2
      stderr := s.stderr.shutdown.2 } := by
  have hstatus := exitStatus_of_not_isTerminated hs
  cases call with
  | writeStdout data | writeStderr data => cases hcall
  | exit status => simp [OutputCall.make, OutputCall.packet, OutputCall.status?, exit_eq, hs]
  | fatal e =>
    simp [OutputCall.make, OutputCall.packet, OutputCall.status?, fatal, exit_eq, isTerminated,
      hstatus, Sink.writeAll_eq]

theorem isTerminated_make (hs : s.isTerminated = false) :
    (call.make s).2.isTerminated = call.ends := by
  cases hcall : call.ends with
  | false => rw [make_of_not_ends hs hcall]; exact hs
  | true => rw [make_of_ends hs hcall]; exact hcall

theorem after_of_isTerminated (hs : s.isTerminated = true) : s.after calls = s := by
  induction calls with
  | nil => rfl
  | cons call calls ih => rw [after, List.foldl_cons, make_of_isTerminated hs]; exact ih

/-- What becomes of a session: its outputs take what is written before the call that ends it, which
changes it as it would change the session that it finds. -/
theorem after_eq (hs : s.isTerminated = false) :
    s.after calls =
      let wrote := (opening calls).flatMap OutputCall.stdoutData
      let complained := (opening calls).flatMap OutputCall.stderrData
      match ending? calls with
      | none => { s with
          stdout := s.stdout.receive wrote
          stderr := s.stderr.receive complained }
      | some call => { s with
          exitStatus := call.status?
          stdout := (s.stdout.receive (wrote ++ call.packet)).shutdown.2
          stderr := (s.stderr.receive complained).shutdown.2 } := by
  induction calls generalizing s with
  | nil => simp [after, opening, ending?]
  | cons call calls ih =>
    have hmake : (call.make s).2.isTerminated = call.ends := isTerminated_make hs
    rw [after, List.foldl_cons, ← after]
    cases hcall : call.ends with
    | true =>
      rw [after_of_isTerminated (hmake.trans hcall), make_of_ends hs hcall]
      simp [opening, ending?, hcall]
    | false =>
      have hopening : opening (call :: calls) = call :: opening calls := by
        simp [opening, hcall]
      have hending : ending? (call :: calls) = ending? calls := by simp [ending?, hcall]
      rw [ih (hmake.trans hcall), hopening, hending, make_of_not_ends hs hcall]
      cases ending? calls <;> simp [Sink.receive_append, List.append_assoc]

/-- A session has ended once a call that ends one was made. -/
theorem isTerminated_after (hs : s.isTerminated = false) :
    (s.after calls).isTerminated = calls.any OutputCall.ends := by
  rw [after_eq hs]
  cases h : ending? calls with
  | none =>
    have hnone := List.find?_eq_none.1 h
    exact hs.trans (List.any_eq_false.2 hnone).symm
  | some call =>
    have hends : call.ends = true := List.find?_some h
    exact hends.trans (List.any_eq_true.2 ⟨call, List.mem_of_find?_eq_some h, hends⟩).symm

/-- **What a session puts out.**  However a session that has not ended is written to and ended, and
whatever its streams fail to do: its status is that of the first call that ends it; its output has
got what was written before that call and the packet of the call, and its diagnostics what was
written before it, each cut only where the stream takes no more; each is shut down once, by that
call, also if the packet or the shutdown of the other one fails; and from then on every write is
refused and no call changes anything. -/
theorem outputs_follow_calls (s : Session) (hs : s.isTerminated = false)
    (calls : List OutputCall) :
    (s.after calls).exitStatus = (ending? calls).bind OutputCall.status? ∧
      (s.after calls).stdout = { s.stdout with
        written := s.stdout.written ++ s.stdout.accepted
          ((opening calls).flatMap OutputCall.stdoutData ++
            (ending? calls).elim [] OutputCall.packet)
        shutdowns := s.stdout.shutdowns + if (ending? calls).isSome then 1 else 0 } ∧
      (s.after calls).stderr = { s.stderr with
        written := s.stderr.written ++ s.stderr.accepted
          ((opening calls).flatMap OutputCall.stderrData)
        shutdowns := s.stderr.shutdowns + if (ending? calls).isSome then 1 else 0 } ∧
      (calls.any OutputCall.ends = true →
        (∀ data, (s.after calls).writeStdout data = (.error exitedError, s.after calls)) ∧
        (∀ data, (s.after calls).writeStderr data = (.error exitedError, s.after calls)) ∧
        ∀ more, s.after (calls ++ more) = s.after calls) := by
  refine ⟨?_, ?_, ?_, fun hended ↦ ?_⟩
  · have hstatus := exitStatus_of_not_isTerminated hs
    rw [after_eq hs]
    cases ending? calls with
    | none => exact hstatus
    | some call => rfl
  · rw [after_eq hs]
    cases ending? calls with
    | none => simp [Sink.receive]
    | some call => rfl
  · rw [after_eq hs]
    cases ending? calls with
    | none => rfl
    | some call => rfl
  · have hafter := (isTerminated_after hs).trans hended
    refine ⟨fun data ↦ ?_, fun data ↦ ?_, fun more ↦ ?_⟩
    · rw [writeStdout, if_pos hafter]
    · rw [writeStderr, if_pos hafter]
    · have happend : s.after (calls ++ more) = (s.after calls).after more := List.foldl_append
      rw [happend, after_of_isTerminated hafter]

/-- A client that takes five bytes and is gone then gets the beginning of the packet behind what was
written, and nothing that comes after it; its diagnostics are closed although its output cannot
be. -/
theorem outputs_of_limited_client :
    let s : Session := { command := [], stdout := { limit := some 5, stuck := some .clientGone } }
    let calls : List OutputCall :=
      [.writeStdout [97, 98], .writeStderr [120], .fatal .notAuthorized, .writeStdout [99], .exit 0]
    s.isTerminated = false ∧
      (s.after calls).exitStatus = some 1 ∧
      (s.after calls).stdout = {
        limit := some 5
        written := [97, 98, 48, 48, 50]
        shutdowns := 1
        stuck := some .clientGone } ∧
      (s.after calls).stderr = { written := [120], shutdowns := 1 } ∧
      ∀ data, (s.after calls).writeStdout data = (.error exitedError, s.after calls) := by
  intro s calls
  obtain ⟨hstatus, hstdout, hstderr, hended⟩ := outputs_follow_calls s rfl calls
  refine ⟨rfl, hstatus.trans rfl, hstdout.trans ?_, hstderr.trans rfl, (hended rfl).1⟩
  decide +kernel

end Session

end GitGateway
