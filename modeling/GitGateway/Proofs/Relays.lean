import GitGateway.Proofs.Pipes
import GitGateway.Ssh.Relay
import Mathlib.Algebra.GroupWithZero.Nat
import Mathlib.Data.List.Basic

/-!
# What reaches a channel

The session, the two pumps, the farewell and the client take turns in any order.  What a turn can be
is said once (`Relay.Takes`), and everything else is read off that.

As long as the channel takes messages, nothing is lost: the bytes of an output that were sent, those
that are on their way in its **lane**, and those that the session still writes are, one behind the
other, what the session had to write (`Relay.Orderly`).  A session closes its pipes only with
nothing left to write, and a pump is done only with a pipe that is closed and empty.  So the last
messages find everything sent, and none of them comes before that.

A channel that stops taking messages only freezes what was sent, so that is always what some orderly
relay had sent (`Relay.exists_orderly`).  And whoever has to wait waits for somebody who does not
(`Relay.exists_turn`), while every turn leaves less to do (`Relay.Takes.left_lt`): in any order in
which everybody gets turns, a relay comes to its end (`Relay.isOver_run_flatten`).
-/

namespace GitGateway.Ssh

/-! ## Bytes of an output -/

/-- The bytes of an output that a message carries. -/
def Message.payload (o : Output) : Message → List UInt8
  | .data bytes => if o = .stdout then bytes else []
  | .diagnostics bytes => if o = .stderr then bytes else []
  | _ => []

/-- The bytes of an output that messages carry, one behind the other. -/
def carried (o : Output) (messages : List Message) : List UInt8 := messages.flatMap (·.payload o)

/-- The bytes that a session writes to an output. -/
def written (o : Output) (todo : List Write) : List UInt8 :=
  todo.flatMap fun w ↦ if w.output = o then w.bytes else []

/-- The bytes that a pump has in hand. -/
def Pump.held : Pump → List UInt8
  | .sending bytes => bytes
  | _ => []

/-- The bytes on their way: what the pump has in hand, and what is in the pipe behind it. -/
def Lane.content (l : Lane) : List UInt8 := l.pump.held ++ l.pipe.bytes

@[simp] theorem payload_message (o o' : Output) (bytes : List UInt8) :
    (o'.message bytes).payload o = if o' = o then bytes else [] := by
  cases o <;> cases o' <;> rfl

@[simp] theorem carried_append (o : Output) (ms ms' : List Message) :
    carried o (ms ++ ms') = carried o ms ++ carried o ms' := List.flatMap_append

theorem carried_singleton (o : Output) (m : Message) : carried o [m] = m.payload o :=
  List.flatMap_singleton ..

theorem written_cons (o : Output) (w : Write) (rest : List Write) :
    written o (w :: rest) = (if w.output = o then w.bytes else []) ++ written o rest := rfl

namespace Relay

/-- What is sent behind the output of a session. -/
def lastWords (status : Option Nat) : List Message := [.exitStatus (status.getD 0), .eof, .close]

/-- The last messages carry nothing of an output. -/
theorem payload_of_mem_lastWords {status : Option Nat} {m : Message} (h : m ∈ lastWords status)
    (o : Output) : m.payload o = [] := by
  simp only [lastWords, List.mem_cons, List.not_mem_nil, or_false] at h
  rcases h with rfl | rfl | rfl <;> rfl

/-- Whether a message carries bytes of an output, as many as a pump carries at once. -/
def IsLoad (m : Message) : Prop :=
  ∃ o bytes, m = Output.message o bytes ∧ bytes ≠ [] ∧ bytes.length ≤ chunk

variable {r r' : Relay} {p : RelayParty} {o : Output} {l : Lane} {todo : List Write}
variable {status : Option Nat}

/-! ## Turns -/

/-- What a turn can be. -/
inductive Takes (r : Relay) : RelayParty → Relay → Prop where
  /-- A write is through, or cannot go through any more. -/
  | dropped {w : Write} {rest : List Write} (hended : r.hasEnded = false)
      (htodo : r.todo = w :: rest) (hw : w.bytes = [] ∨ (r.lane w.output).pipe.isClosed = true) :
      Takes r .session (r.withTodo rest)
  | wrote {w : Write} {rest : List Write} {n : Nat} {pipe : Pipe} (hended : r.hasEnded = false)
      (htodo : r.todo = w :: rest) (hw : w.bytes ≠ [])
      (hwrite : (r.lane w.output).pipe.write w.bytes = (.ready (.ok n), pipe)) :
      Takes r .session ((r.setLane ⟨pipe, (r.lane w.output).pump⟩ w.output).withTodo
        (⟨w.output, w.bytes.drop n⟩ :: rest))
  | closed {o : Output} (hended : r.hasEnded = false) (htodo : r.todo = [])
      (hopen : (r.lane o).pipe.isClosed = false) : Takes r .session (r.closePipe o)
  | ended (hended : r.hasEnded = false) (htodo : r.todo = []) : Takes r .session r.endSession
  | read {o : Output} {bytes : List UInt8} {pipe : Pipe} (hpump : (r.lane o).pump = .reading)
      (hread : (r.lane o).pipe.read chunk = (.ready bytes, pipe)) (hbytes : bytes ≠ []) :
      Takes r (.pump o) (r.setLane ⟨pipe, .sending bytes⟩ o)
  | finished {o : Output} {pipe : Pipe} (hpump : (r.lane o).pump = .reading)
      (hread : (r.lane o).pipe.read chunk = (.ready [], pipe)) :
      Takes r (.pump o) (r.setLane ⟨pipe, .done⟩ o)
  | sent {o : Output} {bytes : List UInt8} (hpump : (r.lane o).pump = .sending bytes)
      (hopen : r.isOpen = true) :
      Takes r (.pump o) ((r.setLane ⟨(r.lane o).pipe, .reading⟩ o).put (o.message bytes))
  | gaveUp {o : Output} {bytes : List UInt8} (hpump : (r.lane o).pump = .sending bytes)
      (hopen : r.isOpen = false) :
      Takes r (.pump o) (r.setLane ⟨(r.lane o).pipe.close, .done⟩ o)
  | parted (hfarewell : r.farewell = none) (hended : r.hasEnded = true)
      (hdone : ∀ o, (r.lane o).pump = .done) :
      Takes r .farewell { r with farewell := some (lastWords r.exitStatus) }
  | said {m : Message} {rest : List Message} (hfarewell : r.farewell = some (m :: rest))
      (hopen : r.isOpen = true) :
      Takes r .farewell ({ r with farewell := some rest }.put m)
  | unheard {m : Message} {rest : List Message} (hfarewell : r.farewell = some (m :: rest))
      (hopen : r.isOpen = false) : Takes r .farewell { r with farewell := some rest }
  | hungUp (hopen : r.isOpen = true) : Takes r .client { r with isOpen := false }

theorem takes_of_stepSession (h : r.stepSession = some r') : Takes r .session r' := by
  unfold stepSession at h
  split at h
  · cases h
  · next hended =>
    rw [Bool.not_eq_true] at hended
    split at h
    · next htodo =>
      split at h
      · next hstdout =>
        cases h
        exact .closed hended htodo (Bool.not_eq_true' _ ▸ (Bool.and_eq_true_iff.1 hstdout).2)
      · split at h
        · next hstderr =>
          cases h
          exact .closed hended htodo (Bool.not_eq_true' _ ▸ (Bool.and_eq_true_iff.1 hstderr).2)
        · cases h
          exact .ended hended htodo
    · next w rest htodo =>
      split at h
      · next hempty =>
        cases h
        exact .dropped hended htodo (.inl (List.isEmpty_iff.1 hempty))
      · next hempty =>
        split at h
        · cases h
        · next hwrite =>
          cases h
          exact .dropped hended htodo (.inr (Pipe.isClosed_of_write hwrite))
        · next hwrite =>
          cases h
          exact .wrote hended htodo (by simpa using hempty) hwrite

theorem takes_of_stepPump (h : r.stepPump o = some r') : Takes r (.pump o) r' := by
  unfold stepPump at h
  split at h
  · cases h
  · next hpump =>
    split at h
    · cases h
    · next hread =>
      cases h
      exact .finished hpump hread
    · next hbytes hread =>
      cases h
      exact .read hpump hread hbytes
  · next bytes hpump =>
    split at h
    · next hopen =>
      cases h
      rw [send, if_pos (by rwa [setLane_isOpen])]
      exact .sent hpump hopen
    · next hopen =>
      cases h
      exact .gaveUp hpump (by simpa using hopen)

theorem takes_of_stepFarewell (h : r.stepFarewell = some r') : Takes r .farewell r' := by
  unfold stepFarewell at h
  split at h
  · next hfarewell =>
    split at h
    · next hdone =>
      cases h
      simp only [Bool.and_eq_true, beq_iff_eq] at hdone
      refine .parted hfarewell hdone.1.1 fun o ↦ ?_
      cases o
      · exact hdone.1.2
      · exact hdone.2
    · cases h
  · cases h
  · next m rest hfarewell =>
    cases h
    unfold send
    split
    · next hopen => exact .said hfarewell hopen
    · next hopen => exact .unheard hfarewell (by simpa using hopen)

/-- A turn is one of these. -/
theorem takes_of_step (h : r.step p = some r') : Takes r p r' := by
  cases p with
  | session => exact takes_of_stepSession h
  | pump o => exact takes_of_stepPump h
  | farewell => exact takes_of_stepFarewell h
  | client =>
    change r.stepClient = some r' at h
    unfold stepClient at h
    split at h
    · next hopen =>
      cases h
      exact .hungUp hopen
    · cases h

/-- What every turn preserves holds in every order of turns. -/
theorem run_induct {P : Relay → Prop} (h : P r) (hstep : ∀ r p r', P r → Takes r p r' → P r')
    (turns : List RelayParty) : P (r.run turns) := by
  unfold run
  induction turns generalizing r with
  | nil => exact h
  | cons p turns ih =>
    rw [List.foldl_cons]
    apply ih
    cases hturn : r.step p with
    | none => exact h
    | some r' => exact hstep r p r' h (takes_of_step hturn)

/-- What holds of every output still does if it holds of the one that moved on. -/
theorem forall_setLane {P : Output → Lane → Prop} (h : ∀ o, P o (r.lane o)) (hl : P o l)
    (o' : Output) : P o' ((r.setLane l o).lane o') := by
  rw [lane_setLane]
  split
  · next heq => rwa [heq]
  · exact h o'

/-! ## While the channel takes messages -/

/-- What holds of an output on its way, of a session that still has `todo` to write, as long as the
channel takes messages. -/
structure IsSteady (todo : List Write) (l : Lane) : Prop where
  closed : l.pipe.isClosed = true → todo = []
  dry : l.pump = .done → l.pipe.IsDry
  load : ∀ bytes, l.pump = .sending bytes → bytes ≠ [] ∧ bytes.length ≤ chunk

/-- Where a relay stands with the last messages: it has not come to them, or both pumps are done and
it has sent some of them. -/
def Parting (status : Option Nat) (r : Relay) (last : List Message) : Prop :=
  r.farewell = none ∧ last = [] ∨
    ∃ rest, r.farewell = some rest ∧ last ++ rest = lastWords status ∧ ∀ o, (r.lane o).pump = .done

theorem Parting.mono {last : List Message} (h : Parting status r last)
    (hfarewell : r'.farewell = r.farewell)
    (hdone : ∀ o, (r.lane o).pump = .done → (r'.lane o).pump = .done) : Parting status r' last := by
  rcases h with ⟨hnone, hlast⟩ | ⟨rest, hrest, hwords, hpumps⟩
  · exact .inl ⟨hfarewell.trans hnone, hlast⟩
  · exact .inr ⟨rest, hfarewell.trans hrest, hwords, fun o ↦ hdone o (hpumps o)⟩

/-- What holds of the relay of a session that had `todo` to write and then this status, as long as
the channel takes messages. -/
structure Orderly (todo : List Write) (status : Option Nat) (r : Relay) : Prop where
  exitStatus : r.exitStatus = status
  /-- Nothing is lost. -/
  conserved : ∀ o, carried o r.sent ++ ((r.lane o).content ++ written o r.todo) = written o todo
  steady : ∀ o, IsSteady r.todo (r.lane o)
  sent : ∃ output last, r.sent = output ++ last ∧ (∀ m ∈ output, IsLoad m) ∧ Parting status r last

namespace Orderly

theorem start (todo : List Write) (status : Option Nat) :
    Orderly todo status (ofSession todo status) where
  exitStatus := rfl
  conserved o := by cases o <;> rfl
  steady o := by cases o <;> exact ⟨fun h ↦ (nomatch h), fun h ↦ (nomatch h), fun _ h ↦ (nomatch h)⟩
  sent := ⟨[], [], rfl, List.forall_mem_nil _, .inl ⟨rfl, rfl⟩⟩

/-- An output moves on without losing anything. -/
theorem setLane (h : Orderly todo status r) (hcontent : l.content = (r.lane o).content)
    (hsteady : IsSteady r.todo l) (hdone : (r.lane o).pump = .done → l.pump = .done) :
    Orderly todo status (r.setLane l o) where
  exitStatus := by rw [setLane_exitStatus, h.exitStatus]
  conserved := by
    intro o'
    rw [setLane_sent, setLane_todo, lane_setLane]
    split
    · next heq => rw [hcontent, heq, h.conserved]
    · exact h.conserved o'
  steady := by
    rw [setLane_todo]
    exact forall_setLane (P := fun _ ↦ IsSteady r.todo) h.steady hsteady
  sent := by
    obtain ⟨output, last, hsent, houtput, hparting⟩ := h.sent
    refine ⟨output, last, by rw [setLane_sent, hsent], houtput, ?_⟩
    apply hparting.mono (setLane_farewell r l o)
    exact forall_setLane (P := fun o l ↦ (r.lane o).pump = .done → l.pump = .done) (fun _ ↦ id) hdone

/-- A session with nothing left to write closes a pipe. -/
theorem closePipe (h : Orderly todo status r) (htodo : r.todo = []) (o : Output) :
    Orderly todo status (r.closePipe o) := by
  obtain ⟨-, hdry, hload⟩ := h.steady o
  refine h.setLane rfl ⟨fun _ ↦ htodo, fun hdone ↦ ?_, hload⟩ id
  exact ⟨rfl, (hdry hdone).bytes⟩

/-- As long as something is left to write, no pipe is closed. -/
theorem isClosed_ne {w : Write} {rest : List Write} (h : Orderly todo status r)
    (htodo : r.todo = w :: rest) (o : Output) : (r.lane o).pipe.isClosed ≠ true := by
  intro hclosed
  rw [(h.steady o).closed hclosed] at htodo
  cases htodo

/-- A write that is dropped was through. -/
theorem drop {w : Write} {rest : List Write} (h : Orderly todo status r)
    (htodo : r.todo = w :: rest)
    (hw : w.bytes = [] ∨ (r.lane w.output).pipe.isClosed = true) :
    Orderly todo status (r.withTodo rest) := by
  have hempty : w.bytes = [] := hw.resolve_right (h.isClosed_ne htodo _)
  refine ⟨h.exitStatus, fun o ↦ ?_, fun o ↦ ?_, h.sent⟩
  · rw [← h.conserved o, htodo, written_cons, hempty, ite_self, List.nil_append]
    rfl
  · obtain ⟨-, hdry, hload⟩ := h.steady o
    exact ⟨fun hclosed ↦ absurd hclosed (h.isClosed_ne htodo o), hdry, hload⟩

/-- The session writes: bytes go from what is left to write into the pipe. -/
theorem write {w : Write} {rest : List Write} {n : Nat} {pipe : Pipe} (h : Orderly todo status r)
    (htodo : r.todo = w :: rest)
    (hwrite : (r.lane w.output).pipe.write w.bytes = (.ready (.ok n), pipe)) :
    Orderly todo status ((r.setLane ⟨pipe, (r.lane w.output).pump⟩ w.output).withTodo
      (⟨w.output, w.bytes.drop n⟩ :: rest)) := by
  obtain ⟨hopen, rfl⟩ := Pipe.write_ok hwrite
  refine ⟨(setLane_exitStatus ..).trans h.exitStatus, fun o ↦ ?_, fun o ↦ ?_, ?_⟩
  · change carried o (r.setLane _ _).sent ++
      (((r.setLane _ _).lane o).content ++ written o (⟨w.output, _⟩ :: rest)) = _
    rw [setLane_sent, lane_setLane, ← h.conserved o, htodo, written_cons, written_cons]
    by_cases ho : o = w.output
    · subst ho
      simp [Lane.content, ← List.append_assoc (w.bytes.take n)]
    · simp [ho, Ne.symm ho]
  · change IsSteady _ ((r.setLane _ _).lane o)
    apply forall_setLane (P := fun _ ↦ IsSteady _)
    · intro o'
      obtain ⟨-, hdry, hload⟩ := h.steady o'
      exact ⟨fun habs ↦ absurd habs (h.isClosed_ne htodo o'), hdry, hload⟩
    · obtain ⟨-, hdry, hload⟩ := h.steady w.output
      refine ⟨fun habs ↦ ?_, fun hdone ↦ ?_, hload⟩
      · cases hopen.symm.trans habs
      · cases hopen.symm.trans (hdry hdone).isClosed
  · obtain ⟨output, last, hsent, houtput, hparting⟩ := h.sent
    refine ⟨output, last, (setLane_sent ..).trans hsent, houtput, ?_⟩
    apply hparting.mono (setLane_farewell ..)
    exact forall_setLane (P := fun o l ↦ (r.lane o).pump = .done → l.pump = .done) (fun _ ↦ id) id

/-- A pump reads: bytes go from the pipe into its hand. -/
theorem read {bytes : List UInt8} {pipe : Pipe} (h : Orderly todo status r)
    (hpump : (r.lane o).pump = .reading)
    (hread : (r.lane o).pipe.read chunk = (.ready bytes, pipe)) (hbytes : bytes ≠ []) :
    Orderly todo status (r.setLane ⟨pipe, .sending bytes⟩ o) := by
  obtain ⟨hsplit, hstays, -⟩ := Pipe.read_ready hread
  apply h.setLane
  · rw [Lane.content, Lane.content, hpump, hsplit]
    rfl
  · refine ⟨fun hclosed ↦ (h.steady o).closed (hstays.symm.trans hclosed), nofun, ?_⟩
    rintro _ ⟨⟩
    refine ⟨hbytes, ?_⟩
    rw [(Pipe.eq_of_read hread).1]
    exact List.length_take_le _ _
  · intro hdone
    cases hpump.symm.trans hdone

/-- A pump that reads nothing is done, with a pipe that is closed and empty. -/
theorem finish {pipe : Pipe} (h : Orderly todo status r) (hpump : (r.lane o).pump = .reading)
    (hread : (r.lane o).pipe.read chunk = (.ready [], pipe)) :
    Orderly todo status (r.setLane ⟨pipe, .done⟩ o) := by
  obtain ⟨hsplit, hstays, hdry⟩ := Pipe.read_ready hread
  apply h.setLane
  · rw [Lane.content, Lane.content, hpump, hsplit]
    rfl
  · refine ⟨fun hclosed ↦ (h.steady o).closed (hstays.symm.trans hclosed), fun _ ↦ ?_, nofun⟩
    exact ((hdry rfl (by decide)).read hread).2
  · exact fun _ ↦ rfl

/-- A pump sends what it has in hand; this comes before the last messages. -/
theorem deliver {bytes : List UInt8} (h : Orderly todo status r)
    (hpump : (r.lane o).pump = .sending bytes) :
    Orderly todo status ((r.setLane ⟨(r.lane o).pipe, .reading⟩ o).put (o.message bytes)) := by
  refine ⟨(setLane_exitStatus ..).trans h.exitStatus, fun o' ↦ ?_, fun o' ↦ ?_, ?_⟩
  · change carried o' ((r.setLane _ _).sent ++ [_]) ++
      (((r.setLane _ _).lane o').content ++ written o' (r.setLane _ _).todo) = _
    rw [setLane_sent, setLane_todo, lane_setLane, ← h.conserved o', carried_append,
      carried_singleton, payload_message]
    by_cases ho : o' = o
    · subst ho
      simp [Lane.content, Pump.held, hpump]
    · simp [ho, Ne.symm ho]
  · change IsSteady (r.setLane _ _).todo ((r.setLane _ _).lane o')
    rw [setLane_todo]
    apply forall_setLane (P := fun _ ↦ IsSteady _) h.steady
    exact ⟨(h.steady o).closed, nofun, nofun⟩
  · obtain ⟨output, last, hsent, houtput, ⟨hnone, rfl⟩ | ⟨rest, -, -, hdone⟩⟩ := h.sent
    · have hload := (h.steady o).load bytes hpump
      refine ⟨output ++ [o.message bytes], [], by simp [put, hsent], fun m hm ↦ ?_,
        .inl ⟨(setLane_farewell ..).trans hnone, rfl⟩⟩
      rcases List.mem_append.1 hm with hm | hm
      · exact houtput m hm
      · exact ⟨o, bytes, List.mem_singleton.1 hm, hload⟩
    · cases hpump.symm.trans (hdone o)

/-- Once everything else is done, the last messages are due. -/
theorem part (h : Orderly todo status r) (hfarewell : r.farewell = none)
    (hdone : ∀ o, (r.lane o).pump = .done) :
    Orderly todo status { r with farewell := some (lastWords r.exitStatus) } := by
  obtain ⟨output, last, hsent, houtput, ⟨-, rfl⟩ | ⟨rest, hrest, -⟩⟩ := h.sent
  · refine ⟨h.exitStatus, h.conserved, h.steady, output, [], hsent, houtput, .inr ?_⟩
    exact ⟨_, rfl, by rw [h.exitStatus]; rfl, hdone⟩
  · cases hfarewell.symm.trans hrest

/-- The next of the last messages is sent. -/
theorem say {m : Message} {rest : List Message} (h : Orderly todo status r)
    (hfarewell : r.farewell = some (m :: rest)) :
    Orderly todo status ({ r with farewell := some rest }.put m) := by
  obtain ⟨output, last, hsent, houtput, ⟨hnone, -⟩ | ⟨rest', hrest, hwords, hdone⟩⟩ := h.sent
  · cases hfarewell.symm.trans hnone
  · obtain rfl := Option.some.inj (hfarewell.symm.trans hrest)
    have hm : m ∈ lastWords status := by
      rw [← hwords]
      exact List.mem_append_right _ List.mem_cons_self
    refine ⟨h.exitStatus, fun o ↦ ?_, h.steady, output, last ++ [m], ?_, houtput, .inr ?_⟩
    · change carried o (r.sent ++ [m]) ++ _ = _
      rw [carried_append, carried_singleton, payload_of_mem_lastWords hm, List.append_nil]
      exact h.conserved o
    · exact (congrArg (· ++ [m]) hsent).trans (List.append_assoc ..)
    · exact ⟨rest, rfl, by rw [List.append_assoc, List.singleton_append, hwords], hdone⟩

/-- A turn on a channel that takes messages keeps everything in order. -/
theorem takes (h : Orderly todo status r) (ht : Takes r p r') (hopen : r'.isOpen = true) :
    Orderly todo status r' := by
  cases ht with
  | dropped _ htodo hw => exact h.drop htodo hw
  | wrote _ htodo _ hwrite => exact h.write htodo hwrite
  | closed _ htodo => exact h.closePipe htodo _
  | ended _ htodo =>
    have hstdout := h.closePipe htodo .stdout
    have hboth := hstdout.closePipe htodo .stderr
    exact ⟨hboth.exitStatus, hboth.conserved, hboth.steady, hboth.sent⟩
  | read hpump hread hbytes => exact h.read hpump hread hbytes
  | finished hpump hread => exact h.finish hpump hread
  | sent hpump => exact h.deliver hpump
  | gaveUp _ hgone => cases hgone.symm.trans ((setLane_isOpen ..).symm.trans hopen)
  | parted hfarewell _ hdone => exact h.part hfarewell hdone
  | said hfarewell => exact h.say hfarewell
  | unheard _ hgone => cases hgone.symm.trans hopen
  | hungUp => cases hopen

/-- With both pumps done, everything was sent. -/
theorem carried_sent (h : Orderly todo status r) (hdone : ∀ o, (r.lane o).pump = .done)
    (o : Output) : carried o r.sent = written o todo := by
  obtain ⟨hclosed, hdry, -⟩ := h.steady o
  have hpipe := hdry (hdone o)
  rw [← h.conserved o, hclosed hpipe.isClosed, Lane.content, hdone o, hpipe.bytes]
  exact (List.append_nil _).symm

end Orderly

/-! ## When the channel takes no more -/

theorem Takes.isOpen_of_isOpen (ht : Takes r p r') (hopen : r'.isOpen = true) :
    r.isOpen = true := by
  cases ht with
  | dropped | ended | parted | said | unheard => exact hopen
  | wrote | closed | read | finished | sent | gaveUp => exact (setLane_isOpen ..).symm.trans hopen
  | hungUp hbefore => exact hbefore

/-- Nothing is sent on a channel that takes no messages. -/
theorem Takes.sent_eq (ht : Takes r p r') (hclosed : r'.isOpen = false) : r'.sent = r.sent := by
  cases ht with
  | dropped | ended | parted | unheard | hungUp => rfl
  | wrote | closed | read | finished | gaveUp => exact setLane_sent ..
  | sent _ hopen => cases hclosed.symm.trans ((setLane_isOpen ..).trans hopen)
  | said _ hopen => cases hclosed.symm.trans hopen

/-- What was sent is always what some orderly relay had sent, namely the relay itself as long as its
channel takes messages. -/
theorem exists_orderly (todo : List Write) (status : Option Nat) (turns : List RelayParty) :
    ∃ r₀, Orderly todo status r₀ ∧ ((ofSession todo status).run turns).sent = r₀.sent ∧
      (((ofSession todo status).run turns).isOpen = true →
        (ofSession todo status).run turns = r₀) := by
  apply run_induct (P := fun r ↦ ∃ r₀, Orderly todo status r₀ ∧ r.sent = r₀.sent ∧
    (r.isOpen = true → r = r₀))
  · exact ⟨_, .start todo status, rfl, fun _ ↦ rfl⟩
  · rintro r p r' ⟨r₀, h, hsent, hsame⟩ ht
    cases hopen : r'.isOpen with
    | true =>
      obtain rfl := hsame (ht.isOpen_of_isOpen hopen)
      exact ⟨r', h.takes ht hopen, rfl, fun _ ↦ rfl⟩
    | false => exact ⟨r₀, h, (ht.sent_eq hopen).trans hsent, nofun⟩

/-! ## Who can go on -/

/-- How an output moves on: its pipe keeps its capacity and is not opened again, and a pump that is
done stays so and leaves its pipe closed. -/
structure Advances (l l' : Lane) : Prop where
  capacity : l'.pipe.capacity = l.pipe.capacity
  isClosed : l.pipe.isClosed = true → l'.pipe.isClosed = true
  done : l.pump = .done → l'.pump = .done
  stopped : l'.pump = .done → l.pump = .done ∨ l'.pipe.isClosed = true

theorem Advances.refl (l : Lane) : Advances l l := ⟨rfl, id, id, .inl⟩

theorem advances_setLane (h : Advances (r.lane o) l) (o' : Output) :
    Advances (r.lane o') ((r.setLane l o).lane o') := by
  exact forall_setLane (P := fun o ↦ Advances (r.lane o)) (fun _ ↦ .refl _) h o'

theorem advances_closePipe (r : Relay) (o o' : Output) :
    Advances (r.lane o') ((r.closePipe o).lane o') := by
  apply advances_setLane
  exact ⟨rfl, fun _ ↦ rfl, id, .inl⟩

theorem Takes.advances (ht : Takes r p r') (o : Output) : Advances (r.lane o) (r'.lane o) := by
  cases ht with
  | dropped | parted | said | unheard | hungUp => exact .refl _
  | @wrote w _ _ _ _ _ _ hwrite =>
    obtain ⟨-, rfl⟩ := Pipe.write_ok hwrite
    apply advances_setLane (o := w.output)
    exact ⟨rfl, id, id, .inl⟩
  | closed => exact advances_closePipe r _ o
  | ended => cases o <;> exact ⟨rfl, fun _ ↦ rfl, id, .inl⟩
  | read hpump hread =>
    obtain ⟨-, rfl⟩ := Pipe.eq_of_read hread
    apply advances_setLane
    exact ⟨rfl, id, fun hdone ↦ (nomatch hpump.symm.trans hdone), nofun⟩
  | finished hpump hread =>
    obtain ⟨-, -, hdry⟩ := Pipe.read_ready hread
    obtain ⟨-, rfl⟩ := Pipe.eq_of_read hread
    apply advances_setLane
    exact ⟨rfl, id, fun _ ↦ rfl, fun _ ↦ .inr (hdry rfl (by decide)).isClosed⟩
  | @sent o' _ hpump =>
    apply advances_setLane (o := o')
    exact ⟨rfl, id, fun hdone ↦ (nomatch hpump.symm.trans hdone), nofun⟩
  | gaveUp =>
    apply advances_setLane
    exact ⟨rfl, fun _ ↦ rfl, fun _ ↦ rfl, fun _ ↦ .inr rfl⟩

/-- What holds of a relay, whatever its channel does. -/
structure Sound (r : Relay) : Prop where
  hasRoom : ∀ o, 0 < (r.lane o).pipe.capacity
  stopped : ∀ o, (r.lane o).pump = .done → (r.lane o).pipe.isClosed = true
  ended : r.hasEnded = true → ∀ o, (r.lane o).pipe.isClosed = true
  parted : r.farewell ≠ none → r.hasEnded = true ∧ ∀ o, (r.lane o).pump = .done

theorem Takes.hasEnded (ht : Takes r p r') :
    (r.hasEnded = true → r'.hasEnded = true) ∧
      (r'.hasEnded = true → r.hasEnded = true ∨ ∀ o, (r'.lane o).pipe.isClosed = true) := by
  cases ht with
  | dropped | parted | said | unheard | hungUp => exact ⟨id, .inl⟩
  | wrote | closed | read | finished | sent | gaveUp =>
    exact ⟨(setLane_hasEnded ..).trans, fun h ↦ .inl ((setLane_hasEnded ..).symm.trans h)⟩
  | ended => exact ⟨fun _ ↦ rfl, fun _ ↦ .inr fun o ↦ by cases o <;> rfl⟩

theorem Takes.farewell (ht : Takes r p r') (h : r'.farewell ≠ none) :
    r.farewell ≠ none ∨ r.hasEnded = true ∧ ∀ o, (r.lane o).pump = .done := by
  cases ht with
  | dropped | ended | hungUp => exact .inl h
  | wrote | closed | read | finished | sent | gaveUp =>
    exact .inl fun hnone ↦ h ((setLane_farewell ..).trans hnone)
  | parted _ hended hdone => exact .inr ⟨hended, hdone⟩
  | said hfarewell | unheard hfarewell => exact .inl (by simp [hfarewell])

namespace Sound

theorem start (todo : List Write) (status : Option Nat) : Sound (ofSession todo status) where
  hasRoom o := by cases o <;> exact Nat.zero_lt_succ _
  stopped o h := by cases o <;> cases h
  ended h := by cases h
  parted h := absurd rfl h

theorem takes (h : Sound r) (ht : Takes r p r') : Sound r' where
  hasRoom o := by
    rw [(ht.advances o).capacity]
    exact h.hasRoom o
  stopped o hdone := by
    rcases (ht.advances o).stopped hdone with hbefore | hclosed
    · exact (ht.advances o).isClosed (h.stopped o hbefore)
    · exact hclosed
  ended hended := by
    rcases ht.hasEnded.2 hended with hbefore | hclosed
    · exact fun o ↦ (ht.advances o).isClosed (h.ended hbefore o)
    · exact hclosed
  parted hfarewell := by
    obtain ⟨hended, hdone⟩ := (ht.farewell hfarewell).elim h.parted id
    exact ⟨ht.hasEnded.1 hended, fun o ↦ (ht.advances o).done (hdone o)⟩

theorem run (h : Sound r) (turns : List RelayParty) : Sound (r.run turns) :=
  run_induct h (fun _ _ _ ↦ takes) turns

end Sound

/-- A pump that is not done goes on as long as its pipe holds something, and when it is closed. -/
theorem exists_stepPump (hpump : (r.lane o).pump ≠ .done)
    (hpipe : (r.lane o).pipe.isClosed = true ∨ (r.lane o).pipe.bytes ≠ []) :
    ∃ r', r.stepPump o = some r' := by
  unfold stepPump
  split
  · next hdone => exact absurd hdone hpump
  · split
    · next hread =>
      obtain ⟨hopen, hempty⟩ := Pipe.read_pending hread
      rcases hpipe with hclosed | hbytes
      · cases hopen.symm.trans hclosed
      · exact absurd hempty hbytes
    · exact ⟨_, rfl⟩
    · exact ⟨_, rfl⟩
  · split <;> exact ⟨_, rfl⟩

/-- A session goes on unless the pipe that it writes to is full. -/
theorem exists_stepSession (hended : r.hasEnded = false) :
    (∃ r', r.stepSession = some r') ∨ ∃ o, (r.lane o).pipe.isClosed = false ∧
      (r.lane o).pipe.capacity ≤ (r.lane o).pipe.bytes.length := by
  unfold stepSession
  rw [hended, if_neg Bool.false_ne_true]
  split
  · split
    · exact .inl ⟨_, rfl⟩
    · split <;> exact .inl ⟨_, rfl⟩
  · next w rest _ =>
    split
    · exact .inl ⟨_, rfl⟩
    · split
      · next hwrite => exact .inr ⟨w.output, Pipe.write_pending hwrite⟩
      · exact .inl ⟨_, rfl⟩
      · exact .inl ⟨_, rfl⟩

/-- Whoever waits, waits for somebody who can go on: the session for a pump, a pump for the session,
and the farewell for all of them. -/
theorem exists_turn (h : Sound r) (hover : r.isOver = false) :
    ∃ p r', p ≠ .client ∧ r.step p = some r' := by
  cases hfarewell : r.farewell with
  | some rest =>
    cases rest with
    | nil => simp [isOver, hfarewell] at hover
    | cons m rest => exact ⟨.farewell, _, nofun, by rw [step, stepFarewell, hfarewell]⟩
  | none =>
    cases hended : r.hasEnded with
    | false =>
      rcases exists_stepSession hended with ⟨r', hstep⟩ | ⟨o, hopen, hfull⟩
      · exact ⟨.session, r', nofun, hstep⟩
      · have hpump : (r.lane o).pump ≠ .done := by
          intro hdone
          cases hopen.symm.trans (h.stopped o hdone)
        have hbytes : (r.lane o).pipe.bytes ≠ [] :=
          List.length_pos_iff.1 (Nat.lt_of_lt_of_le (h.hasRoom o) hfull)
        obtain ⟨r', hstep⟩ := exists_stepPump hpump (.inr hbytes)
        exact ⟨.pump o, r', nofun, hstep⟩
    | true =>
      by_cases hdone : ∃ o, (r.lane o).pump ≠ .done
      · obtain ⟨o, hpump⟩ := hdone
        obtain ⟨r', hstep⟩ := exists_stepPump hpump (.inl (h.ended hended o))
        exact ⟨.pump o, r', nofun, hstep⟩
      · have hstdout : r.stdout.pump = .done := by
          by_contra hne
          exact hdone ⟨.stdout, hne⟩
        have hstderr : r.stderr.pump = .done := by
          by_contra hne
          exact hdone ⟨.stderr, hne⟩
        exact ⟨.farewell, _, nofun, by
          rw [step, stepFarewell, hfarewell, hended, hstdout, hstderr]
          rfl⟩

/-! ## How long it goes on -/

/-- How many turns a pump may still take for what it has in hand and for its end. -/
def pumpLeft : Pump → Nat
  | .done => 0
  | .reading => 1
  | .sending _ => 2

/-- How many turns may still be taken for what is on its way: a byte is read and sent. -/
def laneLeft (l : Lane) : Nat :=
  pumpLeft l.pump + 2 * l.pipe.bytes.length + (!l.pipe.isClosed).toNat

/-- How many turns may still be taken for what is to be written: a byte is written, read and
sent. -/
def todoLeft (todo : List Write) : Nat := (todo.map fun w ↦ 3 * w.bytes.length + 1).sum

/-- How many turns may still be taken for the last messages. -/
def farewellLeft : Option (List Message) → Nat
  | none => 4
  | some rest => rest.length

/-- How many turns may still be taken. -/
def left (r : Relay) : Nat :=
  todoLeft r.todo + (laneLeft r.stdout + laneLeft r.stderr) + (!r.hasEnded).toNat +
    farewellLeft r.farewell + r.isOpen.toNat

theorem todoLeft_cons (w : Write) (rest : List Write) :
    todoLeft (w :: rest) = 3 * w.bytes.length + 1 + todoLeft rest := by
  simp [todoLeft]

/-- An output that moves on changes what is left by what it has left itself. -/
theorem left_setLane (r : Relay) (l : Lane) (o : Output) :
    (r.setLane l o).left + laneLeft (r.lane o) = r.left + laneLeft l := by
  cases o
  · change left { r with stdout := l } + laneLeft r.stdout = _
    simp only [left]
    omega
  · change left { r with stderr := l } + laneLeft r.stderr = _
    simp only [left]
    omega

theorem left_withTodo (r : Relay) (todo : List Write) :
    (r.withTodo todo).left + todoLeft r.todo = r.left + todoLeft todo := by
  simp only [left, withTodo]
  omega

@[simp] theorem left_put (r : Relay) (m : Message) : (r.put m).left = r.left := rfl

theorem left_closePipe (r : Relay) (o : Output) :
    (r.closePipe o).left + (!(r.lane o).pipe.isClosed).toNat = r.left := by
  have hlane := left_setLane r ⟨(r.lane o).pipe.close, (r.lane o).pump⟩ o
  simp only [laneLeft, Pipe.close, Bool.not_true, Bool.toNat_false] at hlane
  rw [closePipe, Pipe.close]
  omega

theorem left_endSession (hended : r.hasEnded = false) : r.endSession.left < r.left := by
  have hstdout := left_closePipe r .stdout
  have hstderr := left_closePipe (r.closePipe .stdout) .stderr
  have hend : r.endSession.left + 1 = ((r.closePipe .stdout).closePipe .stderr).left := by
    have hbefore : ((r.closePipe .stdout).closePipe .stderr).hasEnded = false := hended
    simp only [left, endSession, hbefore, Bool.not_true, Bool.not_false, Bool.toNat_true,
      Bool.toNat_false]
    omega
  omega

/-- Every turn leaves less to do. -/
theorem Takes.left_lt (ht : Takes r p r') : r'.left < r.left := by
  cases ht with
  | @dropped w rest _ htodo =>
    have htodos := left_withTodo r rest
    rw [htodo, todoLeft_cons] at htodos
    omega
  | @wrote w rest n pipe _ htodo hw hwrite =>
    -- each byte that was written is still to be read and sent
    obtain ⟨hpos, hle⟩ := Pipe.write_pos hwrite hw
    have hlane := left_setLane r ⟨pipe, (r.lane w.output).pump⟩ w.output
    have htodos := left_withTodo (r.setLane ⟨pipe, (r.lane w.output).pump⟩ w.output)
      (⟨w.output, w.bytes.drop n⟩ :: rest)
    obtain ⟨-, rfl⟩ := Pipe.write_ok hwrite
    simp only [setLane_todo, htodo, todoLeft_cons, List.length_drop] at htodos
    simp only [laneLeft, List.length_append, List.length_take, Nat.min_eq_left hle] at hlane
    omega
  | @closed o _ _ hopen =>
    have hclose := left_closePipe r o
    rw [hopen, Bool.not_false, Bool.toNat_true] at hclose
    omega
  | ended hended => exact left_endSession hended
  | @read o bytes pipe hpump hread hbytes =>
    obtain ⟨hsplit, hstays, -⟩ := Pipe.read_ready hread
    have hpos := List.length_pos_iff.2 hbytes
    have hlane := left_setLane r ⟨pipe, .sending bytes⟩ o
    simp only [laneLeft, pumpLeft, hpump, hsplit, hstays, List.length_append] at hlane
    omega
  | @finished o pipe hpump hread =>
    obtain ⟨hsplit, hstays, -⟩ := Pipe.read_ready hread
    have hlane := left_setLane r ⟨pipe, .done⟩ o
    simp only [laneLeft, pumpLeft, hpump, hsplit, hstays, List.length_append] at hlane
    omega
  | @sent o bytes hpump =>
    have hlane := left_setLane r ⟨(r.lane o).pipe, .reading⟩ o
    simp only [laneLeft, pumpLeft, hpump] at hlane
    rw [left_put]
    omega
  | @gaveUp o bytes hpump =>
    have hlane := left_setLane r ⟨(r.lane o).pipe.close, .done⟩ o
    simp only [laneLeft, pumpLeft, hpump, Pipe.close, Bool.not_true, Bool.toNat_false] at hlane
    rw [Pipe.close]
    omega
  | parted hfarewell =>
    simp only [left, hfarewell, farewellLeft, lastWords, List.length_cons, List.length_nil]
    omega
  | said hfarewell | unheard hfarewell =>
    simp only [left, put, hfarewell, farewellLeft, List.length_cons]
    omega
  | hungUp hopen =>
    simp only [left, hopen, Bool.toNat_true, Bool.toNat_false]
    omega

theorem run_append (r : Relay) (turns more : List RelayParty) :
    r.run (turns ++ more) = (r.run turns).run more := List.foldl_append

/-- Turns that change anything leave less to do. -/
theorem run_eq_or_left_lt (r : Relay) (turns : List RelayParty) :
    r.run turns = r ∨ (r.run turns).left < r.left := by
  induction turns generalizing r with
  | nil => exact .inl rfl
  | cons p turns ih =>
    have hrun : r.run (p :: turns) = ((r.step p).getD r).run turns := rfl
    rw [hrun]
    cases hstep : r.step p with
    | none => exact ih r
    | some r' =>
      have hless := (takes_of_step hstep).left_lt
      rw [Option.getD_some]
      rcases ih r' with heq | hmore
      · rw [heq]
        exact .inr hless
      · exact .inr (Nat.lt_trans hmore hless)

theorem left_run_le (r : Relay) (turns : List RelayParty) : (r.run turns).left ≤ r.left := by
  rcases run_eq_or_left_lt r turns with heq | hless
  · exact Nat.le_of_eq (congrArg left heq)
  · exact Nat.le_of_lt hless

/-- As long as a relay is not over, a turn of somebody other than the client changes something. -/
theorem exists_run_ne (h : Sound r) (hover : r.isOver = false) :
    ∃ p, p ≠ .client ∧ r.run [p] ≠ r := by
  obtain ⟨p, r', hp, hstep⟩ := exists_turn h hover
  refine ⟨p, hp, fun heq ↦ ?_⟩
  have hrun : r.run [p] = (r.step p).getD r := rfl
  rw [hstep, Option.getD_some, heq] at hrun
  exact absurd (takes_of_step hstep).left_lt (by rw [← hrun]; exact Nat.lt_irrefl _)

/-- Turns each of which changes something use up what is left. -/
theorem length_add_left_le {turns : List RelayParty}
    (h : ∀ n < turns.length, r.run (turns.take (n + 1)) ≠ r.run (turns.take n)) :
    turns.length + (r.run turns).left ≤ r.left := by
  induction turns generalizing r with
  | nil => exact Nat.le_of_eq (Nat.zero_add _)
  | cons p turns ih =>
    have hless := (run_eq_or_left_lt r [p]).resolve_left (h 0 (Nat.zero_lt_succ _))
    have hmore := @ih (r.run [p]) fun n hn ↦ h (n + 1) (Nat.succ_lt_succ hn)
    have hrun : r.run (p :: turns) = (r.run [p]).run turns := rfl
    rw [List.length_cons, hrun]
    omega

/-- A round in which everybody but the client gets a turn leaves less to do: whoever could go on at
its start still can, or somebody has gone on before. -/
theorem left_run_lt {round : List RelayParty} (h : Sound r) (hover : r.isOver = false)
    (hround : ∀ p, p ≠ .client → p ∈ round) : (r.run round).left < r.left := by
  obtain ⟨p, hp, hturn⟩ := exists_run_ne h hover
  obtain ⟨before, after, rfl⟩ := List.append_of_mem (hround p hp)
  rw [List.append_cons, run_append]
  refine Nat.lt_of_le_of_lt (left_run_le _ after) ?_
  rw [run_append]
  rcases run_eq_or_left_lt r before with heq | hless
  · rw [heq]
    exact (run_eq_or_left_lt r [p]).resolve_left hturn
  · exact Nat.lt_of_le_of_lt (left_run_le _ [p]) hless

/-! ## The order of the messages -/

/-- The last messages carry nothing of an output. -/
theorem carried_of_prefix {last : List Message} (h : last <+: lastWords status) (o : Output) :
    carried o last = [] := by
  apply List.flatMap_eq_nil_iff.2
  intro m hm
  exact payload_of_mem_lastWords (h.subset hm) o

/-- An orderly relay has sent loads with bytes of the outputs, and behind all of these the first of
the last messages. -/
theorem Orderly.sent_eq (h : Orderly todo status r) :
    ∃ output last, r.sent = output ++ last ∧ (∀ m ∈ output, IsLoad m) ∧ last <+: lastWords status ∧
      (∀ o, carried o output <+: written o todo) ∧
      (last ≠ [] → ∀ o, carried o output = written o todo) ∧
      (r.isOver = true → last = lastWords status ∧ ∀ o, carried o output = written o todo) := by
  obtain ⟨output, last, hsent, hloads, ⟨hnone, rfl⟩ | ⟨rest, hrest, hwords, hdone⟩⟩ := h.sent
  · rw [List.append_nil] at hsent
    refine ⟨output, [], by rw [hsent, List.append_nil], hloads, List.nil_prefix, fun o ↦ ?_,
      fun hne ↦ absurd rfl hne, fun hover ↦ ?_⟩
    · rw [← h.conserved o, hsent]
      exact List.prefix_append ..
    · simp [isOver, hnone] at hover
  · have hlast : last <+: lastWords status := ⟨rest, hwords⟩
    have hall (o : Output) : carried o output = written o todo := by
      rw [← h.carried_sent hdone o, hsent, carried_append, carried_of_prefix hlast, List.append_nil]
    refine ⟨output, last, hsent, hloads, hlast, fun o ↦ ?_, fun _ ↦ hall, fun hover ↦ ⟨?_, hall⟩⟩
    · exact hall o ▸ List.prefix_rfl
    · obtain rfl : rest = [] := by simpa [isOver, hrest] using hover
      rwa [List.append_nil] at hwords

/-- Once a relay is over, only the client can still do something. -/
theorem Takes.of_isOver (ht : Takes r p r') (h : Sound r) (hover : r.isOver = true) :
    r' = { r with isOpen := false } := by
  have hfarewell : r.farewell = some [] := by simpa [isOver] using hover
  obtain ⟨hended, hdone⟩ := h.parted (by rw [hfarewell]; exact Option.some_ne_none _)
  cases ht with
  | dropped hrunning | wrote hrunning | closed hrunning | ended hrunning =>
    cases hrunning.symm.trans hended
  | read hpump | finished hpump | sent hpump | gaveUp hpump => cases hpump.symm.trans (hdone _)
  | parted hnone => cases hnone.symm.trans hfarewell
  | said hmore | unheard hmore => cases hmore.symm.trans hfarewell
  | hungUp => rfl

/-- A relay that is over stays so and sends nothing more. -/
theorem run_of_isOver (h : Sound r) (hover : r.isOver = true) (turns : List RelayParty) :
    (r.run turns).isOver = true ∧ (r.run turns).sent = r.sent := by
  have hrun : Sound (r.run turns) ∧ (r.run turns).isOver = true ∧ (r.run turns).sent = r.sent := by
    apply run_induct (P := fun next ↦ Sound next ∧ next.isOver = true ∧ next.sent = r.sent)
    · exact ⟨h, hover, rfl⟩
    · rintro next p next' ⟨hsound, hnext, hsent⟩ ht
      refine ⟨hsound.takes ht, ?_⟩
      rw [ht.of_isOver hsound hnext]
      exact ⟨hnext, hsent⟩
  exact hrun.2

/-- A relay is over after as many rounds as there are turns left. -/
theorem isOver_run_flatten {rounds : List (List RelayParty)} (h : Sound r)
    (hrounds : ∀ round ∈ rounds, ∀ p, p ≠ .client → p ∈ round) (hleft : r.left ≤ rounds.length) :
    (r.run rounds.flatten).isOver = true := by
  induction rounds generalizing r with
  | nil =>
    by_contra hover
    obtain ⟨p, -, hturn⟩ := exists_run_ne h (Bool.eq_false_iff.2 hover)
    have hless := (run_eq_or_left_lt r [p]).resolve_left hturn
    exact Nat.not_lt_zero _ (Nat.lt_of_lt_of_le hless hleft)
  | cons round rounds ih =>
    rw [List.forall_mem_cons] at hrounds
    cases hover : r.isOver with
    | true => exact (run_of_isOver h hover _).1
    | false =>
      have hless := Nat.lt_of_lt_of_le (left_run_lt h hover hrounds.1) hleft
      rw [List.flatten_cons, run_append]
      exact ih (h.run round) hrounds.2 (Nat.le_of_lt_succ hless)

/-- **What a session leaves on its channel.**  Whatever a session writes, and in whatever order it,
the pumps and the client take turns over their pipes:

* what was sent are loads with bytes of the two outputs, each output in its own messages and in the
  order in which it was written, and then the first of the exit status, the end and the close; none
  of these comes before all of the output;
* on a channel that took every message, a relay that is over has sent all of both outputs, and then
  its exit status, the end and the close, once each;
* then it sends nothing more;
* a relay that is not over goes on without its client;
* it does not go on for ever: no order of turns that each change something is longer than the bytes
  allow, and after as many rounds in which everybody but the client gets a turn, in any order and as
  often as they like, the relay is over. -/
theorem run_delivers (todo : List Write) (status : Option Nat) (turns : List RelayParty) :
    let r := (ofSession todo status).run turns
    (∃ output last, r.sent = output ++ last ∧ (∀ m ∈ output, IsLoad m) ∧
      last <+: [.exitStatus (status.getD 0), .eof, .close] ∧
      (∀ o, carried o output <+: written o todo) ∧
      (last ≠ [] → ∀ o, carried o output = written o todo)) ∧
    (r.isOver = true → r.isOpen = true → ∃ output,
      r.sent = output ++ [.exitStatus (status.getD 0), .eof, .close] ∧ (∀ m ∈ output, IsLoad m) ∧
      ∀ o, carried o output = written o todo) ∧
    (r.isOver = true → ∀ more, (r.run more).sent = r.sent) ∧
    (r.isOver = false → ∃ p, p ≠ .client ∧ r.run [p] ≠ r) ∧
    let bound := (todo.map fun w ↦ 3 * w.bytes.length + 1).sum + 10
    (∀ order : List RelayParty, (∀ n < order.length,
        (ofSession todo status).run (order.take (n + 1)) ≠
          (ofSession todo status).run (order.take n)) → order.length ≤ bound) ∧
    ∀ rounds : List (List RelayParty), (∀ round ∈ rounds, ∀ p, p ≠ .client → p ∈ round) →
      bound ≤ rounds.length → (r.run rounds.flatten).isOver = true := by
  intro r
  obtain ⟨r₀, horderly, hsent, hsame⟩ := exists_orderly todo status turns
  have hsound : Sound r := (Sound.start todo status).run turns
  obtain ⟨output, last, heq, hloads, hlast, hpart, hwhole, hend⟩ := horderly.sent_eq
  refine ⟨⟨output, last, hsent.trans heq, hloads, hlast, hpart, hwhole⟩, fun hover hopen ↦ ?_,
    fun hover more ↦ (run_of_isOver hsound hover more).2, exists_run_ne hsound, ?_, ?_⟩
  · obtain ⟨rfl, hall⟩ := hend (hsame hopen ▸ hover)
    exact ⟨output, hsent.trans heq, hloads, hall⟩
  · intro order horder
    exact Nat.le_of_add_right_le (length_add_left_le horder)
  · intro rounds hrounds hbound
    exact isOver_run_flatten hsound hrounds (Nat.le_trans (left_run_le _ turns) hbound)

/-- The session ends before its output was sent, and the output still comes first. -/
example :
    ((ofSession [⟨.stdout, [104, 105]⟩] (some 3)).run
      [.session, .session, .session, .session, .session, .pump .stdout, .farewell, .pump .stdout,
        .pump .stdout, .pump .stderr, .farewell, .farewell, .farewell, .farewell]).sent =
      [.data [104, 105], .exitStatus 3, .eof, .close] := by
  decide

end Relay

end GitGateway.Ssh
