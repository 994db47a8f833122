import GitGateway.Proofs.Transcripts
import GitGateway.Ssh.Connection

/-!
# Sessions of a connection

A connection takes requests one after the other, on any channels and in any order.  Its **log** says
of each request what was asked for it and what it led to.  What a channel is at some moment is told
by its **life**: the requests on it since it was last opened or closed.  Its variables are those
that were set in its life, it has a session if one was started in its life, and that session takes
input from then on until the client or the session is through with it.  Whom the connection belongs
to is told by the last attempt that was accepted.

So the state of a connection is told by its log (`Connection.IsTold`).  Each request keeps that up
(`Connection.IsTold.step`), and what a request leads to can then be read off the log before it.  An
end of the input that comes before the session does is not remembered: the session that is started
later reads what comes after its start.
-/

namespace GitGateway.Ssh

open Program (Runs)

/-! ## Requests -/

namespace Request

/-- The channel of a request. -/
def channel? : Request → Option Nat
  | .proveKey _ _ | .withoutKey _ => none
  | .openChannel n | .setVariable n _ _ | .terminal n | .exec n _ | .shell n | .data n _ _ | .eof n
  | .closeChannel n => some n

/-- The user and the key of an attempt to be let in. -/
def attempt? : Request → Option (String × Option ClientKey)
  | .proveKey user key => some (user, some key)
  | .withoutKey user => some (user, none)
  | _ => none

/-- The channel and the command of a request for a session. -/
def start? : Request → Option (Nat × List String)
  | .exec n line => some (n, Git.CommandLine.split (Text.Utf8.decodeLossy line))
  | .shell n => some (n, [])
  | _ => none

/-- Whether a request is for a session. -/
def starts (r : Request) : Bool := r.start?.isSome

/-- Whether a request is the last one of a channel's life, or comes before the first. -/
def bounds (r : Request) (n : Nat) : Bool := r == .openChannel n || r == .closeChannel n

/-- The variable that a request sets. -/
def assignment? : Request → Option (String × String)
  | .setVariable _ name value => some (name, value)
  | _ => none

theorem of_start? {r : Request} {n : Nat} {command : List String}
    (hr : r.start? = some (n, command)) : r.attempt? = none ∧ r.channel? = some n ∧
      r.bounds n = false ∧ r.starts = true := by
  cases r <;> cases hr <;> exact ⟨rfl, rfl, rfl, rfl⟩

/-- Whether no input follows: the client is through with it, or the session is. -/
def stops : Request → Bool
  | .eof _ | .data _ _ (.closed _) => true
  | _ => false

/-- Whether the connection breaks off over input on a channel, if its session takes any. -/
def breaks (r : Request) (n : Nat) : Prop :=
  ∃ bytes taken, r = .data n bytes (.stalled taken) ∨ r = .data n bytes (.cancelled taken)

/-- The input that a session took. -/
def taken : Request → List UInt8
  | .data _ bytes fed => fed.part bytes
  | _ => []

end Request

/-- A request, what was asked for it, and what it led to. -/
structure Entry where
  request : Request
  asked : List Call
  effects : List Effect

namespace Entry

/-- The user and the key of an attempt that was accepted. -/
def admits (e : Entry) : Option (String × Option ClientKey) :=
  if .accept ∈ e.effects then e.request.attempt? else none

/-- The input that a channel's session gets by an effect. -/
def inputOf (n : Nat) : Effect → List UInt8
  | .input m bytes => if m = n then bytes else []
  | _ => []

/-- The input that a channel's session gets. -/
def input (e : Entry) (n : Nat) : List UInt8 := e.effects.flatMap (inputOf n)

/-- Whether the connection breaks off at a request. -/
def breaksOff (e : Entry) : Bool := e.effects.any Effect.isBreak

end Entry

/-- The life of a channel behind a request. -/
def lifeStep (n : Nat) (life : List Request) (e : Entry) : List Request :=
  if e.request.bounds n then []
  else if e.request.channel? = some n then life ++ [e.request]
  else life

/-- The requests on a channel since it was last opened or closed. -/
def life (n : Nat) (log : List Entry) : List Request := log.foldl (lifeStep n) []

/-- Whether a channel with such a life has a session. -/
def hasSession (life : List Request) : Bool := life.any Request.starts

/-- Whether a channel with such a life has a session that takes input. -/
def listens (life : List Request) : Bool :=
  match life.dropWhile fun r ↦ !r.starts with
  | [] => false
  | _ :: later => !later.any Request.stops

/-- Whom a connection belongs to: the user and the key of the last attempt that was accepted. -/
def admitted? (log : List Entry) : Option (String × Option ClientKey) :=
  (log.filterMap Entry.admits).getLast?

/-- What comes of a log before a channel is next opened or closed. -/
def span (n : Nat) (after : List Entry) : List Entry :=
  after.takeWhile fun e ↦ !e.request.bounds n

/-- The requests on a channel. -/
def requestsOn (n : Nat) (log : List Entry) : List Request :=
  (log.map Entry.request).filter fun r ↦ r.channel? == some n

/-- What a session gets of the requests on its channel: the input that it took, up to the first
request that stops it, and what it took of that one. -/
def heard : List Request → List UInt8
  | [] => []
  | r :: rest => r.taken ++ if r.stops then [] else heard rest

section Life

variable {n : Nat} {log : List Entry} {e : Entry} {l : List Request} {r : Request}

theorem life_append : life n (log ++ [e]) = lifeStep n (life n log) e := by
  rw [life, List.foldl_append]
  rfl

theorem admitted?_append : admitted? (log ++ [e]) = e.admits.or (admitted? log) := by
  unfold admitted?
  rw [List.filterMap_append, List.getLast?_append]
  cases h : e.admits <;> simp [h]

theorem hasSession_append : hasSession (l ++ [r]) = (hasSession l || r.starts) := by
  simp [hasSession]

theorem listens_of_not_hasSession (h : hasSession l = false) : listens l = false := by
  induction l with
  | nil => rfl
  | cons r l ih =>
    obtain ⟨hr, hl⟩ : r.starts = false ∧ hasSession l = false := by simpa [hasSession] using h
    simpa [listens, hr] using ih hl

/-- A session takes input from its start until the first request that stops it. -/
theorem listens_append :
    listens (l ++ [r]) = if hasSession l then listens l && !r.stops else r.starts := by
  induction l with
  | nil => cases h : r.starts <;> simp [listens, hasSession, h]
  | cons r' l ih =>
    cases h : r'.starts with
    | true => simp [listens, hasSession, h]
    | false => simpa [listens, hasSession, h] using ih

end Life

/-! ## Channels -/

namespace Channel

/-- What a request makes of the channel it is about. -/
def next (ch : Channel) : Request → Channel
  | .openChannel _ | .closeChannel _ => {}
  | .setVariable _ name value => { ch with env := ch.env ++ [(name, value)] }
  | .exec _ _ | .shell _ =>
    if ch.isStarted then ch else { ch with isStarted := true, takesInput := true }
  | .eof _ | .data _ _ (.closed _) => { ch with takesInput := false }
  | _ => ch

/-- The channel that a life makes. -/
def ofLife (l : List Request) : Channel where
  env := l.filterMap Request.assignment?
  isStarted := hasSession l
  takesInput := listens l

theorem ofLife_append (l : List Request) {r : Request} {n : Nat} (hr : r.channel? = some n)
    (hbounds : r.bounds n = false) : ofLife (l ++ [r]) = (ofLife l).next r := by
  have hlistens : hasSession l = false → listens l = false := listens_of_not_hasSession
  unfold ofLife
  rw [List.filterMap_append, hasSession_append, listens_append]
  cases r with
  | proveKey | withoutKey => cases hr
  | openChannel m | closeChannel m =>
    obtain rfl : m = n := by simpa [Request.channel?] using hr
    simp [Request.bounds] at hbounds
  | setVariable | terminal | exec | shell | eof =>
    cases hl : hasSession l <;>
      simp [next, Request.assignment?, Request.starts, Request.start?, Request.stops, hlistens, hl]
  | data m bytes fed =>
    cases hl : hasSession l <;> cases fed <;>
      simp [next, Request.assignment?, Request.starts, Request.start?, Request.stops, hlistens, hl]

/-- A life says of its requests, one after the other, what becomes of the channel. -/
theorem ofLife_lifeStep (n : Nat) (l : List Request) (e : Entry) :
    ofLife (lifeStep n l e) =
      if e.request.channel? = some n then (ofLife l).next e.request else ofLife l := by
  unfold lifeStep
  cases hbounds : e.request.bounds n with
  | true =>
    have hopens : e.request = .openChannel n ∨ e.request = .closeChannel n := by
      simpa [Request.bounds] using hbounds
    rcases hopens with h | h <;> simp [h, Request.channel?, next, ofLife, hasSession, listens]
  | false =>
    by_cases hr : e.request.channel? = some n
    · simp [hr, ofLife_append l hr hbounds]
    · simp [hr]

end Channel

namespace Connection

variable {c c' : Connection} {n m : Nat} {ch : Channel}

/-- A channel that was taken away is as one that nobody opened. -/
theorem channel_dropChannel :
    (c.dropChannel n).channel m = if m = n then {} else c.channel m := by
  unfold channel dropChannel
  dsimp only
  induction c.channels with
  | nil => simp
  | cons p channels ih =>
    obtain ⟨k, ch⟩ := p
    have hbeq : (m == k) = decide (m = k) := rfl
    by_cases hk : k = n
    · subst hk
      rw [List.filter_cons_of_neg (by simp), ih, List.lookup_cons, hbeq]
      by_cases hm : m = k <;> simp [hm]
    · rw [List.filter_cons_of_pos (by simpa using hk), List.lookup_cons, List.lookup_cons, hbeq]
      by_cases hm : m = k
      · subst hm
        simp [hk]
      · simpa [hm] using ih

theorem channel_setChannel :
    (c.setChannel n ch).channel m = if m = n then ch else c.channel m := by
  have hbeq : (m == n) = decide (m = n) := rfl
  have hdrop := channel_dropChannel (c := c) (n := n) (m := m)
  unfold channel at hdrop
  rw [channel, setChannel, List.lookup_cons, hbeq]
  by_cases hm : m = n
  · simp [hm]
  · simpa [hm, channel] using hdrop

/-- A channel takes input only if it is there. -/
theorem any_takesInput : ((c.channels.lookup n).any fun ch ↦ ch.takesInput) =
    (c.channel n).takesInput := by
  cases h : c.channels.lookup n <;> simp [channel, h]

/-- The end of the input leaves everything else about a channel alone. -/
theorem channel_endInput : (c.endInput n).1.channel m =
    if m = n then { c.channel n with takesInput := false } else c.channel m := by
  unfold endInput
  cases h : c.channels.lookup n with
  | none =>
    by_cases hm : m = n
    · subst hm
      simp [channel, h]
    · simp [hm]
  | some ch =>
    have hch : c.channel n = ch := by simp [channel, h]
    rw [hch, channel_setChannel]

theorem channel_start (command : List String) : (c.start n command).1.channel m =
    if m = n then (c.channel n).next (.shell n) else c.channel m := by
  unfold start
  cases h : (c.channel n).isStarted with
  | true =>
    by_cases hm : m = n <;> simp [hm, Channel.next, h]
  | false => simp [channel_setChannel, Channel.next, h]

theorem channel_feed (bytes : List UInt8) (fed : Feed) : (c.feed n bytes fed).1.channel m =
    if m = n then (c.channel n).next (.data n bytes fed) else c.channel m := by
  unfold feed
  rw [any_takesInput]
  by_cases hm : m = n
  · subst hm
    cases h : (c.channel m).takesInput with
    | false =>
      have hidle : { c.channel m with takesInput := false } = c.channel m := by rw [← h]
      cases fed <;> simp [Channel.next, hidle]
    | true => cases fed <;> simp [channel_setChannel, Channel.next]
  · cases (c.channel n).takesInput <;> cases fed <;> simp [channel_setChannel, hm]

/-- A request changes only the channel it is about. -/
theorem channel_onChannel (r : Request) : (c.onChannel r).1.channel m =
    if r.channel? = some m then (c.channel m).next r else c.channel m := by
  have hcomm : ∀ n, (n = m) = (m = n) := fun n ↦ propext eq_comm
  cases r with
  | proveKey | withoutKey => rfl
  | openChannel n | setVariable n | terminal n | exec n | shell n | data n | eof n
  | closeChannel n =>
    by_cases hm : m = n <;>
      simp [onChannel, Request.channel?, Channel.next, channel_setChannel, channel_dropChannel,
        channel_start, channel_feed, channel_endInput, hcomm, hm]

/-- No request on a channel changes whom the connection belongs to. -/
theorem onChannel_same (r : Request) : (c.onChannel r).1.peer = c.peer ∧
    (c.onChannel r).1.user = c.user ∧ (c.onChannel r).1.key = c.key := by
  have hendInput : ∀ n, (c.endInput n).1.peer = c.peer ∧ (c.endInput n).1.user = c.user ∧
      (c.endInput n).1.key = c.key := by
    intro n
    unfold endInput
    cases c.channels.lookup n <;> exact ⟨rfl, rfl, rfl⟩
  have hstart : ∀ n command, (c.start n command).1.peer = c.peer ∧
      (c.start n command).1.user = c.user ∧ (c.start n command).1.key = c.key := by
    intro n command
    unfold start
    dsimp only
    split <;> exact ⟨rfl, rfl, rfl⟩
  cases r with
  | proveKey | withoutKey | openChannel | setVariable | terminal => exact ⟨rfl, rfl, rfl⟩
  | exec n line => exact hstart n _
  | shell n => exact hstart n []
  | eof n | closeChannel n => exact hendInput n
  | data n bytes fed =>
    unfold onChannel feed
    dsimp only
    split
    · cases fed <;> exact ⟨rfl, rfl, rfl⟩
    · exact ⟨rfl, rfl, rfl⟩

/-! ## Steps -/

/-- What is asked for an attempt to be let in, and what that decides.  A key is let in by its level;
without one, clients have to be admitted at all, and then everybody has to be allowed to read. -/
inductive Judges : Option ClientKey → List Call → Bool → Prop where
  | key (key : ClientKey) (level : AccessLevel) :
      Judges (some key) [⟨.accessLevel .unnamed (some key), .ok level⟩] level.canRead
  | closed : Judges none [⟨.allowKeyless, .ok false⟩] false
  | keyless (level : AccessLevel) :
      Judges none [⟨.allowKeyless, .ok true⟩, ⟨.accessLevel .unnamed none, .ok level⟩] level.canRead

variable {r : Request} {t : List Call} {effects : List Effect}

/-- An attempt is judged, and the connection belongs to who was let in. -/
theorem judges_of_runs_step {user : String} {key : Option ClientKey}
    (hattempt : r.attempt? = some (user, key)) (h : Runs (c.step r) t (.ok (c', effects))) :
    ∃ isAdmitted, Judges key t isAdmitted ∧ (c', effects) = c.conclude isAdmitted user key := by
  cases r with
  | proveKey user key =>
    cases hattempt
    have hstep : c.step (.proveKey user key) = .ask (.accessLevel .unnamed (some key)) fun a ↦
        .done ((a.map (·.canRead)).map fun isAdmitted ↦
          c.conclude isAdmitted user (some key)) := rfl
    rw [hstep] at h
    obtain ⟨a, rfl, ha⟩ := Program.runs_ask_done_iff.1 h
    cases a with
    | error crash => cases ha
    | ok level => exact ⟨_, .key key level, Except.ok.inj ha⟩
  | withoutKey user =>
    cases hattempt
    obtain ⟨a, t', rfl, hasked⟩ := Program.runs_ask_iff.1 h
    rcases a with crash | _ | _
    · cases (Program.runs_done_iff.1 hasked).2
    · obtain ⟨rfl, ha⟩ := Program.runs_done_iff.1 hasked
      exact ⟨_, .closed, Except.ok.inj ha⟩
    · obtain ⟨a, t'', rfl, hlevel⟩ := Program.runs_ask_iff.1 hasked
      obtain ⟨rfl, ha⟩ := Program.runs_done_iff.1 hlevel
      cases a with
      | error crash => cases ha
      | ok level => exact ⟨_, .keyless level, Except.ok.inj ha⟩
  | _ => cases hattempt

theorem accept_mem_conclude_iff {isAdmitted : Bool} {user : String} {key : Option ClientKey} :
    .accept ∈ (c.conclude isAdmitted user key).2 ↔ isAdmitted = true := by
  cases isAdmitted <;> simp [conclude]

theorem runs_step_iff (hattempt : r.attempt? = none) {o : Except Crash (Connection × List Effect)} :
    Runs (c.step r) t o ↔ t = [] ∧ o = .ok (c.onChannel r) := by
  cases r with
  | proveKey | withoutKey => cases hattempt
  | _ => exact Program.runs_done_iff

/-- How requests lead from one connection to another. -/
inductive Becomes : Connection → List Entry → Connection → Prop where
  | refl (c : Connection) : Becomes c [] c
  | step {c c₁ c' : Connection} {e : Entry} {log : List Entry}
      (h : Runs (c.step e.request) e.asked (.ok (c₁, e.effects))) (hrest : Becomes c₁ log c') :
      Becomes c (e :: log) c'

theorem Becomes.append_iff {log log' : List Entry} :
    Becomes c (log ++ log') c' ↔ ∃ c₁, Becomes c log c₁ ∧ Becomes c₁ log' c' := by
  induction log generalizing c with
  | nil =>
    constructor
    · exact fun h ↦ ⟨c, .refl c, h⟩
    · rintro ⟨c₁, h, h'⟩
      cases h
      exact h'
  | cons e log ih =>
    constructor
    · rintro (_ | ⟨hstep, hrest⟩)
      obtain ⟨c₁, h, h'⟩ := ih.1 hrest
      exact ⟨c₁, .step hstep h, h'⟩
    · rintro ⟨c₁, h, h'⟩
      cases h with
      | step hstep hrest => exact .step hstep (ih.2 ⟨c₁, hrest, h'⟩)

/-- A run of a connection has a log of the requests that it came through: all of them, unless the
connection broke off at the last one, or a question for the next one was answered by a crash. -/
theorem exists_becomes {requests : List Request} {o : Except Crash (Connection × List Effect)}
    (h : Runs (c.run requests) t o) : ∃ log c' rest, Becomes c log c' ∧
      requests = log.map Entry.request ++ rest ∧ (∀ e ∈ log.dropLast, e.breaksOff = false) ∧
      (t = log.flatMap Entry.asked ∧ o = .ok (c', log.flatMap Entry.effects) ∧
          (rest = [] ∨ ∃ e, log.getLast? = some e ∧ e.breaksOff = true) ∨
        ∃ r later t' crash, (∀ e ∈ log, e.breaksOff = false) ∧ rest = r :: later ∧
          t = log.flatMap Entry.asked ++ t' ∧ Runs (c'.step r) t' (.error crash) ∧
          o = .error crash) := by
  induction requests generalizing c t o with
  | nil =>
    obtain ⟨rfl, rfl⟩ := Program.runs_done_iff.1 h
    exact ⟨[], c, [], .refl c, rfl, List.forall_mem_nil _, .inl ⟨rfl, rfl, .inl rfl⟩⟩
  | cons r requests ih =>
    obtain ⟨t₁, a, t₂, rfl, hstep, h⟩ := Program.runs_bind_iff.1 h
    rcases a with crash | ⟨c₁, effects⟩
    · obtain ⟨rfl, rfl⟩ := Program.runs_done_iff.1 h
      refine ⟨[], c, r :: requests, .refl c, rfl, List.forall_mem_nil _, .inr ?_⟩
      exact ⟨r, requests, t₁, crash, List.forall_mem_nil _, rfl, by simp, hstep, rfl⟩
    dsimp only at h
    split at h
    · next hbreak =>
      obtain ⟨rfl, rfl⟩ := Program.runs_done_iff.1 h
      exact ⟨[⟨r, t₁, effects⟩], c₁, requests, .step hstep (.refl c₁), rfl, List.forall_mem_nil _,
        .inl ⟨by simp, by simp, .inr ⟨_, rfl, hbreak⟩⟩⟩
    · next hgoes =>
      obtain ⟨t₃, a, t₄, rfl, hrun, h⟩ := Program.runs_bind_iff.1 h
      obtain ⟨rfl, rfl⟩ := Program.runs_done_iff.1 h
      obtain ⟨log, c', rest, hbecomes, rfl, hfront, hend⟩ := ih hrun
      have hfirst : (⟨r, t₁, effects⟩ : Entry).breaksOff = false := Bool.eq_false_iff.2 hgoes
      have hall : ∀ e ∈ (⟨r, t₁, effects⟩ :: log).dropLast, e.breaksOff = false := by
        intro e he
        cases log with
        | nil => cases he
        | cons e' log =>
          rcases List.mem_cons.1 he with rfl | he
          · exact hfirst
          · exact hfront e he
      refine ⟨⟨r, t₁, effects⟩ :: log, c', rest, .step hstep hbecomes, rfl, hall, ?_⟩
      rcases hend with ⟨rfl, rfl, hlast⟩ | ⟨r', later, t', crash, hlog, rfl, rfl, hcrash, rfl⟩
      · refine .inl ⟨by simp, by simp [Except.map], hlast.imp_right ?_⟩
        rintro ⟨e, he, hbreak⟩
        exact ⟨e, by rw [List.getLast?_cons, he, Option.getD_some], hbreak⟩
      · exact .inr ⟨r', later, t', crash, List.forall_mem_cons.2 ⟨hfirst, hlog⟩, rfl, by simp,
          hcrash, rfl⟩

/-- The state of a connection is told by its log. -/
structure IsTold (peer : Option SocketAddr) (log : List Entry) (c : Connection) : Prop where
  peer_eq : c.peer = peer
  user_eq : c.user = (admitted? log).map Prod.fst
  key_eq : c.key = (admitted? log).bind Prod.snd
  channel_eq : ∀ n, c.channel n = .ofLife (life n log)

variable {peer : Option SocketAddr} {log : List Entry} {e : Entry}

theorem IsTold.nil : IsTold peer [] { peer := peer } := ⟨rfl, rfl, rfl, fun _ ↦ rfl⟩

/-- Whatever a request is, the log tells the state behind it. -/
theorem IsTold.step (h : IsTold peer log c)
    (hstep : Runs (c.step e.request) e.asked (.ok (c', e.effects))) :
    IsTold peer (log ++ [e]) c' := by
  cases hattempt : e.request.attempt? with
  | none =>
    obtain ⟨-, ho⟩ := (runs_step_iff hattempt).1 hstep
    obtain rfl : c' = (c.onChannel e.request).1 := congrArg Prod.fst (Except.ok.inj ho)
    obtain ⟨hpeer, huser, hkey⟩ := onChannel_same (c := c) e.request
    have hadmitted : admitted? (log ++ [e]) = admitted? log := by
      simp [admitted?_append, Entry.admits, hattempt]
    refine ⟨hpeer.trans h.peer_eq, ?_, ?_, fun n ↦ ?_⟩
    · rw [huser, h.user_eq, hadmitted]
    · rw [hkey, h.key_eq, hadmitted]
    · rw [channel_onChannel, life_append, Channel.ofLife_lifeStep, h.channel_eq]
  | some attempt =>
    obtain ⟨user, key⟩ := attempt
    obtain ⟨isAdmitted, -, hconclude⟩ := judges_of_runs_step hattempt hstep
    have hlife : ∀ n, life n (log ++ [e]) = life n log := by
      intro n
      rw [life_append, lifeStep]
      cases hr : e.request <;> simp_all [Request.attempt?, Request.bounds, Request.channel?]
    cases isAdmitted with
    | true =>
      obtain ⟨rfl, heffects⟩ := Prod.mk.inj hconclude
      have hadmitted : admitted? (log ++ [e]) = some (user, key) := by
        simp [admitted?_append, Entry.admits, hattempt, heffects]
      refine ⟨h.peer_eq, ?_, ?_, fun n ↦ ?_⟩
      · rw [hadmitted]; rfl
      · rw [hadmitted]; rfl
      · rw [hlife]; exact h.channel_eq n
    | false =>
      obtain ⟨rfl, heffects⟩ := Prod.mk.inj hconclude
      have hadmitted : admitted? (log ++ [e]) = admitted? log := by
        simp [admitted?_append, Entry.admits, heffects]
      refine ⟨h.peer_eq, ?_, ?_, fun n ↦ ?_⟩
      · rw [hadmitted]; exact h.user_eq
      · rw [hadmitted]; exact h.key_eq
      · rw [hlife]; exact h.channel_eq n

/-- The log tells the state behind every run. -/
theorem IsTold.of_becomes {log' : List Entry} (h : IsTold peer log c)
    (hbecomes : Becomes c log' c') : IsTold peer (log ++ log') c' := by
  induction hbecomes generalizing log with
  | refl => rwa [List.append_nil]
  | step hstep _ ih =>
    rw [List.append_cons]
    exact ih (h.step hstep)

/-! ## What a request leads to -/

theorem onChannel_of_start {command : List String} (hr : r.start? = some (n, command)) :
    c.onChannel r = c.start n command := by
  cases r <;> cases hr <;> rfl

/-- A channel that has a session refuses another one. -/
theorem start_of_isStarted (command : List String) (h : (c.channel n).isStarted = true) :
    ∃ event, c.start n command = (c, [.report event, .failure n]) := by
  rw [start, if_pos h]
  exact ⟨_, rfl⟩

theorem effects_start {command : List String} (h : (c.channel n).isStarted = false) :
    (c.start n command).2 = [.success n, .start n (c.session (c.channel n) command)] := by
  simp [start, h]

theorem effects_endInput :
    (c.endInput n).2 = if (c.channel n).takesInput then [.inputEnd n] else [] := by
  unfold endInput channel
  cases c.channels.lookup n <;> simp

/-- What a request can lead to.  A session starts only where one was asked for, on a channel that
has none, and input goes on only to a session that takes it, on its own channel. -/
inductive Allows (c : Connection) (r : Request) : Effect → Prop where
  | accept : Allows c r .accept
  | reject : Allows c r .reject
  | success (n : Nat) : Allows c r (.success n)
  | failure (n : Nat) : Allows c r (.failure n)
  | inputEnd (n : Nat) : Allows c r (.inputEnd n)
  | report (event : LogEvent) : Allows c r (.report event)
  | breakOff {n : Nat} {why : String} (hr : r.breaks n) (h : (c.channel n).takesInput = true) :
      Allows c r (.breakOff why)
  | start {n : Nat} {command : List String} (hr : r.start? = some (n, command))
      (h : (c.channel n).isStarted = false) :
      Allows c r (.start n (c.session (c.channel n) command))
  | input {n : Nat} {bytes : List UInt8} {fed : Feed} (hr : r = .data n bytes fed)
      (h : (c.channel n).takesInput = true) : Allows c r (.input n (fed.part bytes))

theorem allows_start {command : List String} (hr : r.start? = some (n, command)) {effect : Effect}
    (h : effect ∈ (c.start n command).2) : Allows c r effect := by
  cases hstarted : (c.channel n).isStarted with
  | true =>
    obtain ⟨event, heq⟩ := start_of_isStarted command hstarted
    rw [heq] at h
    simp only [List.mem_cons, List.not_mem_nil, or_false] at h
    rcases h with rfl | rfl
    · exact .report event
    · exact .failure n
  | false =>
    rw [effects_start hstarted] at h
    simp only [List.mem_cons, List.not_mem_nil, or_false] at h
    rcases h with rfl | rfl
    · exact .success n
    · exact .start hr hstarted

theorem allows_endInput {effect : Effect} (h : effect ∈ (c.endInput n).2) : Allows c r effect := by
  rw [effects_endInput] at h
  split at h
  · exact List.mem_singleton.1 h ▸ .inputEnd n
  · cases h

theorem allows_feed {bytes : List UInt8} {fed : Feed} {effect : Effect}
    (h : effect ∈ (c.feed n bytes fed).2) : Allows c (.data n bytes fed) effect := by
  unfold feed at h
  rw [any_takesInput] at h
  cases htakes : (c.channel n).takesInput with
  | false => simp [htakes] at h
  | true =>
    rw [htakes, if_pos rfl] at h
    rcases List.mem_cons.1 h with rfl | h
    · exact .input rfl htakes
    · cases fed with
      | written | closed => cases h
      | stalled =>
        simp only [List.mem_cons, List.not_mem_nil, or_false] at h
        rcases h with rfl | rfl
        · exact .report _
        · exact .breakOff ⟨_, _, .inl rfl⟩ htakes
      | cancelled => exact List.mem_singleton.1 h ▸ .breakOff ⟨_, _, .inr rfl⟩ htakes

theorem allows_onChannel {effect : Effect} (h : effect ∈ (c.onChannel r).2) :
    Allows c r effect := by
  cases r with
  | proveKey | withoutKey | openChannel | setVariable => cases h
  | terminal n => exact List.mem_singleton.1 h ▸ .success n
  | exec n line | shell n => exact allows_start rfl h
  | data n bytes fed => exact allows_feed h
  | eof n | closeChannel n => exact allows_endInput h

/-- Input goes to a session that takes it as far as that takes it, and nothing else is input. -/
theorem onChannel_data {bytes : List UInt8} {fed : Feed} (h : (c.channel n).takesInput = true) :
    ∃ others, (c.onChannel (.data n bytes fed)).2 = .input n (fed.part bytes) :: others ∧
      others.flatMap (Entry.inputOf m) = [] := by
  unfold onChannel feed
  dsimp only
  rw [any_takesInput, if_pos h]
  cases fed <;> exact ⟨_, rfl, rfl⟩

theorem effects_eq (hattempt : r.attempt? = none) (h : Runs (c.step r) t (.ok (c', effects))) :
    c' = (c.onChannel r).1 ∧ effects = (c.onChannel r).2 := by
  obtain ⟨-, ho⟩ := (runs_step_iff hattempt).1 h
  exact Prod.ext_iff.1 (Except.ok.inj ho)

theorem allows_step (h : Runs (c.step r) t (.ok (c', effects))) {effect : Effect}
    (hmem : effect ∈ effects) : Allows c r effect := by
  cases hattempt : r.attempt? with
  | none => exact allows_onChannel ((effects_eq hattempt h).2 ▸ hmem)
  | some attempt =>
    obtain ⟨isAdmitted, -, hconclude⟩ := judges_of_runs_step hattempt h
    obtain rfl : effects = (c.conclude isAdmitted attempt.1 attempt.2).2 :=
      congrArg Prod.snd hconclude
    cases isAdmitted <;>
      · simp only [conclude, if_pos, if_neg Bool.false_ne_true, List.mem_cons, List.not_mem_nil,
          or_false] at hmem
        rcases hmem with rfl | rfl
        · exact .report _
        · first | exact .accept | exact .reject

theorem input_mem_iff {bytes : List UInt8} (h : Runs (c.step r) t (.ok (c', effects))) :
    .input n bytes ∈ effects ↔ (c.channel n).takesInput = true ∧
      ∃ sent fed, r = .data n sent fed ∧ fed.part sent = bytes := by
  constructor
  · intro hmem
    cases allows_step h hmem with
    | input hr htakes => exact ⟨htakes, _, _, hr, rfl⟩
  · rintro ⟨htakes, sent, fed, rfl, rfl⟩
    obtain ⟨others, heq, -⟩ := @onChannel_data c n n sent fed htakes
    rw [(effects_eq rfl h).2, heq]
    exact List.mem_cons_self

/-- The connection breaks off over input that a session does not take in time, or when the server
ends it meanwhile. -/
theorem breaksOff_iff (h : Runs (c.step e.request) e.asked (.ok (c', e.effects))) :
    e.breaksOff = true ↔ ∃ n, (c.channel n).takesInput = true ∧ e.request.breaks n := by
  constructor
  · intro hbreaks
    obtain ⟨effect, hmem, hbreak⟩ := List.any_eq_true.1 hbreaks
    cases allows_step h hmem with
    | breakOff hr htakes => exact ⟨_, htakes, hr⟩
    | _ => cases hbreak
  · rintro ⟨n, htakes, bytes, taken, hr | hr⟩ <;>
      · rw [hr] at h
        rw [Entry.breaksOff, (effects_eq rfl h).2, onChannel, feed, any_takesInput, if_pos htakes]
        rfl

/-- The input that a session gets by a request. -/
theorem input_of_step (h : Runs (c.step e.request) e.asked (.ok (c', e.effects))) : e.input n =
    if (c.channel n).takesInput = true ∧ e.request.channel? = some n then e.request.taken
    else [] := by
  by_cases htaken : ∃ bytes fed, e.request = .data n bytes fed ∧ (c.channel n).takesInput = true
  · obtain ⟨bytes, fed, hr, htakes⟩ := htaken
    rw [hr] at h
    obtain ⟨others, heq, hothers⟩ := @onChannel_data c n n bytes fed htakes
    rw [Entry.input, (effects_eq rfl h).2, heq, List.flatMap_cons, hothers]
    simp [Entry.inputOf, hr, htakes, Request.channel?, Request.taken]
  · have hnone : e.input n = [] := by
      refine List.flatMap_eq_nil_iff.2 fun effect hmem ↦ ?_
      cases allows_step h hmem with
      | @input m bytes fed hr htakes =>
        have hm : m ≠ n := by
          rintro rfl
          exact htaken ⟨bytes, fed, hr, htakes⟩
        exact if_neg hm
      | _ => rfl
    rw [hnone]
    split
    · next h =>
      obtain ⟨htakes, hchannel⟩ := h
      cases hr : e.request with
      | data m bytes fed =>
        obtain rfl : m = n := by simpa [hr, Request.channel?] using hchannel
        exact absurd ⟨bytes, fed, hr, htakes⟩ htaken
      | _ => rfl
    · rfl

/-! ## Whole runs -/

/-- A session gets the input on its channel, whichever requests come in between. -/
theorem IsTold.input (h : IsTold peer log c)
    (hstep : Runs (c.step e.request) e.asked (.ok (c', e.effects))) : e.input n =
    if listens (life n log) = true ∧ e.request.channel? = some n then e.request.taken else [] := by
  rw [input_of_step hstep, h.channel_eq]
  rfl

/-- While a channel has a session, that hears what it is sent until it is through. -/
theorem IsTold.inputs {after : List Entry} (h : IsTold peer log c) (hafter : Becomes c after c')
    (hsession : hasSession (life n log) = true) : (span n after).flatMap (Entry.input · n) =
      if listens (life n log) then heard (requestsOn n (span n after)) else [] := by
  induction hafter generalizing log with
  | refl => simp [span, requestsOn, heard]
  | @step c c₁ c' e after hstep hrest ih =>
    cases hbounds : e.request.bounds n with
    | true => simp [span, hbounds, requestsOn, heard]
    | false =>
      have hspan : span n (e :: after) = e :: span n after := by simp [span, hbounds]
      have hinput := h.input (n := n) hstep
      by_cases hr : e.request.channel? = some n
      · have hlife : life n (log ++ [e]) = life n log ++ [e.request] := by
          simp [life_append, lifeStep, hbounds, hr]
        have hlater := ih (h.step hstep) (by simp [hlife, hasSession_append, hsession])
        have hrequests : requestsOn n (e :: span n after) =
            e.request :: requestsOn n (span n after) := by simp [requestsOn, hr]
        rw [hlife, listens_append, if_pos hsession] at hlater
        rw [hspan, List.flatMap_cons, hinput, hlater, hrequests, heard]
        cases listens (life n log) <;> cases e.request.stops <;> simp [hr]
      · have hlife : life n (log ++ [e]) = life n log := by
          simp [life_append, lifeStep, hbounds, hr]
        have hlater := ih (h.step hstep) (by rw [hlife]; exact hsession)
        have hrequests : requestsOn n (e :: span n after) = requestsOn n (span n after) := by
          simp [requestsOn, hr]
        rw [hlife] at hlater
        rw [hspan, List.flatMap_cons, hinput, hlater, hrequests]
        simp [hr]

/-- Somebody was let in by an attempt behind which none was accepted. -/
theorem exists_of_admitted? {attempt : String × Option ClientKey}
    (h : admitted? log = some attempt) : ∃ earlier e later, log = earlier ++ e :: later ∧
      e.admits = some attempt ∧ ∀ d ∈ later, d.admits = none := by
  obtain ⟨front, hfront⟩ := List.getLast?_eq_some_iff.1 h
  obtain ⟨earlier, rest, rfl, -, hrest⟩ := List.filterMap_eq_append_iff.1 hfront
  obtain ⟨before, e, later, rfl, hbefore, he, hlater⟩ := List.filterMap_eq_cons_iff.1 hrest
  exact ⟨earlier ++ before, e, later, (List.append_assoc _ _ _).symm, he,
    List.filterMap_eq_nil_iff.1 hlater⟩

/-- What the log before a request says of it: what it asked for, what it led to, and, if a session
started, what that gets later. -/
structure Accords (peer : Option SocketAddr) (before : List Entry) (c : Connection) (e : Entry)
    (c' : Connection) (after : List Entry) : Prop where
  /-- An attempt is accepted if it is judged well, and changes nothing otherwise. -/
  judged : ∀ user key, e.request.attempt? = some (user, key) → ∃ isAdmitted,
    Judges key e.asked isAdmitted ∧ (.accept ∈ e.effects ↔ isAdmitted = true) ∧
      (isAdmitted = false → c' = c)
  /-- The first request for a session on a channel starts one: of whoever was let in last, and with
  the variables of the channel, in their order. -/
  first : ∀ n command, e.request.start? = some (n, command) → hasSession (life n before) = false →
    e.effects = [.success n, .start n {
      command
      peer
      user := ((admitted? before).map Prod.fst).getD ""
      key := (admitted? before).bind Prod.snd
      env := (life n before).filterMap Request.assignment? }]
  /-- Later ones are refused and change nothing. -/
  later : ∀ n command, e.request.start? = some (n, command) → hasSession (life n before) = true →
    (∃ event, e.effects = [.report event, .failure n]) ∧ c' = c
  /-- Nothing else starts a session. -/
  only : ∀ n s, .start n s ∈ e.effects →
    (∃ command, e.request.start? = some (n, command)) ∧ hasSession (life n before) = false
  /-- Who was let in without a key was let in because such clients were admitted then. -/
  keyless : ∀ user, admitted? before = some (user, none) → ∃ earlier d later level,
    before = earlier ++ d :: later ∧ d.request = .withoutKey user ∧ .accept ∈ d.effects ∧
      d.asked = [⟨.allowKeyless, .ok true⟩, ⟨.accessLevel .unnamed none, .ok level⟩] ∧
      level.canRead = true ∧ ∀ d' ∈ later, d'.admits = none
  /-- Input goes on to a session only where its channel has one that takes input, and as far as that
  takes it. -/
  input : ∀ n bytes, .input n bytes ∈ e.effects ↔ listens (life n before) = true ∧
    ∃ sent fed, e.request = .data n sent fed ∧ fed.part sent = bytes
  /-- The connection breaks off only where a session that takes input does not take it in time, or
  the server ends the connection meanwhile. -/
  broken : e.breaksOff = true ↔ ∃ n, listens (life n before) = true ∧ e.request.breaks n
  /-- A session gets what is sent on its channel from its start until the client or the session is
  through with it, and nothing else. -/
  stdin : ∀ n command, e.request.start? = some (n, command) → hasSession (life n before) = false →
    (span n after).flatMap (Entry.input · n) = heard (requestsOn n (span n after))

theorem accords {before after : List Entry} {c₁ c₂ : Connection}
    (hbefore : Becomes { peer := peer } before c₁)
    (hstep : Runs (c₁.step e.request) e.asked (.ok (c₂, e.effects)))
    (hafter : Becomes c₂ after c') : Accords peer before c₁ e c₂ after := by
  have htold : IsTold peer before c₁ := IsTold.nil.of_becomes hbefore
  have hstarted : ∀ n, (c₁.channel n).isStarted = hasSession (life n before) := fun n ↦ by
    rw [htold.channel_eq]; rfl
  have hstarts : ∀ n command, e.request.start? = some (n, command) →
      c₂ = (c₁.start n command).1 ∧ e.effects = (c₁.start n command).2 := by
    intro n command hr
    rw [← onChannel_of_start hr]
    exact effects_eq (Request.of_start? hr).1 hstep
  constructor
  case judged =>
    intro user key hattempt
    obtain ⟨isAdmitted, hjudges, hconclude⟩ := judges_of_runs_step hattempt hstep
    refine ⟨isAdmitted, hjudges, ?_, ?_⟩
    · rw [show e.effects = (c₁.conclude isAdmitted user key).2 from congrArg Prod.snd hconclude]
      exact accept_mem_conclude_iff
    · rintro rfl
      exact congrArg Prod.fst hconclude
  case first =>
    intro n command hr hsession
    rw [(hstarts n command hr).2, effects_start ((hstarted n).trans hsession), session,
      htold.peer_eq, htold.user_eq, htold.key_eq, htold.channel_eq]
    rfl
  case later =>
    intro n command hr hsession
    obtain ⟨hc, he⟩ := hstarts n command hr
    obtain ⟨event, heq⟩ := start_of_isStarted command ((hstarted n).trans hsession)
    rw [heq] at hc he
    exact ⟨⟨event, he⟩, hc⟩
  case only =>
    intro n s hmem
    cases allows_step hstep hmem with
    | start hr h => exact ⟨⟨_, hr⟩, (hstarted n).symm.trans h⟩
  case keyless =>
    intro user hadmitted
    obtain ⟨earlier, d, later, rfl, hd, hlater⟩ := exists_of_admitted? hadmitted
    obtain ⟨haccept, hattempt⟩ : .accept ∈ d.effects ∧ d.request.attempt? = some (user, none) := by
      simpa [Entry.admits] using hd
    obtain ⟨c₃, -, hrest⟩ := Becomes.append_iff.1 hbefore
    cases hrest with
    | step hd _ =>
      obtain ⟨isAdmitted, hjudges, hconclude⟩ := judges_of_runs_step hattempt hd
      have heffects : d.effects = (c₃.conclude isAdmitted user none).2 :=
        congrArg Prod.snd hconclude
      have hadmits : isAdmitted = true := accept_mem_conclude_iff.1 (heffects ▸ haccept)
      have hrequest : d.request = .withoutKey user := by
        cases hr : d.request <;> simp_all [Request.attempt?]
      generalize hasked : d.asked = asked at hjudges
      cases hjudges with
      | closed => cases hadmits
      | keyless level =>
        exact ⟨earlier, d, later, level, rfl, hrequest, haccept, hasked, hadmits, hlater⟩
  case input =>
    intro n bytes
    rw [input_mem_iff hstep, htold.channel_eq]
    rfl
  case broken =>
    rw [breaksOff_iff hstep]
    refine exists_congr fun n ↦ ?_
    rw [htold.channel_eq]
    rfl
  case stdin =>
    intro n command hr hsession
    obtain ⟨-, hchannel, hbounds, hstarts⟩ := Request.of_start? hr
    have hlife : life n (before ++ [e]) = life n before ++ [e.request] := by
      simp [life_append, lifeStep, hchannel, hbounds]
    have hlistens : listens (life n (before ++ [e])) = true := by
      rw [hlife, listens_append, hsession, if_neg Bool.false_ne_true, hstarts]
    rw [(htold.step hstep).inputs hafter (by rw [hlife, hasSession_append, hstarts, Bool.or_true]),
      if_pos hlistens]

end Connection

end GitGateway.Ssh
