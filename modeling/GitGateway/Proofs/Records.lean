import GitGateway.Proofs.Answers

/-!
# What the access log records

The access log is the innermost stage of the standard chain, and the containment the outermost.  A
session that one of the stages between them ends still comes to the access log, which passes no
ended session by.  A crash does not: it breaks off every stage on its way out, and the containment,
where it is stopped, only reports it.  So a session leaves one **record** if no question was
answered by a crash, and none otherwise (`one_record_iff_calm`).

The stages between the two are **unrecorded**: they report no such record themselves, they leave
alone who the session is and what it asked for, and they break off exactly where a question was
answered by a crash.
-/

namespace GitGateway

open Handler

/-- Whether an event is the record of a session. -/
def LogEvent.isRecord (e : LogEvent) : Bool :=
  e.origin == "middleware::logging" && e.message == "session finished"

/-- The record that a question reports, if it does. -/
def Call.record? : Call → Option LogEvent
  | ⟨.emit e, _⟩ => if e.isRecord then some e else none
  | _ => none

/-- The records that are reported in a transcript, in order. -/
def records (t : List Call) : List LogEvent := t.filterMap Call.record?

theorem IsCalm.nil : IsCalm [] := List.forall_mem_nil _

theorem records_append (t t' : List Call) : records (t ++ t') = records t ++ records t' :=
  List.filterMap_append

/-- Two states of one session, which has the same client and the same command in both. -/
structure Session.IsSame (s s' : Session) : Prop where
  command : s'.command = s.command
  peer : s'.peer = s.peer
  user : s'.user = s.user
  key : s'.key = s.key

namespace Session.IsSame

variable {s s' s'' : Session}

theorem refl (s : Session) : s.IsSame s := ⟨rfl, rfl, rfl, rfl⟩

theorem trans (h : s.IsSame s') (h' : s'.IsSame s'') : s.IsSame s'' :=
  ⟨h'.command.trans h.command, h'.peer.trans h.peer, h'.user.trans h.user, h'.key.trans h.key⟩

theorem writeStdout (s : Session) (data : List UInt8) : s.IsSame (s.writeStdout data).2 := by
  unfold Session.writeStdout
  split
  · exact refl s
  · exact ⟨rfl, rfl, rfl, rfl⟩

theorem writeStderr (s : Session) (data : List UInt8) : s.IsSame (s.writeStderr data).2 := by
  unfold Session.writeStderr
  split
  · exact refl s
  · exact ⟨rfl, rfl, rfl, rfl⟩

theorem exit (s : Session) (status : Nat) : s.IsSame (s.exit status) := by
  rw [Session.exit_eq]
  split
  · exact refl s
  · exact ⟨rfl, rfl, rfl, rfl⟩

theorem fatal (s : Session) (e : SessionError) : s.IsSame (s.fatal e) := by
  unfold Session.fatal
  refine trans ?_ (exit _ _)
  split
  · exact refl s
  · exact ⟨rfl, rfl, rfl, rfl⟩

end Session.IsSame

/-! ## Unrecorded work -/

/-- Work that reports no record, leaves the session the same, and breaks off exactly where a
question was answered by a crash. -/
def Handler.Unrecorded {α : Type} (h : Handler α) : Prop :=
  ∀ s t o s', Does h s t o s' → records t = [] ∧ s.IsSame s' ∧ (IsCalm t ↔ o.isOk = true)

namespace Handler.Unrecorded

variable {α β : Type} {h : Handler α} {f : α → Handler β}

theorem bind (hh : h.Unrecorded) (hf : ∀ a, (f a).Unrecorded) : (h >>= f).Unrecorded := by
  intro s t o s' hdoes
  rcases does_bind_iff.1 hdoes with ⟨crash, h₁, rfl⟩ | ⟨t₁, a, s₁, t₂, rfl, h₁, h₂⟩
  · exact hh _ _ _ _ h₁
  · obtain ⟨hrecords₁, hsame₁, hcalm₁⟩ := hh _ _ _ _ h₁
    obtain ⟨hrecords₂, hsame₂, hcalm₂⟩ := hf a _ _ _ _ h₂
    refine ⟨?_, hsame₁.trans hsame₂, ?_⟩
    · rw [records_append, hrecords₁, hrecords₂, List.append_nil]
    · rw [IsCalm.append_iff, hcalm₁, hcalm₂]
      exact and_iff_right rfl

theorem pure (a : α) : (Pure.pure a : Handler α).Unrecorded := by
  intro s t o s' hdoes
  obtain ⟨rfl, rfl, rfl⟩ := does_pure_iff.1 hdoes
  exact ⟨rfl, .refl s', iff_of_true .nil rfl⟩

theorem get_bind {f : Session → Handler α} (hf : ∀ s, (f s).Unrecorded) :
    (get >>= f).Unrecorded :=
  fun s t o s' hdoes ↦ hf s s t o s' (does_get_bind_iff.1 hdoes)

theorem modify {g : Session → Session} (hg : ∀ s : Session, s.IsSame (g s)) :
    (modify g : Handler Unit).Unrecorded := by
  intro s t o s' hdoes
  obtain ⟨rfl, hr⟩ := Program.runs_done_iff.1 hdoes
  cases hr
  exact ⟨rfl, hg s, iff_of_true .nil rfl⟩

/-- What asks one question breaks off where that is answered by a crash. -/
theorem call {call : Except Crash α → Call}
    (hcall : ∀ {s t o s'}, Does h s t o s' ↔ t = [call o] ∧ s' = s)
    (hrecord : ∀ o, (call o).record? = none) (hcrash : ∀ o, (call o).crashes = !o.isOk) :
    h.Unrecorded := by
  intro s t o s' hdoes
  obtain ⟨rfl, rfl⟩ := hcall.1 hdoes
  refine ⟨?_, .refl s', ?_⟩
  · rw [records, List.filterMap_cons_none (hrecord o), List.filterMap_nil]
  · rw [IsCalm, List.forall_mem_singleton, hcrash, Bool.not_eq_false']

theorem accessLevel (name : RepoName) (key : Option ClientKey) :
    (Handler.accessLevel name key).Unrecorded :=
  call does_accessLevel_iff (fun _ ↦ rfl) fun _ ↦ rfl

theorem lookup (name : RepoName) : (Handler.lookup name).Unrecorded :=
  call does_lookup_iff (fun _ ↦ rfl) fun _ ↦ rfl

theorem create (name : RepoName) (isPrivate : Bool) :
    (Handler.create name isPrivate).Unrecorded :=
  call does_create_iff (fun _ ↦ rfl) fun _ ↦ rfl

theorem list : Handler.list.Unrecorded := by
  have hlist : ∀ {s t o s'}, Does Handler.list s t o s' ↔ t = [⟨.list, o⟩] ∧ s' = s :=
    Program.runs_ask_pair_iff
  exact call hlist (fun _ ↦ rfl) fun _ ↦ rfl

theorem emit {e : LogEvent} (he : e.isRecord = false) : (Handler.emit e).Unrecorded := by
  intro s t o s' hdoes
  obtain ⟨⟨⟩, rfl, hr⟩ := Program.runs_ask_done_iff.1 hdoes
  cases hr
  refine ⟨?_, .refl s, iff_of_true (by simp [IsCalm, Call.crashes]) rfl⟩
  simp [records, Call.record?, he]

theorem serve (service : Git.Service) (path : RepoPath) :
    (Handler.serve service path).Unrecorded := by
  intro s t o s' hdoes
  obtain ⟨served, rfl, rfl, rfl⟩ := does_serve_iff.1 hdoes
  refine ⟨rfl, ⟨rfl, rfl, rfl, rfl⟩, ?_⟩
  rw [IsCalm, List.forall_mem_singleton, Call.crashes, Bool.not_eq_false']

theorem writeStdout (data : List UInt8) : (Handler.writeStdout data).Unrecorded :=
  modify fun s ↦ .writeStdout s data

theorem writeStderr (data : List UInt8) : (Handler.writeStderr data).Unrecorded :=
  modify fun s ↦ .writeStderr s data

theorem exit (status : Nat) : (Handler.exit status).Unrecorded := modify fun s ↦ .exit s status

theorem fatal (e : SessionError) : (Handler.fatal e).Unrecorded := modify fun s ↦ .fatal s e

end Handler.Unrecorded

/-! ## Dispatching -/

namespace Dispatch

theorem unrecorded_confine (root : String) (name : RepoName) :
    (confine root name).Unrecorded := by
  unfold confine
  cases Confine.repoPath root name with
  | ok path => exact .pure _
  | error e =>
    refine .bind (.emit ?_) fun _ ↦ .pure _
    unfold PathEscape.event
    split <;> rfl

theorem unrecorded_awaitWinner (name : RepoName) : (awaitWinner name).Unrecorded := by
  refine .bind (.lookup name) fun found ↦ ?_
  cases found with
  | ok r => exact .pure _
  | error e => exact .pure _

theorem unrecorded_createMissing (name : RepoName) : (createMissing name).Unrecorded := by
  refine .bind (.create name false) fun made ↦ ?_
  rcases made with (_ | _ | cause) | r
  · exact .pure _
  · exact unrecorded_awaitWinner name
  · exact .pure _
  · exact .bind (.emit rfl) fun _ ↦ .pure _

theorem unrecorded_ensureRepository (name : RepoName) : (ensureRepository name).Unrecorded := by
  refine .bind (.lookup name) fun found ↦ ?_
  rcases found with (_ | _ | cause) | r
  · exact unrecorded_createMissing name
  · exact .pure _
  · exact .pure _
  · exact .pure _

theorem unrecorded_serve (service : Git.Service) (path : RepoPath) :
    (serve service path).Unrecorded := by
  refine .bind (.serve service path) fun result ↦ ?_
  rcases result with (_ | cause) | ⟨⟩ <;> exact .pure _

theorem unrecorded_serveAuthorized (service : Git.Service) (name : RepoName) (path : RepoPath) :
    (serveAuthorized service name path).Unrecorded := by
  cases service with
  | receivePack =>
    refine .bind (unrecorded_ensureRepository name) fun ensured ↦ ?_
    cases ensured with
    | error e => exact .pure _
    | ok => exact unrecorded_serve _ path
  | uploadPack | uploadArchive => exact unrecorded_serve _ path

theorem unrecorded_request (root : String) (service : Git.Service) (name : RepoName) :
    (request root service name).Unrecorded := by
  refine .bind (unrecorded_confine root name) fun confined ↦ ?_
  cases confined with
  | error e => exact .pure _
  | ok path =>
    dsimp only
    split
    · exact .pure _
    · refine .get_bind fun s ↦ .bind (.accessLevel name s.key) fun level ↦ ?_
      split
      · exact unrecorded_serveAuthorized service name path
      · exact .pure _

theorem unrecorded_dispatch (root : String) : (dispatch root).Unrecorded := by
  refine .get_bind fun s ↦ ?_
  cases Git.Request.ofWords s.command with
  | other => exact .pure _
  | pack service name => exact unrecorded_request root service name

end Dispatch

/-! ## Stages -/

namespace Stage

/-- A stage that works before the rest, and whose work is unrecorded. -/
def Unrecorded (stage : Stage) : Prop :=
  ∃ work : Handler Unit, stage = .before work ∧ work.Unrecorded

theorem unrecorded_readable (names : List RepoName) : (readable names).Unrecorded := by
  induction names with
  | nil => exact .pure _
  | cons name rest ih =>
    exact .get_bind fun s ↦ .bind (.accessLevel name s.key) fun _ ↦ .bind ih fun _ ↦ .pure _

theorem unrecorded_readableRepositories : readableRepositories.Unrecorded := by
  refine .bind .list fun names ↦ ?_
  cases names with
  | ok names => exact unrecorded_readable names
  | error e => exact .bind (.emit rfl) fun _ ↦ .pure _

theorem unrecorded_welcome (config : Config) : (welcome config).Unrecorded := by
  refine ⟨_, rfl, .get_bind fun s ↦ ?_⟩
  split
  · exact .bind unrecorded_readableRepositories fun _ ↦ .bind (.writeStdout _) fun _ ↦ .exit 0
  · exact .pure _

theorem unrecorded_answer (command : List String) : (answer command).Unrecorded := by
  unfold answer
  split
  · exact .pure _
  · exact .get_bind fun s ↦ .bind (.accessLevel _ s.key) fun _ ↦ .pure _
  · exact .bind unrecorded_readableRepositories fun _ ↦ .pure _
  · exact .pure _

theorem unrecorded_builtins : builtins.Unrecorded := by
  refine ⟨_, rfl, .get_bind fun s ↦ ?_⟩
  dsimp only
  split
  · refine .bind (unrecorded_answer s.command) fun text? ↦ ?_
    cases text? with
    | some text => exact .bind (.writeStdout _) fun _ ↦ .exit 0
    | none =>
      exact .get_bind fun s ↦ .bind (.emit rfl) fun _ ↦ .bind (.writeStderr _) fun _ ↦ .exit 1
  · exact .pure _

theorem unrecorded_transport (root : String) : (transport root).Unrecorded := by
  refine ⟨_, rfl, .bind (Dispatch.unrecorded_dispatch root) fun verdict ↦ ?_⟩
  rcases verdict with e | _ | _
  · refine .get_bind fun s ↦ .bind (.emit ?_) fun _ ↦ .fatal e
    cases e <;> rfl
  · exact .pure _
  · exact .exit 0

end Stage

/-! ## The chain -/

namespace Chain

variable {n : Nat} {stages : List Stage} {s s' : Session} {t : List Call} {turns : List Turn}
variable {o : Except Crash Unit}

/-- Behind unrecorded stages, the access log records how the session ended unless one of them broke
off. -/
theorem Course.of_unrecorded (hstages : ∀ stage ∈ stages, stage.Unrecorded)
    (h : Course n (stages ++ [.accessLog]) s t turns o s') :
    s.IsSame s' ∧ (IsCalm t ↔ o.isOk = true) ∧
      records t = if o.isOk then [Stage.finishedEvent s'] else [] := by
  induction stages generalizing n s t turns with
  | nil =>
    obtain ⟨rfl, rfl, rfl, -⟩ := h.accessLog
    refine ⟨.refl s', iff_of_true (by simp [IsCalm, Call.crashes]) rfl, rfl⟩
  | cons stage stages ih =>
    obtain ⟨work, rfl, hwork⟩ := hstages stage List.mem_cons_self
    have hrest := fun stage hstage ↦ hstages stage (List.mem_cons_of_mem _ hstage)
    cases hs : s.isTerminated with
    | true => exact ih hrest (h.of_isTerminated hs)
    | false =>
      rcases h.before hs with ⟨crash, rfl, hdoes⟩ | ⟨t₁, t₂, s₁, turns', rfl, hdoes, h, -⟩
      · obtain ⟨hrecords, hsame, hcalm⟩ := hwork _ _ _ _ hdoes
        exact ⟨hsame, hcalm, hrecords⟩
      · obtain ⟨hrecords₁, hsame₁, hcalm₁⟩ := hwork _ _ _ _ hdoes
        obtain ⟨hsame₂, hcalm₂, hrecords₂⟩ := ih hrest h
        refine ⟨hsame₁.trans hsame₂, ?_, ?_⟩
        · rw [IsCalm.append_iff, hcalm₁, hcalm₂]
          exact and_iff_right rfl
        · rw [records_append, hrecords₁, List.nil_append, hrecords₂]

/-- A course of the standard chain ends the session, which stays the same, and records it exactly if
nothing crashes. -/
theorem Course.recorded {config : Config} (h : Course 0 (Chain.standard config) s t turns o s') :
    o = .ok () ∧ s.IsSame s' ∧ s'.isTerminated = true ∧
      records t = if IsCalm t then [Stage.finishedEvent s'] else [] := by
  have hstages : ∀ stage ∈ ([.welcome config, .builtins, .transport config.reposPath] : List Stage),
      stage.Unrecorded := by
    simp only [List.forall_mem_cons]
    exact ⟨Stage.unrecorded_welcome config, Stage.unrecorded_builtins,
      Stage.unrecorded_transport config.reposPath, List.forall_mem_nil _⟩
  cases hs : s.isTerminated with
  | true =>
    have hskips : Stage.containment.skips s = true := by simp [Stage.skips, Stage.containment, hs]
    have hlog := (((h.of_skips hskips).of_isTerminated hs).of_isTerminated hs).of_isTerminated hs
    obtain ⟨rfl, rfl, rfl, -⟩ := hlog.accessLog
    exact ⟨rfl, .refl s', hs, rfl⟩
  | false =>
    obtain ⟨t₁, t₂, o₁, s₁, turns', rfl, hrest, -, rfl, hend⟩ := h.contained hs
    obtain ⟨hsame, hcalm, hrecords⟩ := hrest.of_unrecorded hstages
    rcases hend with ⟨rfl, rfl, rfl⟩ | ⟨crash, rfl, rfl, rfl⟩
    · have ht₁ : IsCalm t₁ := hcalm.2 rfl
      obtain ⟨-, -, hstatus⟩ := hrest.of_answerer hs ht₁
      rw [List.append_nil, if_pos ht₁]
      exact ⟨rfl, hsame, Session.isTerminated_of_exitStatus hstatus, hrecords⟩
    · have ht₁ : ¬ IsCalm t₁ := fun ht₁ ↦ Bool.false_ne_true (hcalm.1 ht₁)
      have hstatus := Session.fatal_exitStatus s₁ (Stage.crashFailure crash)
      rw [records_append, hrecords, if_neg fun ht ↦ ht₁ (IsCalm.append_iff.1 ht).1]
      exact ⟨rfl, hsame.trans (.fatal s₁ _), Session.isTerminated_of_exitStatus hstatus, rfl⟩

/-- **One record exactly if nothing crashes.**  In any surroundings, the standard chain comes to its
end and ends the session.  If no question was answered by a crash, it reports one record, which
shows the client and the command of the session and the status with which it ended; if one was, it
reports none. -/
theorem one_record_iff_calm {σ : Type} (answer : (q : Ask) → σ → q.Answer × σ) (config : Config)
    (s : Session) (x : σ) :
    ∃ s' status, (((run (standard config)).run.run s).run answer x).1 = (.ok (), s') ∧
      s.IsSame s' ∧ s'.exitStatus = some status ∧
      records (((run (standard config)).run.run s).transcript answer x) =
        if IsCalm (((run (standard config)).run.run s).transcript answer x) then
          [Stage.finishedEvent { s with exitStatus := some status }]
        else [] := by
  have hruns := Program.runs_transcript answer ((run (standard config)).run.run s) x
  obtain ⟨⟨o, s'⟩, hrun⟩ : ∃ r, (((run (standard config)).run.run s).run answer x).1 = r := ⟨_, rfl⟩
  rw [hrun] at hruns ⊢
  obtain ⟨turns, hcourse⟩ := does_run_iff.1 hruns
  obtain ⟨rfl, hsame, hended, hrecords⟩ := hcourse.recorded
  obtain ⟨status, hstatus⟩ := Option.isSome_iff_exists.1 hended
  refine ⟨s', status, rfl, hsame, hstatus, hrecords.trans ?_⟩
  have hevent : Stage.finishedEvent s' = Stage.finishedEvent { s with exitStatus := some status } := by
    simp only [Stage.finishedEvent, hsame.command, hsame.peer, hsame.user, hsame.key, hstatus]
  rw [hevent]

/-- A fetch whose pack operation crashes ends with a failure, and leaves no record. -/
theorem crash_leaves_no_record :
    let s : Session := { command := ["git-upload-pack", "x"] }
    let x : Scripted.Surroundings := { pack := { reply := .crashes } }
    let p : Asking (Except Crash Unit × Session) := (run (standard { dataPath := "/srv" })).run.run s
    (p.run Scripted.Surroundings.answer x).1.2.exitStatus = some 1 ∧
      records (p.transcript Scripted.Surroundings.answer x) = [] := by
  decide +kernel

end Chain

end GitGateway
