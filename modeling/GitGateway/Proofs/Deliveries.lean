import GitGateway.Proofs.Answers
import GitGateway.Proofs.Exchanges
import GitGateway.Scripted.Host

/-!
# What a pack operation delivers

An authorized session on a repository that is there: its request leads to one pack operation, with
the streams that the session began with.  The operation gives the client what the git program wrote
(`Git.PackService.ends_serve`), and the session ends with a trailer behind it unless all went well.

All that comes of the session is told by what the program wrote, how it ended, and how much the
client takes.  The client's input takes part only through the program: a script writes what its acts
say about what it read, no matter whether the input ended or failed.
-/

namespace GitGateway

open Handler
open Program (Ends)

namespace Git.PackService

/-- Answers to a pack operation on a bare repository whose program writes and reads what `traffic`
says and ends as `exit` says, in any order of moves. -/
def Delivers (traffic : Traffic) (exit : Exit) (path : RepoPath) : (q : HostAsk) → q.Answer → Prop
  | .disk, d => Store.isBare d path.text = true
  | .exchange _ io, answer => ∃ child x, answer = .ok x ∧
      Exchange.Unfolds (.start io child) traffic x ∧ x.isOver = true ∧ x.child.exit = exit
  | _, _ => True

variable {p : PackService} {service : Service} {path : RepoPath} {io : PackIo} {served : Served}
variable {traffic : Traffic} {exit : Exit}

/-- All goes well if the program says so and the client takes everything. -/
def GoesWell (io : PackIo) (traffic : Traffic) (exit : Exit) : Prop :=
  exit.isSuccess = true ∧ io.stdout.Fits traffic.printed ∧ io.stderr.Fits traffic.complained

instance : Decidable (GoesWell io traffic exit) :=
  inferInstanceAs (Decidable (_ ∧ _ ∧ _))

/-- An exchange that is over is judged well if both copies and the program ended well. -/
theorem judge_eq_ok_iff {x : Exchange} (hover : x.isOver = true) : judge service x = .ok () ↔
    x.child.exit.isSuccess = true ∧ x.outputEnd = some .finished ∧
      x.diagnosticsEnd = some .finished := by
  simp only [Exchange.isOver, Bool.and_eq_true, Option.isSome_iff_exists] at hover
  obtain ⟨⟨⟨outputEnd, houtput⟩, ⟨diagnosticsEnd, hdiagnostics⟩⟩, -⟩ := hover
  unfold judge
  rw [houtput, hdiagnostics]
  cases outputEnd <;> cases diagnosticsEnd <;> simp

/-- A bad judgement blames no repository. -/
theorem judge_eq_error {x : Exchange} {e : PackError} (h : judge service x = .error e) :
    ∃ f, e = .failed f := by
  unfold judge at h
  split at h
  · cases h
    exact ⟨_, rfl⟩
  · cases h
    exact ⟨_, rfl⟩
  · split at h <;> cases h
    exact ⟨_, rfl⟩

/-- A pack operation gives both streams what the program wrote, and ends well exactly if all goes
well. -/
theorem ends_serve
    (h : Ends (Delivers traffic exit path) (p.serve service path io) served) :
    served.io.stdout = io.stdout.receive traffic.printed ∧
      served.io.stderr = io.stderr.receive traffic.complained ∧
      ∃ r, served.result = .ok r ∧ (r = .ok () ↔ GoesWell io traffic exit) ∧
        ∀ e, r = .error e → ∃ f, e = .failed f := by
  obtain ⟨d, hbare, h⟩ := Program.ends_ask_iff.1 h
  have hbare' : Store.isBare d path.text = true := hbare
  rw [Program.bind_done, if_pos hbare'] at h
  obtain ⟨answer, hanswer, h⟩ := Program.ends_ask_iff.1 h
  obtain ⟨child, x, rfl, hunfolds, hover, rfl⟩ := hanswer
  obtain rfl := Program.ends_done_iff.1 h
  have hflow := (Exchange.flow_start io child).unfolds hunfolds
  rw [Traffic.empty_append] at hflow
  obtain ⟨hstdout, hstderr, hprinted, hcomplained⟩ := hflow.of_isOver hover
  refine ⟨hstdout, hstderr, _, rfl, ?_, fun e ↦ judge_eq_error⟩
  rw [judge_eq_ok_iff hover, hprinted, hcomplained, GoesWell]

end Git.PackService

/-! ## The session of a pack operation -/

/-- Answers to an authorized session whose repository is there and is served by a pack service,
whose program writes and reads what `traffic` says and ends as `exit` says. -/
def Git.PackService.Attends (p : PackService) (service : Service) (traffic : Traffic)
    (exit : Exit) : (q : Ask) → q.Answer → Prop
  | .accessLevel _ _, answer => ∃ level, answer = .ok level ∧ Dispatch.permits level service = true
  | .lookup _, answer => ∃ r, answer = .ok (.ok r)
  | .serve service path io, served =>
    Ends (Delivers traffic exit path) (p.serve service path io) served
  | .emit _, _ => True
  | .allowKeyless, answer => answer.isOk
  | .create _ _, answer => answer.isOk
  | .list, answer => answer.isOk

section Session

variable {p : Git.PackService} {service : Git.Service} {name : RepoName} {path : RepoPath}
variable {traffic : Git.Traffic} {exit : Git.Exit}
variable {s s' : Session} {t : List GitGateway.Call}

theorem Git.PackService.isCalm_of_attends
    (ht : ∀ x ∈ t, p.Attends service traffic exit x.1 x.2) : IsCalm t := by
  intro ⟨q, answer⟩ hx
  have hanswer := ht _ hx
  cases q with
  | emit e => rfl
  | accessLevel name key =>
    obtain ⟨level, rfl, -⟩ := hanswer
    rfl
  | lookup name =>
    obtain ⟨r, rfl⟩ := hanswer
    rfl
  | serve service path io =>
    obtain ⟨-, -, r, hr, -⟩ := ends_serve hanswer
    have hr' : answer.result = .ok r := hr
    rw [Call.crashes, hr']
    rfl
  | allowKeyless | create | list => simpa [Call.crashes, Attends] using hanswer

namespace Dispatch

/-- A target that is found is not created. -/
theorem Ensures.of_attends {o : Except Crash (Except SessionError Unit)} (h : Ensures name t o)
    (ht : ∀ x ∈ t, p.Attends service traffic exit x.1 x.2) : o = .ok (.ok ()) := by
  cases h with
  | found r => rfl
  | missing h => obtain ⟨r, hr⟩ := ht _ List.mem_cons_self; cases hr
  | refused e he => obtain ⟨r, hr⟩ := ht _ List.mem_cons_self; cases hr
  | crashed crash => obtain ⟨r, hr⟩ := ht _ List.mem_cons_self; cases hr

/-- What is granted comes to a pack operation on the streams of the session. -/
theorem Carries.of_attends {o : Verdict} (h : Carries service name path s t o s')
    (ht : ∀ x ∈ t, p.Attends service traffic exit x.1 x.2) :
    ∃ served, Ends (Git.PackService.Delivers traffic exit path)
      (p.serve service path s.packIo) served ∧
        o = served.result.map verdict ∧ s' = s.withIo served.io := by
  cases h with
  | fetched _ served => exact ⟨served, ht _ List.mem_cons_self, rfl, rfl⟩
  | pushed _ _ served =>
    exact ⟨served, ht _ (List.mem_append_right _ List.mem_cons_self), rfl, rfl⟩
  | unprepared _ hensures => cases hensures.of_attends ht
  | crashed _ hensures => cases hensures.of_attends ht

variable {root : String}

/-- An authorized request comes to a pack operation. -/
theorem does_dispatch_attended {o : Verdict} (h : Does (dispatch root) s t o s')
    (hwords : Git.Request.ofWords s.command = .pack service name)
    (hpath : Confine.repoPath root name = .ok path) (hname : name.isEmpty = false)
    (ht : ∀ x ∈ t, p.Attends service traffic exit x.1 x.2) :
    ∃ served, Ends (Git.PackService.Delivers traffic exit path)
      (p.serve service path s.packIo) served ∧
        o = served.result.map verdict ∧ s' = s.withIo served.io := by
  rcases (does_dispatch_of_confined hwords hpath hname).1 h with ⟨crash, rfl, -⟩ |
    ⟨level, t', rfl, ⟨hlevel, rfl, -⟩ | ⟨-, hcarries⟩⟩
  · obtain ⟨level, hlevel, -⟩ := ht _ List.mem_cons_self
    cases hlevel
  · obtain ⟨_, hanswer, hpermits⟩ := ht _ List.mem_cons_self
    cases hanswer
    exact absurd (permits_iff.1 hpermits) hlevel
  · exact hcarries.of_attends fun x hx ↦ ht x (List.mem_cons_of_mem _ hx)

end Dispatch

/-- What the client is sent behind the output of the program: nothing if all went well. -/
def trailer (io : PackIo) (traffic : Git.Traffic) (exit : Git.Exit) : List UInt8 :=
  if Git.PackService.GoesWell io traffic exit then []
  else Git.PktLine.encodeError "something went wrong"

/-- The session of a pack operation when it has ended. -/
structure Delivered (s : Session) (traffic : Git.Traffic) (exit : Git.Exit) (s' : Session) :
    Prop where
  stdout : s'.stdout =
    (s.stdout.receive (traffic.printed ++ trailer s.packIo traffic exit)).shutdown.2
  stderr : s'.stderr = (s.stderr.receive traffic.complained).shutdown.2
  exitStatus : s'.exitStatus =
    some (if Git.PackService.GoesWell s.packIo traffic exit then 0 else 1)

/-- The call that ends the session behind the exchange decides the status and sends the trailer. -/
theorem delivered_of_ends (call : OutputCall) {io : PackIo} (hs : s.isTerminated = false)
    (hcall : call.ends = true) (hstdout : io.stdout = s.stdout.receive traffic.printed)
    (hstderr : io.stderr = s.stderr.receive traffic.complained)
    (hpacket : call.packet = trailer s.packIo traffic exit)
    (hstatus : call.status? =
      some (if Git.PackService.GoesWell s.packIo traffic exit then 0 else 1)) :
    Delivered s traffic exit (call.make (s.withIo io)).2 := by
  have hopen : (s.withIo io).isTerminated = false := hs
  rw [Session.make_of_ends hopen hcall]
  refine ⟨?_, congrArg (fun sink : Sink ↦ sink.shutdown.2) hstderr, hstatus⟩
  rw [Sink.receive_append, ← hpacket]
  exact congrArg (fun sink : Sink ↦ (sink.receive call.packet).shutdown.2) hstdout

/-- The work of the transport ends the session of a pack operation. -/
theorem Stage.delivers {root : String} {o : Except Crash Unit}
    (h : Does (do
      match ← dispatch root with
      | .ok .passed => return ()
      | .ok .completed => Handler.exit 0
      | .error e =>
        Handler.emit (failureEvent (← get) e)
        Handler.fatal e) s t o s')
    (hs : s.isTerminated = false) (hwords : Git.Request.ofWords s.command = .pack service name)
    (hpath : Confine.repoPath root name = .ok path) (hname : name.isEmpty = false)
    (ht : ∀ x ∈ t, p.Attends service traffic exit x.1 x.2) :
    o = .ok () ∧ Delivered s traffic exit s' := by
  rcases does_bind_iff.1 h with ⟨crash, hdispatch, -⟩ | ⟨t₁, v, s₁, t₂, rfl, hdispatch, h⟩
  · obtain ⟨served, hserved, hv, -⟩ :=
      Dispatch.does_dispatch_attended hdispatch hwords hpath hname ht
    obtain ⟨-, -, r, hr, -⟩ := Git.PackService.ends_serve hserved
    rw [hr] at hv
    cases hv
  · obtain ⟨served, hserved, hv, rfl⟩ := Dispatch.does_dispatch_attended hdispatch hwords hpath
      hname fun x hx ↦ ht x (List.mem_append_left _ hx)
    obtain ⟨hstdout, hstderr, r, hr, hwell, hfailed⟩ := Git.PackService.ends_serve hserved
    rw [hr] at hv
    cases hv
    cases r with
    | ok =>
      have hgood := hwell.1 rfl
      obtain ⟨-, hend⟩ := Program.runs_done_iff.1 h
      cases hend
      exact ⟨rfl, delivered_of_ends (.exit 0) hs rfl hstdout hstderr
        (if_pos hgood).symm (congrArg some (if_pos hgood).symm)⟩
    | error e =>
      obtain ⟨f, rfl⟩ := hfailed e rfl
      have hbad : ¬ Git.PackService.GoesWell s.packIo traffic exit :=
        fun hgood ↦ nomatch hwell.2 hgood
      obtain ⟨t₃, rfl, hfatal⟩ := does_emit_bind_iff.1 (does_get_bind_iff.1 h)
      obtain ⟨-, hend⟩ := Program.runs_done_iff.1 hfatal
      cases hend
      exact ⟨rfl, delivered_of_ends (.fatal (.systemFailure f)) hs rfl hstdout hstderr
        (if_neg hbad).symm (congrArg some (if_neg hbad).symm)⟩

namespace Chain

/-- A course of the standard chain delivers what the program wrote. -/
theorem Course.delivers {config : Config} {turns : List Turn} {o : Except Crash Unit}
    (h : Course 0 (Chain.standard config) s t turns o s') (hs : s.isTerminated = false)
    (hwords : Git.Request.ofWords s.command = .pack service name)
    (hpath : Confine.repoPath config.reposPath name = .ok path) (hname : name.isEmpty = false)
    (ht : ∀ x ∈ t, p.Attends service traffic exit x.1 x.2) :
    o = .ok () ∧ Delivered s traffic exit s' := by
  have hcalm := Git.PackService.isCalm_of_attends ht
  have hof : Answerer.of s.command = .transport := Decidable.byContradiction fun hne ↦
    nomatch (Git.Request.ofWords_eq_other_iff.2 hne).symm.trans hwords
  obtain ⟨t₁, t₂, o₁, s₁, turns', rfl, hinner, hcontained⟩ := h.containment hs
  have hcalm₁ := (IsCalm.append_iff.1 hcalm).1
  obtain ⟨_, hinner, -⟩ :=
    hinner.of_serves_of_ne (Stage.serves_welcome config) hs hcalm₁ (by simp [hof])
  obtain ⟨_, hinner, -⟩ := hinner.of_serves_of_ne Stage.serves_builtins hs hcalm₁ (by simp [hof])
  rcases hinner.before hs with ⟨crash, rfl, hwork⟩ | ⟨t₃, t₄, s₂, _, rfl, hwork, hlog, -⟩
  · cases (Stage.delivers hwork hs hwords hpath hname fun x hx ↦ ht x (by simp [hx])).1
  · obtain ⟨rfl, rfl, rfl, -⟩ := hlog.accessLog
    obtain ⟨-, rfl, rfl, -⟩ := hcontained rfl
    exact ⟨rfl, (Stage.delivers hwork hs hwords hpath hname fun x hx ↦ ht x (by simp [hx])).2⟩

/-- **Pack output reaches the client unchanged.**  Take an authorized git session on a bare
repository, whatever its input and however much its streams take, and any order in which the input,
the two copies and the program move until the operation is over.  The client's output has received
what the program printed, with the packet of the general message behind it unless the program ended
well and both streams took everything, and its diagnostics what the program wrote to them, both cut
only where the stream takes no more; the status says which of the two it was.  The input is not
part of this, and what a script writes is told by its acts and by what it read. -/
theorem pack_output_reaches_client (config : Config) (p : Git.PackService) (s s' : Session)
    (o : Except Crash Unit) (service : Git.Service) (name : RepoName) (path : RepoPath)
    (traffic : Git.Traffic) (exit : Git.Exit) (hs : s.isTerminated = false)
    (hwords : Git.Request.ofWords s.command = .pack service name)
    (hpath : Confine.repoPath config.reposPath name = .ok path) (hname : name.isEmpty = false)
    (hends : Ends (p.Attends service traffic exit) ((run (standard config)).run.run s) (o, s')) :
    o = .ok () ∧
      s'.stdout =
        (s.stdout.receive (traffic.printed ++ trailer s.packIo traffic exit)).shutdown.2 ∧
      s'.stderr = (s.stderr.receive traffic.complained).shutdown.2 ∧
      s'.exitStatus =
        some (if Git.PackService.GoesWell s.packIo traffic exit then 0 else 1) ∧
      ∀ io child x, Git.Exchange.Turns (.start io child) x → x.isOver = true →
        ∃ t, Git.Exchange.Unfolds (.start io child) t x ∧
          t.printed = Git.Act.printed child.todo t.consumed ∧
          t.complained = Git.Act.complained child.todo ∧ x.child.exit = child.exit := by
  obtain ⟨t, hruns, ht⟩ := hends
  obtain ⟨turns, hcourse⟩ := does_run_iff.1 hruns
  obtain ⟨rfl, hdelivered⟩ := hcourse.delivers hs hwords hpath hname ht
  refine ⟨rfl, hdelivered.stdout, hdelivered.stderr, hdelivered.exitStatus, ?_⟩
  intro io child x hturns hover
  obtain ⟨t, hfollows⟩ := hturns.follows
  have hended : x.hasEnded = true := (Bool.and_eq_true_iff.1 hover).2
  exact ⟨t, hfollows.unfolds, hfollows.printed rfl hended, hfollows.complained rfl hended,
    hfollows.exit⟩

end Chain

end Session

/-! ### A push that is cut off -/

namespace Scripted

/-- A host with one repository, whose git program prints `PACK`, complains and fails. -/
def failingHost : Host where
  disk.top := .dir true [(.text "srv", .dir true [(.text "repos", .dir true
    [(.text "x.git", .dir true [(.text "HEAD", .file [])])])])]
  git := some { pack := { stdout := [80, 65, 67, 75], stderr := [33], status := 1 } }

/-- Surroundings that let everybody push, and serve the repositories of that host. -/
def openReply : (q : Ask) → q.Answer
  | .emit _ => ()
  | .accessLevel _ _ => .ok .readWrite
  | .allowKeyless => .ok true
  | .lookup name => .ok (.ok ⟨name, "", false⟩)
  | .create name isPrivate => .ok (.ok ⟨name, "", isPrivate⟩)
  | .list => .ok (.ok [])
  | .serve service path io => (failingHost.run (({} : Git.PackService).serve service path io)).1

/-- A push of a client whose input fails and whose output takes six bytes. -/
def cutSession : Session where
  command := ["git-receive-pack", "x"]
  stdin := { bytes := [1, 2], fails := true }
  stdout := { limit := some 6 }

/-- The path of the repository. -/
def cutPath : RepoPath := ⟨[.root, .normal "srv", .normal "repos", .normal "x.git"]⟩

/-- The exchange of the push. -/
def cutExchange : Git.Exchange :=
  .start cutSession.packIo ⟨[.print [80, 65, 67, 75], .complain [33]], .status 1⟩

theorem run_serve_failingHost :
    failingHost.run (({} : Git.PackService).serve .receivePack cutPath cutSession.packIo) =
      (⟨cutExchange.run.io, .ok (Git.PackService.judge .receivePack cutExchange.run)⟩,
        failingHost) := by
  have hbare : Store.isBare (Program.run Host.answer (OnHost.ask .disk) failingHost).1
      cutPath.text = true := by decide +kernel
  refine (Program.run_bind Host.answer (OnHost.ask .disk) _ failingHost).trans ?_
  rw [if_pos hbare]
  rfl

/-- Whether a question asks the pack service for nothing but the cut push. -/
def asksCutPush : Ask → Bool
  | .serve service path io => service == .receivePack && path == cutPath && io == cutSession.packIo
  | _ => true

/-- The client gets what the program printed and two bytes of the packet behind it, and the session
fails. -/
theorem cut_push_delivered :
    let p : Asking (Except Crash Unit × Session) :=
      (Chain.run (Chain.standard { dataPath := "/srv" })).run.run cutSession
    let s' := (p.run (fun q (_ : Unit) ↦ (openReply q, ())) ()).1.2
    cutSession.isTerminated = false ∧
      Git.Request.ofWords cutSession.command = .pack .receivePack (.sanitize "x") ∧
      Confine.repoPath "/srv/repos" (.sanitize "x") = .ok cutPath ∧
      s'.stdout = { limit := some 6, written := [80, 65, 67, 75, 48, 48], shutdowns := 1 } ∧
      s'.stderr = { written := [33], shutdowns := 1 } ∧ s'.exitStatus = some 1 := by
  intro p s'
  obtain ⟨traffic, hfollows⟩ := (Git.Exchange.turns_run cutExchange).follows
  have hover : cutExchange.run.isOver = true := by decide +kernel
  have hended : cutExchange.run.hasEnded = true := (Bool.and_eq_true_iff.1 hover).2
  have hprinted : traffic.printed = [80, 65, 67, 75] := hfollows.printed rfl hended
  have hcomplained : traffic.complained = [33] := hfollows.complained rfl hended
  have hbare : Store.isBare failingHost.disk cutPath.text = true := by decide +kernel
  have hserve : Ends (Git.PackService.Delivers traffic (.status 1) cutPath)
      (({} : Git.PackService).serve .receivePack cutPath cutSession.packIo)
      (failingHost.run (({} : Git.PackService).serve .receivePack cutPath cutSession.packIo)).1 := by
    rw [run_serve_failingHost]
    refine Program.ends_ask_iff.2 ⟨failingHost.disk, hbare, ?_⟩
    rw [Program.bind_done, if_pos hbare]
    exact Program.ends_ask_iff.2 ⟨.ok cutExchange.run,
      ⟨_, _, rfl, hfollows.unfolds, hover, hfollows.exit⟩, Program.ends_done_iff.2 rfl⟩
  have hasked : (p.transcript (fun q (_ : Unit) ↦ (openReply q, ())) ()).all
      (fun c ↦ asksCutPush c.1) = true := by decide +kernel
  have hends : Ends (({} : Git.PackService).Attends .receivePack traffic (.status 1)) p
      (p.run (fun q (_ : Unit) ↦ (openReply q, ())) ()).1 := by
    refine ⟨_, Program.runs_transcript _ p (), fun c hc ↦ ?_⟩
    obtain ⟨q, answer⟩ := c
    obtain ⟨_, rfl⟩ : ∃ _, answer = openReply q := Program.exists_of_mem_transcript hc
    have hq := List.all_eq_true.1 hasked _ hc
    cases q with
    | emit => trivial
    | accessLevel name key => exact ⟨.readWrite, rfl, rfl⟩
    | lookup name => exact ⟨_, rfl⟩
    | serve service path io =>
      simp only [asksCutPush, Bool.and_eq_true, beq_iff_eq] at hq
      obtain ⟨⟨rfl, rfl⟩, rfl⟩ := hq
      exact hserve
    | allowKeyless | create | list => rfl
  have hpath : Confine.repoPath "/srv/repos" (.sanitize "x") = .ok cutPath := by rfl
  obtain ⟨-, hstdout, hstderr, hstatus, -⟩ := Chain.pack_output_reaches_client
    { dataPath := "/srv" } {} cutSession s' _ .receivePack (.sanitize "x") cutPath traffic
    (.status 1) rfl rfl hpath (by decide) hends
  have hbad : ¬ Git.PackService.GoesWell cutSession.packIo traffic (.status 1) :=
    fun hgood ↦ absurd hgood.1 (by decide)
  refine ⟨rfl, rfl, hpath, hstdout.trans ?_, hstderr.trans ?_, hstatus.trans ?_⟩
  · rw [trailer, if_neg hbad, hprinted]
    decide +kernel
  · rw [hcomplained]
    rfl
  · rw [if_neg hbad]

end Scripted

end GitGateway
