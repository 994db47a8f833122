import GitGateway.Proofs.Outputs
import GitGateway.Proofs.Records

/-!
# Causes stay inside

A refusal of the store, a failed pack operation and a crash carry explanations.  They are for the
log, and a client must not be able to tell two of them apart.  This is a statement about two runs.
Two answers are **alike** if they differ in explanations only, and two transcripts **agree** if, as
long as the same is asked in both, the answers are alike.  Then the client is sent the same.

Nothing is assumed about two transcripts once different things are asked, so it has to be shown that
this never happens: that no explanation reaches a question, a decision or a stream.  `Handler.Alike`
says so of each part of a session.  Only the events that are reported may differ, and no part of a
session is answered anything to them.
-/

namespace GitGateway

open Handler

/-! ## Answers up to their explanations -/

/-- Two ends are alike up to a relation on errors and one on values. -/
inductive EndsAlike {ε α : Type} (error : ε → ε → Prop) (value : α → α → Prop) :
    Except ε α → Except ε α → Prop where
  | ok {a a' : α} (h : value a a') : EndsAlike error value (.ok a) (.ok a')
  | error {e e' : ε} (h : error e e') : EndsAlike error value (.error e) (.error e')

/-- Any two crashes are alike: all that a crash carries is a text. -/
abbrev RunsAlike {α : Type} (value : α → α → Prop) : Except Crash α → Except Crash α → Prop :=
  EndsAlike (fun _ _ ↦ True) value

/-- Refusals that differ in explanations only. -/
inductive BackendError.Alike : BackendError → BackendError → Prop where
  | notFound : Alike .notFound .notFound
  | alreadyExists : Alike .alreadyExists .alreadyExists
  | other (f f' : Failure) : Alike (.other f) (.other f')

/-- Failures of pack operations that differ in explanations only. -/
inductive PackError.Alike : PackError → PackError → Prop where
  | invalidRepository : Alike .invalidRepository .invalidRepository
  | failed (f f' : Failure) : Alike (.failed f) (.failed f')

/-- Causes of a session's end that the client is told in the same words. -/
def SessionError.Alike (e e' : SessionError) : Prop := e.clientMessage = e'.clientMessage

/-- Answers that differ in explanations only. -/
def Ask.Alike : (q : Ask) → q.Answer → q.Answer → Prop
  | .emit _ => fun _ _ ↦ True
  | .accessLevel _ _ | .allowKeyless => RunsAlike Eq
  | .lookup _ | .create _ _ | .list => RunsAlike (EndsAlike BackendError.Alike Eq)
  | .serve _ _ _ => fun served served' ↦ served.io = served'.io ∧
      RunsAlike (EndsAlike PackError.Alike Eq) served.result served'.result

/-- Questions with alike answers, and any two reports. -/
inductive Call.Alike : Call → Call → Prop where
  | emit (e e' : LogEvent) : Alike ⟨.emit e, ()⟩ ⟨.emit e', ()⟩
  | ask {q : Ask} {a a' : q.Answer} (h : q.Alike a a') : Alike ⟨q, a⟩ ⟨q, a'⟩

/-- Whether two questions are the same but for what they report. -/
inductive Ask.IsSame : Ask → Ask → Prop where
  | emit (e e' : LogEvent) : IsSame (.emit e) (.emit e')
  | refl (q : Ask) : IsSame q q

/-- Two transcripts agree if, as long as the same is asked, the answers are alike. -/
def Agree : List Call → List Call → Prop
  | c :: t, c' :: t' => Ask.IsSame c.1 c'.1 → c.Alike c' ∧ Agree t t'
  | _, _ => True

/-- Surroundings that have no memory and answer every question alike have agreeing transcripts, of
whatever they are asked. -/
theorem agree_of_replies {reply reply' : (q : Ask) → q.Answer}
    (h : ∀ q : Ask, q.Alike (reply q) (reply' q)) {α : Type} (p p' : Asking α) :
    Agree (p.transcript (fun q (_ : Unit) ↦ (reply q, ())) ())
      (p'.transcript (fun q (_ : Unit) ↦ (reply' q, ())) ()) := by
  induction p generalizing p' with
  | done => trivial
  | ask q next ih =>
    cases p' with
    | done => trivial
    | ask q' next' =>
      refine fun hsame ↦ ⟨?_, ih _ _⟩
      cases hsame with
      | emit e e' => exact .emit e e'
      | refl => exact .ask (h q)

/-! ## Alike computations -/

/-- Two computations that alike answers lead through a session in the same way, to alike values. -/
def Handler.Alike {α : Type} (value : α → α → Prop) (h h' : Handler α) : Prop :=
  ∀ s t t' o o' s₁ s₁' u u', Does h s t o s₁ → Does h' s t' o' s₁' → Agree (t ++ u) (t' ++ u') →
    RunsAlike value o o' ∧ s₁ = s₁' ∧ Agree u u'

namespace Handler.Alike

variable {α β : Type} {value : α → α → Prop} {value' : β → β → Prop} {h h' : Handler α}
variable {f f' : α → Handler β}

theorem bind (hh : Alike value h h') (hf : ∀ a a', value a a' → Alike value' (f a) (f' a')) :
    Alike value' (h >>= f) (h' >>= f') := by
  intro s t t' o o' s₁ s₁' u u' hdoes hdoes' hagree
  rcases does_bind_iff.1 hdoes with ⟨crash, h₁, rfl⟩ | ⟨t₁, a, s₂, t₂, rfl, h₁, h₂⟩ <;>
    rcases does_bind_iff.1 hdoes' with ⟨crash', h₁', rfl⟩ | ⟨t₁', a', s₂', t₂', rfl, h₁', h₂'⟩
  · obtain ⟨-, hs, hrest⟩ := hh _ _ _ _ _ _ _ _ _ h₁ h₁' hagree
    exact ⟨.error trivial, hs, hrest⟩
  · rw [List.append_assoc] at hagree
    cases (hh _ _ _ _ _ _ _ _ _ h₁ h₁' hagree).1
  · rw [List.append_assoc] at hagree
    cases (hh _ _ _ _ _ _ _ _ _ h₁ h₁' hagree).1
  · rw [List.append_assoc, List.append_assoc] at hagree
    obtain ⟨hvalue, rfl, hrest⟩ := hh _ _ _ _ _ _ _ _ _ h₁ h₁' hagree
    cases hvalue with
    | ok hvalue => exact hf a a' hvalue _ _ _ _ _ _ _ _ _ h₂ h₂' hrest

theorem pure {a a' : α} (ha : value a a') :
    Alike value (Pure.pure a : Handler α) (Pure.pure a') := by
  intro s t t' o o' s₁ s₁' u u' hdoes hdoes' hagree
  obtain ⟨rfl, rfl, rfl⟩ := does_pure_iff.1 hdoes
  obtain ⟨rfl, rfl, rfl⟩ := does_pure_iff.1 hdoes'
  exact ⟨.ok ha, rfl, hagree⟩

theorem resume {o o' : Except Crash α} (ho : RunsAlike value o o') :
    Alike value (Handler.resume o) (Handler.resume o') := by
  intro s t t' r r' s₁ s₁' u u' hdoes hdoes' hagree
  obtain ⟨rfl, rfl, rfl⟩ := does_resume_iff.1 hdoes
  obtain ⟨rfl, rfl, rfl⟩ := does_resume_iff.1 hdoes'
  exact ⟨ho, rfl, hagree⟩

theorem outcome (hh : Alike value h h') :
    Alike (RunsAlike value) h.outcome h'.outcome := by
  intro s t t' r r' s₁ s₁' u u' hdoes hdoes' hagree
  obtain ⟨o, rfl, h₁⟩ := does_outcome_iff.1 hdoes
  obtain ⟨o', rfl, h₁'⟩ := does_outcome_iff.1 hdoes'
  obtain ⟨ho, hs, hrest⟩ := hh _ _ _ _ _ _ _ _ _ h₁ h₁' hagree
  exact ⟨.ok ho, hs, hrest⟩

theorem get_bind {f f' : Session → Handler α} (hf : ∀ s, Alike value (f s) (f' s)) :
    Alike value (get >>= f) (get >>= f') :=
  fun s _ _ _ _ _ _ _ _ hdoes hdoes' ↦
    hf s s _ _ _ _ _ _ _ _ (does_get_bind_iff.1 hdoes) (does_get_bind_iff.1 hdoes')

theorem modify {g g' : Session → Session} (hg : ∀ s, g s = g' s) :
    Alike Eq (modify g : Handler Unit) (modify g') := by
  intro s t t' o o' s₁ s₁' u u' hdoes hdoes' hagree
  obtain ⟨rfl, hr⟩ := Program.runs_done_iff.1 hdoes
  obtain ⟨rfl, hr'⟩ := Program.runs_done_iff.1 hdoes'
  cases hr
  cases hr'
  exact ⟨.ok rfl, hg s, hagree⟩

/-- What is reported makes no difference. -/
theorem emit (e e' : LogEvent) : Alike Eq (Handler.emit e) (Handler.emit e') := by
  intro s t t' o o' s₁ s₁' u u' hdoes hdoes' hagree
  obtain ⟨⟨⟩, rfl, hr⟩ := Program.runs_ask_done_iff.1 hdoes
  obtain ⟨⟨⟩, rfl, hr'⟩ := Program.runs_ask_done_iff.1 hdoes'
  cases hr
  cases hr'
  exact ⟨.ok rfl, rfl, (hagree (.emit e e')).2⟩

/-- What asks one question and hands the answer on is alike to itself if alike answers are alike
values. -/
theorem call {q : Ask} {answer : Except Crash α → q.Answer}
    (hcall : ∀ {s t o s'}, Does h s t o s' ↔ t = [⟨q, answer o⟩] ∧ s' = s)
    (halike : ∀ {o o'}, Call.Alike ⟨q, answer o⟩ ⟨q, answer o'⟩ → RunsAlike value o o') :
    Alike value h h := by
  intro s t t' o o' s₁ s₁' u u' hdoes hdoes' hagree
  obtain ⟨rfl, rfl⟩ := hcall.1 hdoes
  obtain ⟨rfl, rfl⟩ := hcall.1 hdoes'
  obtain ⟨hc, hrest⟩ := hagree (.refl q)
  exact ⟨halike hc, rfl, hrest⟩

theorem accessLevel (name : RepoName) (key : Option ClientKey) :
    Alike Eq (Handler.accessLevel name key) (Handler.accessLevel name key) :=
  call (q := .accessLevel name key) does_accessLevel_iff fun | .ask h => h

theorem lookup (name : RepoName) :
    Alike (EndsAlike BackendError.Alike Eq) (Handler.lookup name) (Handler.lookup name) :=
  call (q := .lookup name) does_lookup_iff fun | .ask h => h

theorem create (name : RepoName) (isPrivate : Bool) :
    Alike (EndsAlike BackendError.Alike Eq) (Handler.create name isPrivate)
      (Handler.create name isPrivate) :=
  call (q := .create name isPrivate) does_create_iff fun | .ask h => h

theorem list : Alike (EndsAlike BackendError.Alike Eq) Handler.list Handler.list :=
  call (q := .list) Program.runs_ask_pair_iff fun | .ask h => h

theorem serve (service : Git.Service) (path : RepoPath) :
    Alike (EndsAlike PackError.Alike Eq) (Handler.serve service path)
      (Handler.serve service path) := by
  intro s t t' o o' s₁ s₁' u u' hdoes hdoes' hagree
  obtain ⟨served, rfl, rfl, rfl⟩ := does_serve_iff.1 hdoes
  obtain ⟨served', rfl, rfl, rfl⟩ := does_serve_iff.1 hdoes'
  obtain ⟨hc, hrest⟩ := hagree (.refl _)
  cases hc with
  | ask h => exact ⟨h.2, by rw [h.1], hrest⟩

/-- A session is ended alike by causes that the client is told in the same words. -/
theorem fatal {e e' : SessionError} (he : e.Alike e') :
    Alike Eq (Handler.fatal e) (Handler.fatal e') :=
  modify fun s ↦ by rw [Session.fatal, Session.fatal, he]; rfl

end Handler.Alike

/-! ## Dispatching -/

namespace Dispatch

/-- The ends of a dispatch that a client cannot tell apart. -/
abbrev Alike {α : Type} : Except SessionError α → Except SessionError α → Prop :=
  EndsAlike SessionError.Alike Eq

theorem alike_confine (root : String) (name : RepoName) :
    Handler.Alike Eq (confine root name) (confine root name) := by
  unfold confine
  cases Confine.repoPath root name with
  | ok path => exact .pure rfl
  | error e => exact .bind (.emit _ _) fun _ _ _ ↦ .pure rfl

theorem alike_awaitWinner (name : RepoName) :
    Handler.Alike Alike (awaitWinner name) (awaitWinner name) := by
  refine .bind (.lookup name) fun found found' h ↦ ?_
  cases h with
  | ok => exact .pure (.ok rfl)
  | error => exact .pure (.error rfl)

theorem alike_createMissing (name : RepoName) :
    Handler.Alike Alike (createMissing name) (createMissing name) := by
  refine .bind (.create name false) fun made made' h ↦ ?_
  cases h with
  | ok => exact .bind (.emit _ _) fun _ _ _ ↦ .pure (.ok rfl)
  | error h =>
    cases h with
    | alreadyExists => exact alike_awaitWinner name
    | notFound | other => exact .pure (.error rfl)

theorem alike_ensureRepository (name : RepoName) :
    Handler.Alike Alike (ensureRepository name) (ensureRepository name) := by
  refine .bind (.lookup name) fun found found' h ↦ ?_
  cases h with
  | ok => exact .pure (.ok rfl)
  | error h =>
    cases h with
    | notFound => exact alike_createMissing name
    | alreadyExists | other => exact .pure (.error rfl)

theorem alike_serve (service : Git.Service) (path : RepoPath) :
    Handler.Alike Alike (serve service path) (serve service path) := by
  refine .bind (.serve service path) fun result result' h ↦ ?_
  cases h with
  | ok => exact .pure (.ok rfl)
  | error h => cases h <;> exact .pure (.error rfl)

theorem alike_serveAuthorized (service : Git.Service) (name : RepoName) (path : RepoPath) :
    Handler.Alike Alike (serveAuthorized service name path)
      (serveAuthorized service name path) := by
  cases service with
  | receivePack =>
    refine .bind (alike_ensureRepository name) fun ensured ensured' h ↦ ?_
    cases h with
    | ok => exact alike_serve _ path
    | error h => exact .pure (.error h)
  | uploadPack | uploadArchive => exact alike_serve _ path

theorem alike_request (root : String) (service : Git.Service) (name : RepoName) :
    Handler.Alike Alike (request root service name) (request root service name) := by
  refine .bind (alike_confine root name) ?_
  rintro confined _ rfl
  cases confined with
  | error e => exact .pure (.error rfl)
  | ok path =>
    dsimp only
    split
    · exact .pure (.error rfl)
    · refine .get_bind fun s ↦ .bind (.accessLevel name s.key) ?_
      rintro level _ rfl
      split
      · exact alike_serveAuthorized service name path
      · exact .pure (.error rfl)

theorem alike_dispatch (root : String) : Handler.Alike Alike (dispatch root) (dispatch root) := by
  refine .get_bind fun s ↦ ?_
  cases Git.Request.ofWords s.command with
  | other => exact .pure (.ok rfl)
  | pack service name => exact alike_request root service name

end Dispatch

/-! ## Stages -/

namespace Stage

/-- Ways to leave a stage that are alike after alike ends of the rest. -/
def LeavesAlike (leave leave' : Leave) : Prop :=
  ∀ o o', RunsAlike Eq o o' → Handler.Alike Eq (leave o) (leave' o')

/-- A stage that lets no explanation out: alike answers lead through it in the same way, and after
alike ends of the rest. -/
def IsDiscreet (stage : Stage) : Prop :=
  Handler.Alike (Option.Rel LeavesAlike) stage.enter stage.enter

theorem isDiscreet_before {work : Handler Unit} (h : Handler.Alike Eq work work) :
    (Stage.before work).IsDiscreet :=
  .bind h fun _ _ _ ↦ .pure (.some fun _ _ ho ↦ .resume ho)

theorem isDiscreet_containment : containment.IsDiscreet := by
  refine .pure (.some fun o o' ho ↦ ?_)
  cases ho with
  | ok => exact .pure rfl
  | error => exact .get_bind fun s ↦ .bind (.emit _ _) fun _ _ _ ↦ .fatal rfl

theorem isDiscreet_accessLog : accessLog.IsDiscreet :=
  .pure (.some fun _ _ ho ↦ .bind (.resume ho) fun _ _ _ ↦ .get_bind fun _ ↦ .emit _ _)

theorem alike_readable (names : List RepoName) :
    Handler.Alike Eq (readable names) (readable names) := by
  induction names with
  | nil => exact .pure rfl
  | cons name rest ih =>
    refine .get_bind fun s ↦ .bind (.accessLevel name s.key) ?_
    rintro level _ rfl
    refine .bind ih ?_
    rintro others _ rfl
    exact .pure rfl

theorem alike_readableRepositories :
    Handler.Alike Eq readableRepositories readableRepositories := by
  refine .bind .list fun names names' h ↦ ?_
  cases h with
  | ok h => exact h ▸ alike_readable _
  | error => exact .bind (.emit _ _) fun _ _ _ ↦ .pure rfl

theorem isDiscreet_welcome (config : Config) : (welcome config).IsDiscreet := by
  refine isDiscreet_before (.get_bind fun s ↦ ?_)
  split
  · refine .bind alike_readableRepositories ?_
    rintro repos _ rfl
    exact .bind (.modify fun _ ↦ rfl) fun _ _ _ ↦ .modify fun _ ↦ rfl
  · exact .pure rfl

theorem alike_answer (command : List String) :
    Handler.Alike Eq (answer command) (answer command) := by
  unfold answer
  split
  · exact .pure rfl
  · refine .get_bind fun s ↦ .bind (.accessLevel _ s.key) ?_
    rintro level _ rfl
    exact .pure rfl
  · refine .bind alike_readableRepositories ?_
    rintro repos _ rfl
    exact .pure rfl
  · exact .pure rfl

theorem isDiscreet_builtins : builtins.IsDiscreet := by
  refine isDiscreet_before (.get_bind fun s ↦ ?_)
  dsimp only
  split
  · refine .bind (alike_answer s.command) ?_
    rintro text? _ rfl
    cases text? with
    | some text => exact .bind (.modify fun _ ↦ rfl) fun _ _ _ ↦ .modify fun _ ↦ rfl
    | none =>
      exact .get_bind fun s ↦ .bind (.emit _ _) fun _ _ _ ↦
        .bind (.modify fun _ ↦ rfl) fun _ _ _ ↦ .modify fun _ ↦ rfl
  · exact .pure rfl

theorem isDiscreet_transport (root : String) : (transport root).IsDiscreet := by
  refine isDiscreet_before (.bind (Dispatch.alike_dispatch root) fun verdict verdict' h ↦ ?_)
  cases h with
  | @ok dispatched _ h =>
    obtain rfl := h
    cases dispatched with
    | passed => exact .pure rfl
    | completed => exact .modify fun _ ↦ rfl
  | error h => exact .get_bind fun s ↦ .bind (.emit _ _) fun _ _ _ ↦ .fatal h

end Stage

namespace Chain

/-- A chain of discreet stages lets no explanation out. -/
theorem alike_run {stages : List Stage} (h : ∀ stage ∈ stages, stage.IsDiscreet) :
    Handler.Alike Eq (run stages) (run stages) := by
  induction stages with
  | nil => exact .pure rfl
  | cons stage rest ih =>
    have hrest := ih fun stage hstage ↦ h stage (List.mem_cons_of_mem _ hstage)
    rw [run]
    refine .get_bind fun s ↦ ?_
    split
    · exact hrest
    · refine .bind (h stage List.mem_cons_self) fun leave? leave?' hleave ↦ ?_
      cases hleave with
      | none => exact .pure rfl
      | some hleave => exact .bind hrest.outcome fun o o' ho ↦ hleave o o' ho

/-- Every stage of the standard chain is discreet. -/
theorem isDiscreet_of_mem_standard {config : Config} {stage : Stage}
    (h : stage ∈ standard config) : stage.IsDiscreet := by
  simp only [standard, List.mem_cons, List.not_mem_nil, or_false] at h
  rcases h with rfl | rfl | rfl | rfl | rfl
  · exact Stage.isDiscreet_containment
  · exact Stage.isDiscreet_welcome config
  · exact Stage.isDiscreet_builtins
  · exact Stage.isDiscreet_transport config.reposPath
  · exact Stage.isDiscreet_accessLog

end Chain

/-! ## What a failed command adds -/

/-- What a client can be told about a failed command. -/
def SessionError.clientMessages : List String :=
  ["you are not authorized to do this", "invalid repo", "something went wrong"]

theorem SessionError.clientMessage_mem (e : SessionError) : e.clientMessage ∈ clientMessages := by
  cases e <;> simp [clientMessage, clientMessages]

namespace Session

/-- The session as the pack operations of a transcript leave it. -/
def leftBy (s : Session) : List Call → Session
  | [] => s
  | ⟨.serve _ _ _, served⟩ :: t => (s.withIo served.io).leftBy t
  | _ :: t => s.leftBy t

variable {s : Session} {t : List Call}

theorem leftBy_append (s : Session) (t t' : List Call) :
    s.leftBy (t ++ t') = (s.leftBy t).leftBy t' := by
  fun_induction leftBy s t <;> simp_all [leftBy]

theorem leftBy_isTerminated (s : Session) (t : List Call) :
    (s.leftBy t).isTerminated = s.isTerminated := by
  fun_induction leftBy s t with
  | case1 => rfl
  | case2 s _ _ _ served t ih => exact ih
  | case3 s c t _ ih => exact ih

theorem leftBy_of_notMem
    (h : ∀ service path io served, (⟨.serve service path io, served⟩ : Call) ∉ t) :
    s.leftBy t = s := by
  fun_induction leftBy s t with
  | case1 => rfl
  | case2 => exact absurd List.mem_cons_self (h _ _ _ _)
  | case3 s c t _ ih => exact ih fun _ _ _ _ hc ↦ h _ _ _ _ (List.mem_cons_of_mem _ hc)

end Session

namespace Dispatch

variable {root : String} {s s' : Session} {t : List Call} {o : Verdict}

/-- A dispatch changes nothing about the session but by its pack operation. -/
theorem Carries.eq_leftBy {service : Git.Service} {name : RepoName} {path : RepoPath}
    (h : Carries service name path s t o s') : s' = s.leftBy t := by
  cases h with
  | fetched => rfl
  | pushed _ ht served =>
    rw [Session.leftBy_append, Session.leftBy_of_notMem fun _ _ _ _ ↦ ht.serve_notMem]
    rfl
  | unprepared _ ht | crashed _ ht =>
    exact (Session.leftBy_of_notMem fun _ _ _ _ ↦ ht.serve_notMem).symm

theorem Conduct.eq_leftBy (h : Conduct root s t o s') : s' = s.leftBy t := by
  cases h with
  | granted _ _ _ _ ht => exact ht.eq_leftBy
  | passed | escaped | unnamed | crashed | denied => rfl

/-- A dispatch passes on only what is no git request. -/
theorem Conduct.ne_passed (h : Conduct root s t o s')
    (hwords : Git.Request.ofWords s.command ≠ .other) : o ≠ .ok (.ok .passed) := by
  cases h with
  | passed h => exact absurd h hwords
  | escaped | unnamed | crashed | denied => simp
  | granted _ _ _ _ ht =>
    cases ht with
    | fetched _ served | pushed _ _ served =>
      rcases served.result with crash | (_ | _) | ⟨⟩ <;> simp [Except.map, verdict]
    | unprepared | crashed => simp

end Dispatch

namespace Stage

/-- A stage that has nothing to do for git requests. -/
def PassesGit (stage : Stage) : Prop :=
  ∃ work, stage = .before work ∧ ∀ s t o s', Git.Request.ofWords s.command ≠ .other →
    Does work s t o s' → t = [] ∧ o = .ok () ∧ s' = s

theorem passesGit_welcome (config : Config) : (welcome config).PassesGit := by
  refine ⟨_, rfl, fun s t o s' hwords h ↦ ?_⟩
  have hcommand : ¬ s.command.isEmpty = true := fun hempty ↦ by
    rw [List.isEmpty_iff.1 hempty] at hwords
    exact hwords rfl
  rw [does_get_bind_iff, if_neg hcommand] at h
  exact does_pure_iff.1 h

theorem passesGit_builtins : builtins.PassesGit := by
  refine ⟨_, rfl, fun s t o s' hwords h ↦ ?_⟩
  have hbuiltin : ¬ isBuiltin s.command = true := fun hbuiltin ↦
    hwords (Git.Request.ofWords_eq_other_iff.2 (by simp [isBuiltin_iff.1 hbuiltin]))
  rw [does_get_bind_iff, if_neg hbuiltin] at h
  exact does_pure_iff.1 h

/-- The transport ends a git request on the streams as its pack operation left them, well or with an
error, unless a crash keeps it from that. -/
theorem settles_transport (root : String) : ∃ work, transport root = .before work ∧
    ∀ s t o s', Git.Request.ofWords s.command ≠ .other → Does work s t o s' →
      (∃ crash, o = .error crash ∧ s' = s.leftBy t) ∨
        o = .ok () ∧ (s' = (s.leftBy t).exit 0 ∨ ∃ e, s' = (s.leftBy t).fatal e) := by
  refine ⟨_, rfl, fun s t o s' hwords h ↦ ?_⟩
  rcases does_bind_iff.1 h with ⟨crash, hdispatch, rfl⟩ | ⟨t₁, v, s₁, t₂, rfl, hdispatch, h⟩
  · exact .inl ⟨crash, rfl, (Dispatch.does_dispatch_iff.1 hdispatch).eq_leftBy⟩
  · have hconduct := Dispatch.does_dispatch_iff.1 hdispatch
    obtain rfl := hconduct.eq_leftBy
    refine .inr ?_
    rcases v with e | _ | _
    · rw [does_get_bind_iff] at h
      obtain ⟨t₃, rfl, hfatal⟩ := does_emit_bind_iff.1 h
      obtain ⟨rfl, hr⟩ := Program.runs_done_iff.1 hfatal
      cases hr
      rw [Session.leftBy_append]
      exact ⟨rfl, .inr ⟨e, rfl⟩⟩
    · exact absurd rfl (hconduct.ne_passed hwords)
    · obtain ⟨rfl, hr⟩ := Program.runs_done_iff.1 h
      cases hr
      rw [List.append_nil]
      exact ⟨rfl, .inl rfl⟩

end Stage

namespace Chain

variable {n : Nat} {stage : Stage} {rest : List Stage} {s s' : Session} {t : List Call}
variable {turns : List Turn} {o : Except Crash Unit}

/-- A git request passes a stage that has nothing to do for it. -/
theorem Course.of_passesGit (h : Course n (stage :: rest) s t turns o s') (hstage : stage.PassesGit)
    (hs : s.isTerminated = false) (hwords : Git.Request.ofWords s.command ≠ .other) :
    ∃ turns', Course (n + 1) rest s t turns' o s' := by
  obtain ⟨work, rfl, hwork⟩ := hstage
  rcases h.before hs with ⟨crash, rfl, hdoes⟩ | ⟨t₁, t₂, s₁, turns', rfl, hdoes, hrest, -⟩
  · cases (hwork _ _ _ _ hwords hdoes).2.1
  · obtain ⟨rfl, -, rfl⟩ := hwork _ _ _ _ hwords hdoes
    exact ⟨turns', hrest⟩

/-- In the standard chain only the transport and the access log see a git request, inside the
containment. -/
theorem Course.of_git {config : Config} (h : Course 0 (Chain.standard config) s t turns o s')
    (hs : s.isTerminated = false) (hwords : Git.Request.ofWords s.command ≠ .other) :
    ∃ t₁ t₂ o₁ s₁ turns', t = t₁ ++ t₂ ∧
      Course 3 [.transport config.reposPath, .accessLog] s t₁ turns' o₁ s₁ ∧ o = .ok () ∧
      (o₁ = .ok () ∧ t₂ = [] ∧ s' = s₁ ∨
        ∃ crash, o₁ = .error crash ∧ t₂ = [⟨.emit (Stage.crashEvent s₁ crash), ()⟩] ∧
          s' = s₁.fatal (Stage.crashFailure crash)) := by
  obtain ⟨t₁, t₂, o₁, s₁, turns₁, rfl, hinner, -, ho, hend⟩ := h.contained hs
  obtain ⟨turns₂, hinner⟩ := hinner.of_passesGit (Stage.passesGit_welcome config) hs hwords
  obtain ⟨turns₃, hinner⟩ := hinner.of_passesGit Stage.passesGit_builtins hs hwords
  exact ⟨t₁, t₂, o₁, s₁, turns₃, rfl, hinner, ho, hend⟩

/-- The standard chain ends a git request on the streams as its pack operation left them. -/
theorem Course.settled {config : Config} (h : Course 0 (Chain.standard config) s t turns o s')
    (hs : s.isTerminated = false) (hwords : Git.Request.ofWords s.command ≠ .other) :
    s' = (s.leftBy t).exit 0 ∨ ∃ e, s' = (s.leftBy t).fatal e := by
  obtain ⟨t₁, t₂, o₁, s₁, turns', rfl, hinner, rfl, hend⟩ := h.of_git hs hwords
  obtain ⟨work, htransport, hwork⟩ := Stage.settles_transport config.reposPath
  rw [htransport] at hinner
  rcases hinner.before hs with ⟨crash, rfl, hdoes⟩ | ⟨t₃, t₄, s₂, _, rfl, hdoes, hlog, -⟩
  · rcases hwork _ _ _ _ hwords hdoes with ⟨_, -, rfl⟩ | ⟨ho, -⟩
    · rcases hend with ⟨ho, -⟩ | ⟨crash', -, rfl, rfl⟩
      · cases ho
      · rw [Session.leftBy_append]
        exact .inr ⟨_, rfl⟩
    · cases ho
  · obtain ⟨rfl, rfl, rfl, -⟩ := hlog.accessLog
    rcases hend with ⟨-, rfl, rfl⟩ | ⟨crash, ho, -⟩
    · rcases hwork _ _ _ _ hwords hdoes with ⟨_, ho, -⟩ | ⟨-, hsettled⟩
      · cases ho
      · rw [List.append_nil, Session.leftBy_append]
        exact hsettled
    · cases ho

/-- **Causes stay inside.**  Take two runs of the standard chain on one session, in any two
surroundings that answer alike as long as they are asked the same: their answers may differ in the
explanations of a refusal of the store, of a failed pack operation and of a crash.  Both runs come
to their end with the same session, so the client is sent the same bytes and the same status.  And
the client of a git request is sent, behind what the pack operation wrote, nothing if the request
went well, and else one packet with one of three messages.  Which of an escape and a failure it was,
no session shows. -/
theorem causes_stay_inside {σ τ : Type} (answer : (q : Ask) → σ → q.Answer × σ)
    (answer' : (q : Ask) → τ → q.Answer × τ) (config : Config) (s : Session) (x : σ) (y : τ)
    (hagree : Agree (((run (standard config)).run.run s).transcript answer x)
      (((run (standard config)).run.run s).transcript answer' y)) :
    let p : Asking (Except Crash Unit × Session) := (run (standard config)).run.run s
    ∃ s', (p.run answer x).1 = (.ok (), s') ∧ (p.run answer' y).1 = (.ok (), s') ∧
      (s.isTerminated = false → Git.Request.ofWords s.command ≠ .other →
        let left := s.leftBy (p.transcript answer x)
        s' = { left with
          exitStatus := some 0
          stdout := left.stdout.shutdown.2
          stderr := left.stderr.shutdown.2 } ∨
        ∃ message ∈ SessionError.clientMessages, s' = { left with
          exitStatus := some 1
          stdout := (left.stdout.receive (Git.PktLine.encodeError message)).shutdown.2
          stderr := left.stderr.shutdown.2 }) ∧
      ∀ (z : Session) (escape : PathEscape) (failure : Failure),
        z.fatal (.pathEscape escape) = z.fatal (.systemFailure failure) := by
  intro p
  have hruns : Does (run (standard config)) s (p.transcript answer x) (p.run answer x).1.1
      (p.run answer x).1.2 := Program.runs_transcript answer p x
  have hruns' : Does (run (standard config)) s (p.transcript answer' y) (p.run answer' y).1.1
      (p.run answer' y).1.2 := Program.runs_transcript answer' p y
  obtain ⟨turns, hcourse⟩ := does_run_iff (n := 0).1 hruns
  obtain ⟨turns', hcourse'⟩ := does_run_iff (n := 0).1 hruns'
  have hok := hcourse.recorded.1
  have hok' := hcourse'.recorded.1
  have halike : Handler.Alike Eq (run (standard config)) (run (standard config)) :=
    alike_run fun stage hstage ↦ isDiscreet_of_mem_standard hstage
  obtain ⟨-, hsame, -⟩ := halike _ _ _ _ _ _ _ [] [] hruns hruns' (by simpa using hagree)
  refine ⟨(p.run answer x).1.2, Prod.ext hok rfl, Prod.ext hok' hsame.symm, ?_, ?_⟩
  · intro hs hwords left
    have hleft : left.isTerminated = false := (Session.leftBy_isTerminated s _).trans hs
    rcases hcourse.settled hs hwords with hexit | ⟨e, hfatal⟩
    · exact .inl (hexit.trans (by simp [Session.exit_eq, left, hleft]))
    · have hmake := @Session.make_of_ends left (.fatal e) hleft rfl
      exact .inr ⟨e.clientMessage, e.clientMessage_mem, hfatal.trans hmake⟩
  · exact fun z escape failure ↦ rfl

end Chain

/-! ### A push that a store refuses -/

namespace Scripted

/-- Surroundings that let everybody push, but in which nothing else works; every explanation is one
text. -/
def brokenReply (text : String) : (q : Ask) → q.Answer
  | .emit _ => ()
  | .accessLevel _ _ => .ok .readWrite
  | .allowKeyless => .error ⟨some text⟩
  | .lookup _ | .create _ _ | .list => .ok (.error (.other (.ofText text)))
  | .serve _ _ io => ⟨io, .error ⟨some text⟩⟩

theorem alike_brokenReply (text text' : String) (q : Ask) :
    q.Alike (brokenReply text q) (brokenReply text' q) := by
  cases q with
  | emit => trivial
  | accessLevel => exact .ok rfl
  | allowKeyless => exact .error trivial
  | lookup | create | list => exact .ok (.error (.other _ _))
  | serve => exact ⟨rfl, .error trivial⟩

/-- A push learns nothing of why its target could not be looked up. -/
theorem refused_pushes_look_alike :
    let p : Asking (Except Crash Unit × Session) :=
      (Chain.run (Chain.standard { dataPath := "/srv" })).run.run
        { command := ["git-receive-pack", "x"] }
    let run (text : String) := (p.run (fun q (_ : Unit) ↦ (brokenReply text q, ())) ()).1
    (run "disk on fire").2 = (run "out of space").2 ∧
      (run "disk on fire").2.stdout.written =
        Git.PktLine.encodeError "something went wrong" := by
  intro p run
  obtain ⟨s', hrun, hrun', -⟩ := Chain.causes_stay_inside _ _ { dataPath := "/srv" }
    { command := ["git-receive-pack", "x"] } () ()
    (agree_of_replies (alike_brokenReply "disk on fire" "out of space") _ _)
  have hsame : run "disk on fire" = run "out of space" := hrun.trans hrun'.symm
  have hwritten : (run "disk on fire").2.stdout.written =
      Git.PktLine.encodeError "something went wrong" := by decide +kernel
  exact ⟨congrArg Prod.snd hsame, hwritten⟩

end Scripted

end GitGateway
