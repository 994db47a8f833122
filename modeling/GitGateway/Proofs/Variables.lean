import GitGateway.Chain.Standard
import GitGateway.Gateway.Backing
import GitGateway.Proofs.Connections
import GitGateway.Proofs.Courses
import GitGateway.Proofs.Exchanges
import GitGateway.Proofs.Machines
import GitGateway.Proofs.Pushes

/-!
# Which variables reach a program

A client sends variables of any names, in any order and as often as it likes.  A git program gets
the environment of the gateway, in which one name is overridden, by the value that was sent last
under exactly that name (`Git.PackService.environment_call`).

That the rest of what was sent makes no difference is a statement about two runs.  A session keeps
its variables from its start to its end, and has no use for them but to hand them to pack
operations: a part of a session that is **indifferent** to them does the same with any others.  A
pack operation makes its call of them and hands them to the exchange, which never looks at them.  So
two sessions whose variables agree on the one name call the same programs with the same arguments in
the same environment, and whatever can come of one can come of the other
(`Backing.only_protocol_crosses`).
-/

namespace GitGateway

/-! ## Variables of a session -/

/-- Streams with other variables. -/
def PackIo.withEnv (io : PackIo) (env : List (String × String)) : PackIo := { io with env }

/-- A session with other variables. -/
def Session.withEnv (s : Session) (env : List (String × String)) : Session := { s with env }

/-- What a pack operation left, with other variables. -/
def Served.withEnv (served : Served) (env : List (String × String)) : Served :=
  { served with io := served.io.withEnv env }

namespace Git

/-- The value that was sent last under a name. -/
def lastSent (name : String) (env : List (String × String)) : Option String :=
  ((env.filter fun v ↦ v.1 == name).getLast?).map Prod.snd

theorem lookup_eq_head? (name : String) (env : List (String × String)) :
    env.lookup name = ((env.filter fun v ↦ v.1 == name).head?).map Prod.snd := by
  induction env with
  | nil => rfl
  | cons v env ih =>
    obtain ⟨key, value⟩ := v
    rw [List.lookup_cons, List.filter_cons]
    by_cases h : key = name
    · simp [h]
    · have hne : (name == key) = false := beq_false_of_ne (Ne.symm h)
      simp [h, hne, ih]

theorem lookup_reverse (name : String) (env : List (String × String)) :
    env.reverse.lookup name = lastSent name env := by
  rw [lookup_eq_head?, List.filter_reverse, List.head?_reverse, lastSent]

/-- One name is forwarded, with the value sent last. -/
theorem overrides_eq (env : List (String × String)) : overrides env =
    ((lastSent "GIT_PROTOCOL" env).map fun value ↦ ("GIT_PROTOCOL", value)).toList := by
  rw [overrides, forwardedNames, List.filterMap_cons, lookup_reverse]
  cases lastSent "GIT_PROTOCOL" env <;> rfl

/-- The environment of a called program: that of the gateway, overridden. -/
def Call.environment (c : Git.Call) (own : String → Option String) (name : String) :
    Option String :=
  (c.overrides.lookup name).or (own name)

namespace PackService

variable {p : PackService} {service : Service} {path : RepoPath}
variable {env env' : List (String × String)}

theorem environment_call (own : String → Option String) (name : String) :
    (p.call service path env).environment own name =
      if name = "GIT_PROTOCOL" then (lastSent name env).or (own name) else own name := by
  have hoverrides : (p.call service path env).overrides = overrides env := rfl
  rw [Call.environment, hoverrides, overrides_eq]
  by_cases h : name = "GIT_PROTOCOL"
  · subst h
    cases lastSent "GIT_PROTOCOL" env <;> simp
  · have hne : (name == "GIT_PROTOCOL") = false := beq_false_of_ne h
    cases lastSent "GIT_PROTOCOL" env <;> simp [h, hne]

/-- Variables that agree on the forwarded name make the same call. -/
theorem call_congr (h : lastSent "GIT_PROTOCOL" env = lastSent "GIT_PROTOCOL" env') :
    p.call service path env = p.call service path env' := by
  rw [call, call, overrides_eq, overrides_eq, h]

end PackService

/-! ## Exchanges -/

namespace Exchange

/-- An exchange with other variables. -/
def withEnv (x : Exchange) (env : List (String × String)) : Exchange :=
  { x with io := x.io.withEnv env }

variable {x y : Exchange} {t : Traffic} (env : List (String × String))

theorem stepFeedRead_withEnv (h : x.stepFeedRead = some y) :
    (x.withEnv env).stepFeedRead = some (y.withEnv env) := by
  unfold stepFeedRead at h ⊢
  split at h
  · cases h
  · next hgoing =>
    refine (if_neg hgoing).trans ?_
    dsimp only [withEnv, PackIo.withEnv] at h ⊢
    split at h <;> cases h <;> rfl

theorem stepFeedWrite_withEnv (h : x.stepFeedWrite = some y) :
    (x.withEnv env).stepFeedWrite = some (y.withEnv env) := by
  unfold stepFeedWrite at h ⊢
  split at h
  · cases h
  · next hgoing =>
    refine (if_neg hgoing).trans ?_
    split at h
    · next hempty =>
      refine (if_pos hempty).trans ?_
      split at h <;> cases h
      next hdrained => exact if_pos hdrained
    · next hfilled =>
      refine (if_neg hfilled).trans ?_
      dsimp only [withEnv, PackIo.withEnv]
      split at h <;> cases h <;> rfl

theorem stepOutput_withEnv (h : x.stepOutput = some y) :
    (x.withEnv env).stepOutput = some (y.withEnv env) := by
  unfold stepOutput at h ⊢
  split at h
  · cases h
  · next hgoing =>
    obtain ⟨_, hcarry, rfl⟩ := Option.map_eq_some_iff.1 h
    exact (if_neg hgoing).trans (Option.map_eq_some_iff.2 ⟨_, hcarry, rfl⟩)

theorem stepDiagnostics_withEnv (h : x.stepDiagnostics = some y) :
    (x.withEnv env).stepDiagnostics = some (y.withEnv env) := by
  unfold stepDiagnostics at h ⊢
  split at h
  · cases h
  · next hgoing =>
    obtain ⟨_, hcarry, rfl⟩ := Option.map_eq_some_iff.1 h
    exact (if_neg hgoing).trans (Option.map_eq_some_iff.2 ⟨_, hcarry, rfl⟩)

/-- No move of an exchange looks at the variables. -/
theorem Moves.withEnv (h : Moves x t y) : Moves (x.withEnv env) t (y.withEnv env) := by
  cases h with
  | feedRead hstep => exact .feedRead (stepFeedRead_withEnv env hstep)
  | feedWrite hstep => exact .feedWrite (stepFeedWrite_withEnv env hstep)
  | output hstep => exact .output (stepOutput_withEnv env hstep)
  | diagnostics hstep => exact .diagnostics (stepDiagnostics_withEnv env hstep)
  | prints hlive hwrite => exact .prints (x := x.withEnv env) hlive hwrite
  | complains hlive hwrite => exact .complains (x := x.withEnv env) hlive hwrite
  | consumes hlive hread => exact .consumes (x := x.withEnv env) hlive hread
  | closesInput hlive => exact .closesInput (x := x.withEnv env) hlive
  | closesOutput hlive => exact .closesOutput (x := x.withEnv env) hlive
  | closesDiagnostics hlive => exact .closesDiagnostics (x := x.withEnv env) hlive
  | decides hlive child => exact .decides (x := x.withEnv env) hlive child
  | ends hlive => exact .ends (x := x.withEnv env) hlive

theorem Unfolds.withEnv (h : Unfolds x t y) : Unfolds (x.withEnv env) t (y.withEnv env) := by
  induction h with
  | refl => exact .refl _
  | move hmove _ ih => exact .move (hmove.withEnv env) ih

/-- A step that does the same with any variables keeps those it finds. -/
theorem env_of_withEnv {step : Exchange → Option Exchange}
    (hstep : ∀ env, step (x.withEnv env) = some (y.withEnv env)) (h : step x = some y) :
    y.io.env = x.io.env := by
  have hsame : some (y.withEnv x.io.env) = some y := (hstep x.io.env).symm.trans h
  exact congrArg (fun x ↦ x.io.env) (Option.some.inj hsame).symm

theorem Moves.env_eq (h : Moves x t y) : y.io.env = x.io.env := by
  cases h with
  | feedRead hstep => exact env_of_withEnv (fun env ↦ stepFeedRead_withEnv env hstep) hstep
  | feedWrite hstep => exact env_of_withEnv (fun env ↦ stepFeedWrite_withEnv env hstep) hstep
  | output hstep => exact env_of_withEnv (fun env ↦ stepOutput_withEnv env hstep) hstep
  | diagnostics hstep => exact env_of_withEnv (fun env ↦ stepDiagnostics_withEnv env hstep) hstep
  | prints | complains | consumes | closesInput | closesOutput | closesDiagnostics | decides
  | ends => rfl

theorem Unfolds.env_eq (h : Unfolds x t y) : y.io.env = x.io.env := by
  induction h with
  | refl => rfl
  | move hmove _ ih => exact ih.trans hmove.env_eq

end Exchange

end Git

/-! ## Indifferent computations -/

/-- A call that hands other variables to a pack operation. -/
def Call.withEnv (env : List (String × String)) : Call → Call
  | ⟨.serve service path io, served⟩ => ⟨.serve service path (io.withEnv env), served.withEnv env⟩
  | c => c

/-- Whether all that a question hands to a pack operation are these variables. -/
def Ask.Hands (env : List (String × String)) : Ask → Prop
  | .serve _ _ io => io.env = env
  | _ => True

open Handler

namespace Handler

variable {α β : Type} {h : Handler α} {s s' : Session} {t : List Call} {o : Except Crash α}

/-- A run that keeps the session's variables, hands them to its pack operations, and is a run with
any others as well. -/
structure Spares (h : Handler α) (s : Session) (t : List Call) (o : Except Crash α)
    (s' : Session) : Prop where
  keeps : s'.env = s.env
  hands : ∀ c ∈ t, c.1.Hands s.env
  again : ∀ env, Does h (s.withEnv env) (t.map (Call.withEnv env)) o (s'.withEnv env)

/-- A computation that has no use for the session's variables. -/
def Indifferent (h : Handler α) : Prop := ∀ s t o s', Does h s t o s' → Spares h s t o s'

namespace Indifferent

theorem bind_of {f : α → Handler β} (hh : Indifferent h)
    (hf : ∀ s t a s', Does h s t (.ok a) s' → Indifferent (f a)) : Indifferent (h >>= f) := by
  intro s t o s' hdoes
  rcases does_bind_iff.1 hdoes with ⟨crash, h₁, rfl⟩ | ⟨t₁, a, s₁, t₂, rfl, h₁, h₂⟩
  · obtain ⟨hkeeps, hhands, hagain⟩ := hh _ _ _ _ h₁
    exact ⟨hkeeps, hhands, fun env ↦ does_bind_iff.2 (.inl ⟨crash, hagain env, rfl⟩)⟩
  · obtain ⟨hkeeps₁, hhands₁, hagain₁⟩ := hh _ _ _ _ h₁
    obtain ⟨hkeeps₂, hhands₂, hagain₂⟩ := hf _ _ _ _ h₁ _ _ _ _ h₂
    refine ⟨hkeeps₂.trans hkeeps₁, fun c hc ↦ ?_, fun env ↦ ?_⟩
    · rcases List.mem_append.1 hc with hc | hc
      · exact hhands₁ c hc
      · exact hkeeps₁ ▸ hhands₂ c hc
    · rw [List.map_append]
      exact does_bind_iff.2 (.inr ⟨_, a, _, _, rfl, hagain₁ env, hagain₂ env⟩)

theorem bind {f : α → Handler β} (hh : Indifferent h) (hf : ∀ a, Indifferent (f a)) :
    Indifferent (h >>= f) :=
  hh.bind_of fun _ _ a _ _ ↦ hf a

theorem pure (a : α) : Indifferent (Pure.pure a : Handler α) := by
  intro s t o s' hdoes
  obtain ⟨rfl, rfl, rfl⟩ := does_pure_iff.1 hdoes
  exact ⟨rfl, List.forall_mem_nil _, fun env ↦ does_pure_iff.2 ⟨rfl, rfl, rfl⟩⟩

theorem resume (o : Except Crash α) : Indifferent (Handler.resume o) := by
  intro s t o' s' hdoes
  obtain ⟨rfl, rfl, rfl⟩ := does_resume_iff.1 hdoes
  exact ⟨rfl, List.forall_mem_nil _, fun env ↦ does_resume_iff.2 ⟨rfl, rfl, rfl⟩⟩

theorem outcome (hh : Indifferent h) : Indifferent h.outcome := by
  intro s t r s' hdoes
  obtain ⟨o, rfl, h₁⟩ := does_outcome_iff.1 hdoes
  obtain ⟨hkeeps, hhands, hagain⟩ := hh _ _ _ _ h₁
  exact ⟨hkeeps, hhands, fun env ↦ does_outcome_iff.2 ⟨o, rfl, hagain env⟩⟩

/-- The session may be looked at, except for its variables. -/
theorem get_bind {f : Session → Handler α} (hsame : ∀ s env, f (s.withEnv env) = f s)
    (hf : ∀ s, Indifferent (f s)) : Indifferent (get >>= f) := by
  intro s t o s' hdoes
  obtain ⟨hkeeps, hhands, hagain⟩ := hf s _ _ _ _ (does_get_bind_iff.1 hdoes)
  refine ⟨hkeeps, hhands, fun env ↦ does_get_bind_iff.2 ?_⟩
  rw [hsame]
  exact hagain env

theorem modify {g : Session → Session}
    (hg : ∀ s env, g (s.withEnv env) = (g s).withEnv env) :
    Indifferent (modify g : Handler Unit) := by
  intro s t o s' hdoes
  obtain ⟨rfl, hr⟩ := Program.runs_done_iff.1 hdoes
  cases hr
  have hkeeps : (g (s.withEnv s.env)).env = s.env := by
    rw [hg]
    rfl
  refine ⟨hkeeps, List.forall_mem_nil _, fun env ↦ Program.runs_done_iff.2 ⟨rfl, ?_⟩⟩
  exact congrArg (Prod.mk _) (hg s env).symm

theorem emit (e : LogEvent) : Indifferent (Handler.emit e) := by
  intro s t o s' hdoes
  obtain ⟨⟨⟩, rfl, hr⟩ := Program.runs_ask_done_iff.1 hdoes
  cases hr
  exact ⟨rfl, List.forall_mem_singleton.2 trivial,
    fun env ↦ Program.runs_ask_done_iff.2 ⟨(), rfl, rfl⟩⟩

/-- What asks one question that is about no streams, and leaves the session alone. -/
theorem call {c : Except Crash α → Call}
    (hcall : ∀ {s t o s'}, Does h s t o s' ↔ t = [c o] ∧ s' = s)
    (hhands : ∀ o env, (c o).1.Hands env) (hsame : ∀ o env, Call.withEnv env (c o) = c o) :
    Indifferent h := by
  intro s t o s' hdoes
  obtain ⟨rfl, rfl⟩ := hcall.1 hdoes
  refine ⟨rfl, List.forall_mem_singleton.2 (hhands o _), fun env ↦ hcall.2 ⟨?_, rfl⟩⟩
  rw [List.map_singleton, hsame]

theorem accessLevel (name : RepoName) (key : Option ClientKey) :
    Indifferent (Handler.accessLevel name key) :=
  call does_accessLevel_iff (fun _ _ ↦ trivial) fun _ _ ↦ rfl

theorem lookup (name : RepoName) : Indifferent (Handler.lookup name) :=
  call does_lookup_iff (fun _ _ ↦ trivial) fun _ _ ↦ rfl

theorem create (name : RepoName) (isPrivate : Bool) : Indifferent (Handler.create name isPrivate) :=
  call does_create_iff (fun _ _ ↦ trivial) fun _ _ ↦ rfl

theorem list : Indifferent Handler.list :=
  call does_list_iff (fun _ _ ↦ trivial) fun _ _ ↦ rfl

/-- A pack operation is handed the variables, and the session takes nothing back but the streams. -/
theorem serve (service : Git.Service) (path : RepoPath) :
    Indifferent (Handler.serve service path) := by
  intro s t o s' hdoes
  obtain ⟨served, rfl, rfl, rfl⟩ := does_serve_iff.1 hdoes
  exact ⟨rfl, List.forall_mem_singleton.2 rfl,
    fun env ↦ does_serve_iff.2 ⟨served.withEnv env, rfl, rfl, rfl⟩⟩

theorem exit (status : Nat) : Indifferent (Handler.exit status) := by
  refine modify fun s env ↦ ?_
  rw [Session.exit_eq, Session.exit_eq, apply_ite (Session.withEnv · env)]
  rfl

theorem fatal (e : SessionError) : Indifferent (Handler.fatal e) := by
  refine modify fun s env ↦ ?_
  cases hs : s.exitStatus <;>
    simp [Session.fatal, Session.exit_eq, Session.isTerminated, Session.withEnv, hs]

theorem writeStdout (data : List UInt8) : Indifferent (Handler.writeStdout data) := by
  refine modify fun s env ↦ ?_
  unfold Session.writeStdout
  rw [apply_ite Prod.snd, apply_ite Prod.snd, apply_ite (Session.withEnv · env)]
  rfl

theorem writeStderr (data : List UInt8) : Indifferent (Handler.writeStderr data) := by
  refine modify fun s env ↦ ?_
  unfold Session.writeStderr
  rw [apply_ite Prod.snd, apply_ite Prod.snd, apply_ite (Session.withEnv · env)]
  rfl

end Indifferent

end Handler

/-- What has no use for the variables hands its pack operations those of its session. -/
theorem Handler.Indifferent.only_hands {α : Type} {h : Handler α} (hh : h.Indifferent)
    (s : Session) : (h.run.run s).Only (Ask.Hands s.env) :=
  Program.only_of_runs Ask.nonempty_answer fun t r hruns ↦ (hh s t r.1 r.2 hruns).hands

/-! ## Dispatching -/

namespace Dispatch

open Handler

theorem indifferent_confine (root : String) (name : RepoName) :
    Indifferent (confine root name) := by
  unfold confine
  cases Confine.repoPath root name with
  | ok path => exact .pure _
  | error e => exact (Indifferent.emit _).bind fun _ ↦ .pure _

theorem indifferent_awaitWinner (name : RepoName) : Indifferent (awaitWinner name) := by
  refine (Indifferent.lookup name).bind fun found ↦ ?_
  cases found <;> exact .pure _

theorem indifferent_createMissing (name : RepoName) : Indifferent (createMissing name) := by
  refine (Indifferent.create name false).bind fun made ↦ ?_
  rcases made with (_ | _ | cause) | r
  · exact .pure _
  · exact indifferent_awaitWinner name
  · exact .pure _
  · exact (Indifferent.emit _).bind fun _ ↦ .pure _

theorem indifferent_ensureRepository (name : RepoName) : Indifferent (ensureRepository name) := by
  refine (Indifferent.lookup name).bind fun found ↦ ?_
  rcases found with (_ | _ | cause) | r
  · exact indifferent_createMissing name
  · exact .pure _
  · exact .pure _
  · exact .pure _

theorem indifferent_serve (service : Git.Service) (path : RepoPath) :
    Indifferent (serve service path) := by
  refine (Indifferent.serve service path).bind fun result ↦ ?_
  rcases result with (_ | cause) | ⟨⟩ <;> exact .pure _

theorem indifferent_serveAuthorized (service : Git.Service) (name : RepoName) (path : RepoPath) :
    Indifferent (serveAuthorized service name path) := by
  cases service with
  | receivePack =>
    refine (indifferent_ensureRepository name).bind fun ensured ↦ ?_
    cases ensured with
    | ok => exact indifferent_serve _ path
    | error e => exact .pure _
  | uploadPack | uploadArchive => exact indifferent_serve _ path

theorem indifferent_request (root : String) (service : Git.Service) (name : RepoName) :
    Indifferent (request root service name) := by
  refine (indifferent_confine root name).bind fun confined ↦ ?_
  cases confined with
  | error e => exact .pure _
  | ok path =>
    dsimp only
    split
    · exact .pure _
    · refine .get_bind (fun _ _ ↦ rfl) fun s ↦ (Indifferent.accessLevel name s.key).bind ?_
      intro level
      split
      · exact indifferent_serveAuthorized service name path
      · exact .pure _

theorem indifferent_dispatch (root : String) : Indifferent (dispatch root) := by
  refine .get_bind (fun _ _ ↦ rfl) fun s ↦ ?_
  cases Git.Request.ofWords s.command with
  | other => exact .pure _
  | pack service name => exact indifferent_request root service name

end Dispatch

/-! ## Stages -/

namespace Stage

open Handler

/-- A stage that has no use for the session's variables, neither before the rest nor after it. -/
structure IsIndifferent (stage : Stage) : Prop where
  enter : Indifferent stage.enter
  leave : ∀ s t leave s', Does stage.enter s t (.ok (some leave)) s' → ∀ o, Indifferent (leave o)

theorem isIndifferent_before {work : Handler Unit} (h : Indifferent work) :
    (Stage.before work).IsIndifferent := by
  refine ⟨h.bind fun _ ↦ .pure _, fun s t leave s' hdoes o ↦ ?_⟩
  rcases does_bind_iff.1 hdoes with ⟨crash, -, ho⟩ | ⟨t₁, a, s₁, t₂, -, -, h₂⟩
  · cases ho
  · obtain ⟨-, ho, -⟩ := does_pure_iff.1 h₂
    cases ho
    exact .resume o

/-- A stage that waits for the rest. -/
theorem isIndifferent_behind {runsAfterExit : Bool} {leave : Leave}
    (h : ∀ o, Indifferent (leave o)) :
    (⟨runsAfterExit, return some leave⟩ : Stage).IsIndifferent := by
  refine ⟨.pure _, fun s t leave' s' hdoes o ↦ ?_⟩
  obtain ⟨-, ho, -⟩ := does_pure_iff.1 hdoes
  cases ho
  exact h o

theorem isIndifferent_containment : containment.IsIndifferent := by
  refine isIndifferent_behind fun o ↦ ?_
  cases o with
  | ok => exact .pure _
  | error crash =>
    exact .get_bind (fun _ _ ↦ rfl) fun s ↦ (Indifferent.emit _).bind fun _ ↦ .fatal _

theorem isIndifferent_accessLog : accessLog.IsIndifferent :=
  isIndifferent_behind fun o ↦ (Indifferent.resume o).bind fun _ ↦
    .get_bind (fun _ _ ↦ rfl) fun _ ↦ .emit _

theorem indifferent_readable (names : List RepoName) : Indifferent (readable names) := by
  induction names with
  | nil => exact .pure _
  | cons name rest ih =>
    exact .get_bind (fun _ _ ↦ rfl) fun s ↦ (Indifferent.accessLevel name s.key).bind fun _ ↦
      ih.bind fun _ ↦ .pure _

theorem indifferent_readableRepositories : Indifferent readableRepositories := by
  refine Indifferent.list.bind fun names ↦ ?_
  cases names with
  | ok names => exact indifferent_readable names
  | error e => exact (Indifferent.emit _).bind fun _ ↦ .pure _

theorem isIndifferent_welcome (config : Config) : (welcome config).IsIndifferent := by
  refine isIndifferent_before (.get_bind (fun _ _ ↦ rfl) fun s ↦ ?_)
  split
  · exact indifferent_readableRepositories.bind fun _ ↦
      (Indifferent.writeStdout _).bind fun _ ↦ .exit 0
  · exact .pure _

theorem indifferent_answer (command : List String) : Indifferent (answer command) := by
  unfold answer
  split
  · exact .pure _
  · exact .get_bind (fun _ _ ↦ rfl) fun s ↦ (Indifferent.accessLevel _ s.key).bind fun _ ↦ .pure _
  · exact indifferent_readableRepositories.bind fun _ ↦ .pure _
  · exact .pure _

theorem indifferent_answerOrRefuse (command : List String) :
    Indifferent (answerOrRefuse command) := by
  refine (indifferent_answer command).bind fun text? ↦ ?_
  cases text? with
  | some text => exact (Indifferent.writeStdout _).bind fun _ ↦ .exit 0
  | none =>
    exact .get_bind (fun _ _ ↦ rfl) fun s ↦ (Indifferent.emit _).bind fun _ ↦
      (Indifferent.writeStderr _).bind fun _ ↦ .exit 1

theorem isIndifferent_builtins : builtins.IsIndifferent := by
  refine isIndifferent_before (.get_bind (fun _ _ ↦ rfl) fun s ↦ ?_)
  dsimp only
  split
  · exact indifferent_answerOrRefuse s.command
  · exact .pure _

theorem isIndifferent_transport (root : String) : (transport root).IsIndifferent := by
  refine isIndifferent_before ((Dispatch.indifferent_dispatch root).bind fun verdict ↦ ?_)
  rcases verdict with e | _ | _
  · exact .get_bind (fun _ _ ↦ rfl) fun s ↦ (Indifferent.emit _).bind fun _ ↦ .fatal e
  · exact .pure _
  · exact .exit 0

end Stage

namespace Chain

open Handler

theorem indifferent_run {stages : List Stage} (h : ∀ stage ∈ stages, stage.IsIndifferent) :
    Indifferent (run stages) := by
  induction stages with
  | nil => exact .pure _
  | cons stage rest ih =>
    have hrest := ih fun stage hstage ↦ h stage (List.mem_cons_of_mem _ hstage)
    obtain ⟨henter, hleave⟩ := h stage List.mem_cons_self
    rw [run]
    refine .get_bind (fun _ _ ↦ rfl) fun s ↦ ?_
    split
    · exact hrest
    · refine henter.bind_of fun s t leave? s' hdoes ↦ ?_
      cases leave? with
      | none => exact .pure _
      | some leave => exact hrest.outcome.bind fun o ↦ hleave _ _ _ _ hdoes o

/-- No stage of the standard chain has a use for the variables. -/
theorem indifferent_standard (config : Config) : Indifferent (run (standard config)) := by
  refine indifferent_run fun stage hstage ↦ ?_
  simp only [standard, List.mem_cons, List.not_mem_nil, or_false] at hstage
  rcases hstage with rfl | rfl | rfl | rfl | rfl
  · exact Stage.isIndifferent_containment
  · exact Stage.isIndifferent_welcome config
  · exact Stage.isIndifferent_builtins
  · exact Stage.isIndifferent_transport config.reposPath
  · exact Stage.isIndifferent_accessLog

end Chain

/-! ## Hosts with git programs -/

open Program (Ends)

/-- The git programs of a host.  Called by a name, with arguments and in an environment, one is
refused or started; what it can then write and read, and how it can end, is up to it. -/
abbrev Git.Programs := String → List String → (String → Option String) →
  Except OsError (Git.Traffic → Git.Exit → Prop)

/-- What can come of an exchange on a host with git programs, on which the gateway's own environment
is `own`: one with the program that was called, in any order of moves. -/
def Git.Programs.Exchanges (programs : Git.Programs) (own : String → Option String)
    (call : Git.Call) (io : PackIo) (answer : Except OsError Git.Exchange) : Prop :=
  match programs call.program call.arguments (call.environment own) with
  | .error e => answer = .error e
  | .ok may => ∃ child t x, answer = .ok x ∧ Git.Exchange.Unfolds (.start io child) t x ∧
      x.isOver = true ∧ may t x.child.exit

/-- The answers of a host with git programs, which answers other questions as `others` allows. -/
def Git.Programs.Answers (programs : Git.Programs) (own : String → Option String)
    (others : (q : HostAsk) → q.Answer → Prop) : (q : HostAsk) → q.Answer → Prop
  | .exchange call io, answer => programs.Exchanges own call io answer
  | q, answer => others q answer

/-! ## Programs that are called -/

/-- Questions that start no exchange but with some calls. -/
def HostAsk.Calls (calls : Git.Call → Prop) : HostAsk → Prop
  | .exchange call _ => calls call
  | _ => True

theorem HostAsk.IsQuiet.calls {calls : Git.Call → Prop} {q : HostAsk} (h : q.IsQuiet) :
    q.Calls calls := by
  cases q with
  | exchange => exact h.elim
  | _ => trivial

theorem HostAsk.Makes.calls {calls : Git.Call → Prop} {paths : RepoPath → Prop} {q : HostAsk}
    (h : q.Makes paths) : q.Calls calls := by
  cases q with
  | exchange => exact h.elim
  | _ => trivial

/-- A pack operation starts no exchange but with the call that it makes of its variables. -/
theorem Git.PackService.only_calls (p : Git.PackService) (service : Git.Service) (path : RepoPath)
    (io : PackIo) : (p.serve service path io).Only
      (HostAsk.Calls (· = p.call service path io.env)) := by
  refine .ask trivial fun d ↦ ?_
  change Program.Only _ (if Store.isBare d path.text then _ else _)
  split
  · exact .ask rfl fun r ↦ by cases r <;> exact .done _
  · exact .done _

/-- Every exchange of a session is called as a pack operation calls it for its variables. -/
theorem Backing.only_calls (b : Backing) {α : Type} {h : Handler α} (hh : h.Indifferent)
    (s : Session) : (b.carryOut h s).Only
      (HostAsk.Calls fun call ↦ ∃ service path, call = b.pack.call service path s.env) := by
  refine (hh.only_hands s).interpret fun q hq ↦ ?_
  cases q with
  | emit e => exact .ask trivial fun _ ↦ .done _
  | accessLevel name key =>
    exact ((Store.isQuiet_accessLevel b.store name key).mono fun _ hq ↦ hq.calls).bind
      fun _ ↦ .done _
  | allowKeyless => exact .done _
  | lookup name =>
    exact ((Store.isQuiet_lookup b.store name).mono fun _ hq ↦ hq.calls).bind fun _ ↦ .done _
  | create name isPrivate =>
    exact ((Store.only_create b.store name isPrivate).mono fun _ hq ↦ hq.calls).bind
      fun _ ↦ .done _
  | list => exact ((Store.isQuiet_list b.store).mono fun _ hq ↦ hq.calls).bind fun _ ↦ .done _
  | serve service path io =>
    have hio : io.env = s.env := hq
    refine (b.pack.only_calls service path io).mono fun q hq ↦ ?_
    cases q with
    | exchange call _ => exact ⟨service, path, hio ▸ hq⟩
    | _ => trivial

section Hosts

variable {programs : Git.Programs} {own : String → Option String}
variable {others : (q : HostAsk) → q.Answer → Prop} {env : List (String × String)}

/-- What can come of an exchange does not hang on the variables that ride along with its streams. -/
theorem Git.Programs.Exchanges.withEnv {call : Git.Call} {io : PackIo}
    {answer : Except OsError Git.Exchange} (h : programs.Exchanges own call io answer) :
    programs.Exchanges own call (io.withEnv env) (answer.map (·.withEnv env)) := by
  unfold Exchanges at h ⊢
  cases hcall : programs call.program call.arguments (call.environment own) with
  | error e =>
    rw [hcall] at h
    obtain rfl : answer = .error e := h
    rfl
  | ok may =>
    rw [hcall] at h
    obtain ⟨child, t, x, rfl, hunfolds, hover, hmay⟩ := h
    exact ⟨child, t, x.withEnv env, rfl, hunfolds.withEnv env, hover, hmay⟩

theorem Git.Programs.Exchanges.env_eq {call : Git.Call} {io : PackIo} {x : Git.Exchange}
    (h : programs.Exchanges own call io (.ok x)) : x.io.env = io.env := by
  unfold Exchanges at h
  cases hcall : programs call.program call.arguments (call.environment own) with
  | error e =>
    rw [hcall] at h
    cases h
  | ok may =>
    rw [hcall] at h
    obtain ⟨child, t, x', hx, hunfolds, -⟩ := h
    cases hx
    exact hunfolds.env_eq

/-- A pack operation looks for its repository, and what came of its exchange decides the rest. -/
theorem Git.PackService.ends_serve_iff {p : Git.PackService} {service : Git.Service}
    {path : RepoPath} {io : PackIo} {A : (q : HostAsk) → q.Answer → Prop} {served : Served} :
    Ends A (p.serve service path io) served ↔ ∃ d, A .disk d ∧
      if Store.isBare d path.text = true then
        ∃ r, A (.exchange (p.call service path io.env) io) r ∧ served = outcome service io r
      else served = ⟨io, .ok (.error (refusal service path))⟩ := by
  refine Program.ends_ask_iff.trans (exists_congr fun d ↦ and_congr_right fun _ ↦ ?_)
  rw [Program.bind_done]
  split
  · refine Program.ends_ask_iff.trans (exists_congr fun r ↦ and_congr_right fun _ ↦ ?_)
    cases r <;> exact Program.ends_done_iff
  · exact Program.ends_done_iff

theorem Git.PackService.outcome_withEnv {service : Git.Service} {io : PackIo}
    {r : Except OsError Git.Exchange} : (outcome service io r).withEnv env =
      outcome service (io.withEnv env) (r.map (·.withEnv env)) := by
  cases r <;> rfl

/-- A pack operation keeps the variables, and does the same with others that agree on the forwarded
name. -/
theorem Git.PackService.ends_serve_withEnv (env : List (String × String)) {p : Git.PackService}
    {service : Git.Service} {path : RepoPath} {io : PackIo} {served : Served}
    (hsent : Git.lastSent "GIT_PROTOCOL" io.env = Git.lastSent "GIT_PROTOCOL" env)
    (h : Ends (programs.Answers own others) (p.serve service path io) served) :
    served.io.env = io.env ∧
      Ends (programs.Answers own others) (p.serve service path (io.withEnv env))
        (served.withEnv env) := by
  obtain ⟨d, hd, h⟩ := ends_serve_iff.1 h
  suffices hends : served.io.env = io.env ∧ (if Store.isBare d path.text = true then
      ∃ r, programs.Exchanges own (p.call service path env) (io.withEnv env) r ∧
        served.withEnv env = outcome service (io.withEnv env) r
      else served.withEnv env = ⟨io.withEnv env, .ok (.error (refusal service path))⟩) from
    ⟨hends.1, ends_serve_iff.2 ⟨d, hd, hends.2⟩⟩
  split at h
  · next hbare =>
    obtain ⟨r, hr, rfl⟩ := h
    rw [if_pos hbare, ← call_congr hsent, outcome_withEnv]
    refine ⟨?_, _, Programs.Exchanges.withEnv hr, rfl⟩
    cases r with
    | error e => rfl
    | ok x => exact Programs.Exchanges.env_eq hr
  · next hbare =>
    subst h
    rw [if_neg hbare]
    exact ⟨rfl, rfl⟩

/-- An indifferent computation on a gateway keeps the variables, and comes to the same with others
that agree on the forwarded name. -/
theorem Handler.Indifferent.ends_withEnv {α : Type} {b : Backing} {h : Handler α}
    (hh : h.Indifferent) (env : List (String × String)) {s s' : Session} {o : Except Crash α}
    (hsent : Git.lastSent "GIT_PROTOCOL" s.env = Git.lastSent "GIT_PROTOCOL" env)
    (hends : Ends (programs.Answers own others) (b.carryOut h s) (o, s')) :
    s'.env = s.env ∧
      Ends (programs.Answers own others) (b.carryOut h (s.withEnv env)) (o, s'.withEnv env) := by
  rw [Backing.carryOut, Program.ends_interpret_iff] at hends ⊢
  obtain ⟨t, hdoes, ht⟩ := hends
  obtain ⟨hkeeps, hhands, hagain⟩ := hh _ _ _ _ hdoes
  refine ⟨hkeeps, t.map (Call.withEnv env), hagain env, fun c' hc' ↦ ?_⟩
  obtain ⟨⟨q, answer⟩, hc, rfl⟩ := List.mem_map.1 hc'
  have hcarried := ht _ hc
  cases q with
  | serve service path io =>
    have hio : io.env = s.env := hhands _ hc
    exact (Git.PackService.ends_serve_withEnv env (hio ▸ hsent) hcarried).2
  | emit | accessLevel | allowKeyless | lookup | create | list => exact hcarried

end Hosts

/-- What a connection starts has the variables that were set on its channel, in their order. -/
theorem Ssh.Connection.env_of_start {peer : Option SocketAddr} {log : List Entry} {e : Entry}
    {c c' : Connection} {n : Nat} {s : Session} (hlog : Becomes { peer := peer } log c)
    (hstep : Program.Runs (c.step e.request) e.asked (.ok (c', e.effects)))
    (hstart : .start n s ∈ e.effects) : s.env = (life n log).filterMap Request.assignment? := by
  cases allows_step hstep hstart with
  | start _ _ =>
    have htold := (IsTold.nil.of_becomes hlog).channel_eq n
    rw [session, htold]
    rfl

namespace Backing

/-- **One variable crosses.**  Whatever the number, the order and the spelling of the variables that
a client sets on its channel: the session that is started gets them in their order, and a git
program that is run for it gets the environment of the gateway, in which `GIT_PROTOCOL` alone is
overridden, by the value sent last: a pack operation, and a whole session, starts no exchange but
with that call.  So if two lists of variables agree on that value, then the same programs are called
with the same arguments in the same environment; and whatever the programs of the host are, what can
come of a pack operation, or of a whole session, with the one list is what can come of it with the
other, but for the list itself. -/
theorem only_protocol_crosses (b : Backing) (programs : Git.Programs)
    (own : String → Option String) (others : (q : HostAsk) → q.Answer → Prop)
    (env env' : List (String × String))
    (hsent : Git.lastSent "GIT_PROTOCOL" env = Git.lastSent "GIT_PROTOCOL" env') :
    (∀ service path, b.pack.call service path env = b.pack.call service path env' ∧
      (b.pack.call service path env).arguments = [service.subcommand, path.text] ∧
      ∀ name, (b.pack.call service path env).environment own name =
        if name = "GIT_PROTOCOL" then (Git.lastSent name env).or (own name) else own name) ∧
    (∀ service path (io : PackIo), (b.pack.serve service path (io.withEnv env)).Only
      (HostAsk.Calls (· = b.pack.call service path env))) ∧
    (∀ config (s : Session), (b.carryOut (Chain.run (Chain.standard config)) (s.withEnv env)).Only
      (HostAsk.Calls fun call ↦ ∃ service path, call = b.pack.call service path env)) ∧
    (∀ service path (io : PackIo) served',
      Ends (programs.Answers own others) (b.pack.serve service path (io.withEnv env')) served' ↔
        ∃ served, served' = served.withEnv env' ∧ Ends (programs.Answers own others)
          (b.pack.serve service path (io.withEnv env)) served) ∧
    (∀ config (s : Session) o s₁, Ends (programs.Answers own others)
        (b.carryOut (Chain.run (Chain.standard config)) (s.withEnv env')) (o, s₁) ↔
      ∃ s₂, s₁ = s₂.withEnv env' ∧ Ends (programs.Answers own others)
        (b.carryOut (Chain.run (Chain.standard config)) (s.withEnv env)) (o, s₂)) ∧
    (∀ peer log (e : Ssh.Entry) c c' n s, Ssh.Connection.Becomes { peer := peer } log c →
      Program.Runs (c.step e.request) e.asked (.ok (c', e.effects)) → .start n s ∈ e.effects →
      s.env = (Ssh.life n log).filterMap Ssh.Request.assignment?) := by
  refine ⟨fun service path ↦ ⟨Git.PackService.call_congr hsent, rfl,
      Git.PackService.environment_call own⟩,
    fun service path io ↦ b.pack.only_calls service path (io.withEnv env),
    fun config s ↦ b.only_calls (Chain.indifferent_standard config) (s.withEnv env),
    fun service path io served' ↦ ⟨fun h ↦ ?_, ?_⟩,
    fun config s o s₁ ↦ ⟨fun h ↦ ?_, ?_⟩,
    fun _ _ _ _ _ _ _ ↦ Ssh.Connection.env_of_start⟩
  · obtain ⟨henv, hother⟩ := Git.PackService.ends_serve_withEnv env hsent.symm h
    exact ⟨served'.withEnv env, congrArg served'.withEnv henv, hother⟩
  · rintro ⟨served, rfl, h⟩
    exact (Git.PackService.ends_serve_withEnv env' hsent h).2
  · obtain ⟨henv, hother⟩ := (Chain.indifferent_standard config).ends_withEnv env hsent.symm h
    exact ⟨s₁.withEnv env, congrArg s₁.withEnv henv, hother⟩
  · rintro ⟨s₂, rfl, h⟩
    exact ((Chain.indifferent_standard config).ends_withEnv env' hsent h).2

/-- Neither an earlier value nor another name comes through, however close it is. -/
theorem two_clients_are_served_alike :
    let env := [("GIT_PROTOCOL", "version=1"), ("GIT_DIR", "/etc"), ("GIT_PROTOCOL", "version=2")]
    let env' := [("GIT_PROTOCOL", "version=2"), ("git_protocol", "version=0")]
    Git.lastSent "GIT_PROTOCOL" env = Git.lastSent "GIT_PROTOCOL" env' ∧
      ∀ (b : Backing) (own : String → Option String) service path,
        b.pack.call service path env = b.pack.call service path env' ∧
        ∀ name, (b.pack.call service path env).environment own name =
          if name = "GIT_PROTOCOL" then some "version=2" else own name := by
  intro env env'
  have hsent : Git.lastSent "GIT_PROTOCOL" env = Git.lastSent "GIT_PROTOCOL" env' := by decide
  refine ⟨hsent, fun b own service path ↦ ?_⟩
  obtain ⟨hcall, -, henvironment⟩ := (only_protocol_crosses b
    (fun _ _ _ ↦ .ok fun _ _ ↦ True) own (fun _ _ ↦ True) env env' hsent).1 service path
  refine ⟨hcall, fun name ↦ ?_⟩
  rw [henvironment]
  split
  · next hname =>
    rw [hname]
    rfl
  · rfl

end Backing

end GitGateway
