import GitGateway.Chain.Standard
import GitGateway.Proofs.Courses
import GitGateway.Proofs.DispatchOrder
import GitGateway.Scripted.Surroundings

/-!
# Who answers a session

Three stages of the standard chain each decide for themselves, by three different tests of the
command line, whether a session is theirs: the welcome, the built-in commands, and the transport.
Here the command line alone says which one it is (`Answerer.of`), and the three tests are compared
with that.

A run is **calm** if no question is answered by a crash.  In a calm run exactly one stage ends the
session, namely its answerer, and with the status that its command or its pack operation deserves
(`standard_ends_once`).  What the surroundings answer besides, and whether anything that is written
arrives, does not matter.
-/

namespace GitGateway

open Handler

/-! ## Calls -/

namespace Call

/-- Whether a question was answered by a crash. -/
def crashes : Call → Bool
  | ⟨.emit _, _⟩ => false
  | ⟨.accessLevel _ _, o⟩ => !o.isOk
  | ⟨.allowKeyless, o⟩ => !o.isOk
  | ⟨.lookup _, o⟩ => !o.isOk
  | ⟨.create _ _, o⟩ => !o.isOk
  | ⟨.list, o⟩ => !o.isOk
  | ⟨.serve _ _ _, served⟩ => !served.result.isOk

/-- Whether a pack operation ran to a good end. -/
def completes : Call → Bool
  | ⟨.serve _ _ _, served⟩ =>
    match served.result with
    | .ok (.ok ()) => true
    | _ => false
  | _ => false

end Call

/-- Whether nothing in a transcript crashes. -/
def IsCalm (t : List Call) : Prop := ∀ x ∈ t, Call.crashes x = false

instance : DecidablePred IsCalm := fun t ↦
  inferInstanceAs (Decidable (∀ x ∈ t, Call.crashes x = false))

namespace IsCalm

variable {x : Call} {t t' : List Call}

theorem append_iff : IsCalm (t ++ t') ↔ IsCalm t ∧ IsCalm t' := List.forall_mem_append

theorem cons_iff : IsCalm (x :: t) ↔ Call.crashes x = false ∧ IsCalm t := List.forall_mem_cons

end IsCalm

/-! ## Calm work on a session -/

/-- What calm work on a session leads to: it does not break off, and its value and the session
afterwards are as said. -/
def Handler.Leads {α : Type} (h : Handler α) (s : Session) (post : α → Session → Prop) : Prop :=
  ∀ t o s', Does h s t o s' → IsCalm t → ∃ a, o = .ok a ∧ post a s'

namespace Handler.Leads

variable {α β : Type} {h : Handler α} {f : α → Handler β} {s : Session}
variable {post : α → Session → Prop} {post' : β → Session → Prop}

theorem bind (hh : Leads h s post) (hf : ∀ a s', post a s' → Leads (f a) s' post') :
    Leads (h >>= f) s post' := by
  intro t o s' hdoes ht
  rcases does_bind_iff.1 hdoes with ⟨crash, h₁, -⟩ | ⟨t₁, a, s₁, t₂, rfl, h₁, h₂⟩
  · obtain ⟨a, ha, -⟩ := hh _ _ _ h₁ ht
    cases ha
  · obtain ⟨ht₁, ht₂⟩ := IsCalm.append_iff.1 ht
    obtain ⟨_, ha, hpost⟩ := hh _ _ _ h₁ ht₁
    cases ha
    exact hf a s₁ hpost _ _ _ h₂ ht₂

theorem pure {a : α} (hpost : post a s) : Leads (Pure.pure a) s post := by
  intro t o s' hdoes _
  obtain ⟨-, rfl, rfl⟩ := does_pure_iff.1 hdoes
  exact ⟨a, rfl, hpost⟩

theorem get_bind {f : Session → Handler α} (hf : Leads (f s) s post) : Leads (get >>= f) s post :=
  fun t o s' hdoes ↦ hf t o s' (does_get_bind_iff.1 hdoes)

theorem modify {g : Session → Session} {post : Unit → Session → Prop} (hpost : post () (g s)) :
    Leads (modify g) s post := by
  intro t o s' hdoes _
  obtain ⟨-, hr⟩ := Program.runs_done_iff.1 hdoes
  cases hr
  exact ⟨(), rfl, hpost⟩

/-- What asks one question leads to any answer but a crash, and leaves the session alone. -/
theorem call {call : Except Crash α → Call}
    (hcall : ∀ {t o s'}, Does h s t o s' ↔ t = [call o] ∧ s' = s)
    (hcrash : ∀ crash, (call (.error crash)).crashes = true) : Leads h s fun _ s' ↦ s' = s := by
  intro t o s' hdoes ht
  obtain ⟨rfl, rfl⟩ := hcall.1 hdoes
  cases o with
  | ok a => exact ⟨a, rfl, rfl⟩
  | error crash => exact absurd (hcrash crash) (by simp [ht _ List.mem_cons_self])

theorem emit (e : LogEvent) : Leads (Handler.emit e) s fun _ s' ↦ s' = s := by
  intro t o s' hdoes _
  obtain ⟨⟨⟩, -, hr⟩ := Program.runs_ask_done_iff.1 hdoes
  cases hr
  exact ⟨(), rfl, rfl⟩

theorem accessLevel (name : RepoName) (key : Option ClientKey) :
    Leads (Handler.accessLevel name key) s fun _ s' ↦ s' = s :=
  call does_accessLevel_iff fun _ ↦ rfl

theorem list : Leads Handler.list s fun _ s' ↦ s' = s := call does_list_iff fun _ ↦ rfl

end Handler.Leads

/-! ## The three answerers -/

namespace Session

variable {s : Session}

@[simp] theorem writeStdout_exitStatus (s : Session) (data : List UInt8) :
    (s.writeStdout data).2.exitStatus = s.exitStatus := by
  unfold writeStdout
  split <;> rfl

@[simp] theorem writeStderr_exitStatus (s : Session) (data : List UInt8) :
    (s.writeStderr data).2.exitStatus = s.exitStatus := by
  unfold writeStderr
  split <;> rfl

@[simp] theorem fatal_exitStatus (s : Session) (e : SessionError) :
    (s.fatal e).exitStatus = some (s.exitStatus.getD 1) := by
  unfold fatal
  rw [exit_exitStatus]
  split <;> rfl

theorem exitStatus_of_not_isTerminated (h : s.isTerminated = false) : s.exitStatus = none := by
  simpa [isTerminated] using h

theorem isTerminated_of_exitStatus {status : Nat} (h : s.exitStatus = some status) :
    s.isTerminated = true := by
  simp [isTerminated, h]

end Session

/-- Who answers a session. -/
inductive Answerer where
  | welcome
  | builtins
  | transport
deriving DecidableEq, Repr

namespace Answerer

/-- Who answers a command: nobody has to be asked for anything to tell. -/
def of : List String → Answerer
  | [] => .welcome
  | [_] => .builtins
  | program :: _ :: _ =>
    if program ∈ ["git-receive-pack", "git-upload-pack", "git-upload-archive"] then .transport
    else .builtins

/-- The stage of an answerer. -/
def stage (config : Config) : Answerer → Stage
  | .welcome => .welcome config
  | .builtins => .builtins
  | .transport => .transport config.reposPath

/-- The place of an answerer in the standard chain. -/
def place : Answerer → Nat
  | .welcome => 1
  | .builtins => 2
  | .transport => 3

theorem standard_place (config : Config) (a : Answerer) :
    (Chain.standard config)[a.place]? = some (a.stage config) := by
  cases a <;> rfl

/-- The status that a session deserves, given its command and whether a pack operation was carried
out for it. -/
def status (command : List String) (completed : Bool) : Answerer → Nat
  | .welcome => 0
  | .builtins => if command ∈ [["help"], ["info"], ["repo", "list"]] then 0 else 1
  | .transport => if completed then 0 else 1

end Answerer

namespace Git

theorem Service.ofProgram?_eq_none_iff {program : String} :
    Service.ofProgram? program = none ↔
      program ∉ ["git-receive-pack", "git-upload-pack", "git-upload-archive"] := by
  rw [Service.ofProgram?, List.find?_eq_none]
  constructor
  · intro h hmem
    simp only [List.mem_cons, List.not_mem_nil, or_false] at hmem
    rcases hmem with rfl | rfl | rfl
    · exact h .receivePack (by decide) (by decide)
    · exact h .uploadPack (by decide) (by decide)
    · exact h .uploadArchive (by decide) (by decide)
  · intro h service _ hprogram
    rw [← eq_of_beq hprogram] at h
    cases service <;> exact absurd h (by decide)

theorem Request.ofWords_eq_other_iff {command : List String} :
    Request.ofWords command = .other ↔ Answerer.of command ≠ .transport := by
  match command with
  | [] | [_] => exact ⟨fun _ h ↦ (nomatch h), fun _ ↦ rfl⟩
  | program :: repo :: rest =>
    rw [Request.ofWords, Answerer.of]
    cases hservice : Service.ofProgram? program with
    | none =>
      rw [if_neg (Service.ofProgram?_eq_none_iff.1 hservice)]
      exact ⟨fun _ h ↦ (nomatch h), fun _ ↦ rfl⟩
    | some service =>
      have hmem : program ∈ ["git-receive-pack", "git-upload-pack", "git-upload-archive"] := by
        refine Decidable.byContradiction fun h ↦ ?_
        rw [Service.ofProgram?_eq_none_iff.2 h] at hservice
        cases hservice
      rw [if_pos hmem]
      exact ⟨fun h ↦ (nomatch h), fun h ↦ absurd rfl h⟩

end Git

theorem Answerer.of_eq_welcome_iff {command : List String} :
    of command = .welcome ↔ command = [] := by
  match command with
  | [] | [_] => simp [of]
  | _ :: _ :: _ =>
    rw [of]
    split <;> simp

theorem Stage.isBuiltin_iff {command : List String} :
    isBuiltin command = true ↔ Answerer.of command = .builtins := by
  have hother : (Git.Request.ofWords command).service?.isNone = true ↔
      Git.Request.ofWords command = .other := by
    cases Git.Request.ofWords command <;> simp [Git.Request.service?]
  have hempty : (!command.isEmpty) = true ↔ Answerer.of command ≠ .welcome := by
    simp [Answerer.of_eq_welcome_iff]
  rw [isBuiltin, Bool.and_eq_true, hother, hempty, Git.Request.ofWords_eq_other_iff]
  cases Answerer.of command <;> simp

namespace Stage

/-- A stage that works before the rest and answers the sessions of one answerer: it ends those with
the status they deserve, and asks nothing for the others. -/
def Serves (stage : Stage) (a : Answerer) : Prop :=
  ∃ work, stage = .before work ∧ ∀ s t o s', s.isTerminated = false → Does work s t o s' →
    IsCalm t → o = .ok () ∧
      (Answerer.of s.command = a →
        s'.exitStatus = some (a.status s.command (t.any Call.completes))) ∧
      (Answerer.of s.command ≠ a → t = [] ∧ s' = s)

variable {s : Session}

theorem leads_readable (names : List RepoName) : Leads (readable names) s fun _ s' ↦ s' = s := by
  induction names with
  | nil => exact .pure rfl
  | cons name rest ih =>
    refine .get_bind ((Leads.accessLevel name s.key).bind ?_)
    rintro level _ rfl
    refine ih.bind ?_
    rintro others _ rfl
    exact .pure rfl

theorem leads_readableRepositories : Leads readableRepositories s fun _ s' ↦ s' = s := by
  refine Leads.list.bind ?_
  rintro (e | names) _ rfl
  · refine (Leads.emit _).bind ?_
    rintro _ _ rfl
    exact .pure rfl
  · exact leads_readable names

/-- Whatever is written, a session that has not ended ends with the status. -/
theorem leads_exit {g : Session → Session} (status : Nat) (hs : (g s).exitStatus = none) :
    Leads (do modify g; Handler.exit status) s fun _ s' ↦ s'.exitStatus = some status := by
  have hmodify : Leads (modify g) s fun _ s' ↦ s' = g s := .modify rfl
  refine hmodify.bind ?_
  rintro _ _ rfl
  exact .modify (by simp [hs])

/-- Sessions without a command are those of the welcome. -/
theorem serves_welcome (config : Config) : (Stage.welcome config).Serves .welcome := by
  refine ⟨_, rfl, fun s t o s' hs h ht ↦ ?_⟩
  have hempty : s.command.isEmpty = true ↔ Answerer.of s.command = .welcome :=
    List.isEmpty_iff.trans Answerer.of_eq_welcome_iff.symm
  rw [does_get_bind_iff] at h
  by_cases hof : Answerer.of s.command = .welcome
  · rw [if_pos (hempty.2 hof)] at h
    have hleads : Leads (do
        let repos ← readableRepositories
        Handler.writeStdout (Text.Utf8.encode (Screen.welcome config.name (shownPort config) repos))
        Handler.exit 0) s fun _ s' ↦ s'.exitStatus = some 0 := by
      refine leads_readableRepositories.bind ?_
      rintro repos _ rfl
      exact leads_exit 0 (by simp [Session.exitStatus_of_not_isTerminated hs])
    obtain ⟨_, rfl, hstatus⟩ := hleads t o s' h ht
    exact ⟨rfl, fun _ ↦ hstatus, fun hne ↦ absurd hof hne⟩
  · rw [if_neg fun h ↦ hof (hempty.1 h)] at h
    obtain ⟨rfl, rfl, rfl⟩ := does_pure_iff.1 h
    exact ⟨rfl, fun h ↦ absurd h hof, fun _ ↦ ⟨rfl, rfl⟩⟩

theorem leads_answer (command : List String) : Leads (answer command) s fun text? s' ↦
    s' = s ∧ (text?.isSome = true ↔ command ∈ [["help"], ["info"], ["repo", "list"]]) := by
  unfold answer
  split
  · exact .pure (by simp)
  · refine .get_bind ((Leads.accessLevel _ s.key).bind ?_)
    rintro level _ rfl
    exact .pure (by simp)
  · refine leads_readableRepositories.bind ?_
    rintro repos _ rfl
    exact .pure (by simp)
  · next hhelp hinfo hlist => exact .pure (by simpa using ⟨hhelp, hinfo, hlist⟩)

theorem leads_answerOrRefuse (command : List String) (completed : Bool)
    (hs : s.isTerminated = false) : Leads (answerOrRefuse command) s fun _ s' ↦
      s'.exitStatus = some (Answerer.builtins.status command completed) := by
  have hstatus := Session.exitStatus_of_not_isTerminated hs
  refine (leads_answer command).bind ?_
  rintro text? _ ⟨rfl, hknown⟩
  rw [Answerer.status]
  cases text? with
  | some text =>
    rw [if_pos (hknown.1 rfl)]
    exact leads_exit 0 (by simp [hstatus])
  | none =>
    rw [if_neg fun h ↦ Bool.false_ne_true (hknown.2 h)]
    refine .get_bind ((Leads.emit _).bind ?_)
    rintro _ _ rfl
    exact leads_exit 1 (by simp [hstatus])

/-- The built-in commands are those of the second answerer, known or not. -/
theorem serves_builtins : Stage.builtins.Serves .builtins := by
  refine ⟨_, rfl, fun s t o s' hs h ht ↦ ?_⟩
  rw [does_get_bind_iff] at h
  by_cases hof : Answerer.of s.command = .builtins
  · rw [if_pos (isBuiltin_iff.2 hof)] at h
    obtain ⟨_, rfl, hstatus⟩ := leads_answerOrRefuse s.command _ hs t o s' h ht
    exact ⟨rfl, fun _ ↦ hstatus, fun hne ↦ absurd hof hne⟩
  · rw [if_neg fun h ↦ hof (isBuiltin_iff.1 h)] at h
    obtain ⟨rfl, rfl, rfl⟩ := does_pure_iff.1 h
    exact ⟨rfl, fun h ↦ absurd h hof, fun _ ↦ ⟨rfl, rfl⟩⟩

end Stage

/-! ## The transport -/

namespace Dispatch

variable {root : String} {service : Git.Service} {name : RepoName} {path : RepoPath}
variable {s s' : Session} {t : List Call}

/-- Finding or making a target is no pack operation. -/
theorem Ensures.any_completes {o : Except Crash (Except SessionError Unit)}
    (h : Ensures name t o) : t.any Call.completes = false := by
  refine List.any_eq_false.2 fun ⟨q, answer⟩ hx ↦ ?_
  rcases h.asks hx with hq | hq | ⟨r, hq⟩ <;>
    · cases hq
      exact Bool.false_ne_true

theorem Ensures.not_isCalm_of_error {crash : Crash} (h : Ensures name t (.error crash)) :
    ¬ IsCalm t := by
  intro ht
  have hlast : ∃ x ∈ t, Call.crashes x = true := by
    cases h with
    | missing h =>
      cases h with
      | outrun h =>
        cases h with
        | crashed => exact ⟨_, List.mem_cons_of_mem _ (List.mem_cons_of_mem _ List.mem_cons_self), rfl⟩
      | crashed => exact ⟨_, List.mem_cons_of_mem _ List.mem_cons_self, rfl⟩
    | crashed => exact ⟨_, List.mem_cons_self, rfl⟩
  obtain ⟨x, hx, hcrash⟩ := hlast
  exact absurd (ht x hx) (by simp [hcrash])

/-- A pack operation that does not crash completes exactly if it ends well. -/
theorem verdict_eq_completed_iff {served : Served} {path : RepoPath} {io : PackIo}
    (h : Call.crashes ⟨.serve service path io, served⟩ = false) :
    ∃ v, served.result.map verdict = .ok v ∧ v ≠ .ok .passed ∧
      (v = .ok .completed ↔ Call.completes ⟨.serve service path io, served⟩ = true) := by
  obtain ⟨io', result⟩ := served
  match result with
  | .error crash => cases h
  | .ok (.ok ()) => exact ⟨_, rfl, by simp [verdict], by simp [verdict, Call.completes]⟩
  | .ok (.error .invalidRepository) =>
    exact ⟨_, rfl, by simp [verdict], by simp [verdict, Call.completes]⟩
  | .ok (.error (.failed f)) =>
    exact ⟨_, rfl, by simp [verdict], by simp [verdict, Call.completes]⟩

/-- What was granted completes exactly if a pack operation ran to a good end. -/
theorem Carries.completed_iff {o : Verdict} (h : Carries service name path s t o s')
    (ht : IsCalm t) : s'.exitStatus = s.exitStatus ∧ ∃ v, o = .ok v ∧ v ≠ .ok .passed ∧
      (v = .ok .completed ↔ t.any Call.completes = true) := by
  cases h with
  | fetched _ served =>
    obtain ⟨v, hv, hpassed, hcompleted⟩ := verdict_eq_completed_iff (ht _ List.mem_cons_self)
    exact ⟨rfl, v, hv, hpassed, by simpa using hcompleted⟩
  | pushed _ hensures served =>
    obtain ⟨v, hv, hpassed, hcompleted⟩ := verdict_eq_completed_iff
      (ht _ (List.mem_append_right _ List.mem_cons_self))
    refine ⟨rfl, v, hv, hpassed, ?_⟩
    rw [List.any_append, hensures.any_completes]
    simpa using hcompleted
  | unprepared _ hensures =>
    refine ⟨rfl, _, rfl, by simp, ?_⟩
    rw [hensures.any_completes]
    simp
  | crashed _ hensures => exact absurd ht hensures.not_isCalm_of_error

theorem Conduct.completed_iff {o : Verdict} (h : Conduct root s t o s') (ht : IsCalm t) :
    s'.exitStatus = s.exitStatus ∧ ∃ v, o = .ok v ∧
      (v = .ok .passed ↔ Git.Request.ofWords s.command = .other) ∧
      (v = .ok .completed ↔ t.any Call.completes = true) := by
  cases h with
  | passed hwords => exact ⟨rfl, _, rfl, by simp [hwords], by simp⟩
  | escaped hwords | unnamed hwords | denied hwords =>
    exact ⟨rfl, _, rfl, by simp [hwords], by simp [Call.completes]⟩
  | crashed crash => cases ht _ List.mem_cons_self
  | granted hwords hpath hname hlevel hcarries =>
    obtain ⟨hstatus, v, rfl, hpassed, hcompleted⟩ := hcarries.completed_iff (IsCalm.cons_iff.1 ht).2
    refine ⟨hstatus, v, rfl, by simp [hwords, hpassed], ?_⟩
    rw [hcompleted, List.any_cons]
    simp [Call.completes]

/-- What is no git request is passed on, and nothing is asked for it. -/
theorem Conduct.eq_passed {o : Verdict} (h : Conduct root s t o s')
    (hwords : Git.Request.ofWords s.command = .other) :
    t = [] ∧ o = .ok (.ok .passed) ∧ s' = s := by
  cases h with
  | passed => exact ⟨rfl, rfl, rfl⟩
  | escaped h | unnamed h | crashed _ h | denied h | granted h => cases hwords.symm.trans h

end Dispatch

namespace Stage

/-- The transport ends a git request well exactly if a pack operation ran to a good end for it. -/
theorem leads_settle {root : String} {s s₁ s' : Session} {t₁ t₂ : List Call}
    {v : Except SessionError Dispatched} {o : Except Crash Unit}
    (hs : s.isTerminated = false) (ht₁ : IsCalm t₁)
    (hconduct : Dispatch.Conduct root s t₁ (.ok v) s₁)
    (h : Does (match v with
      | .ok .passed => return ()
      | .ok .completed => Handler.exit 0
      | .error e => do
        Handler.emit (failureEvent (← get) e)
        Handler.fatal e) s₁ t₂ o s')
    (hof : Answerer.of s.command = .transport) :
    o = .ok () ∧ s'.exitStatus = some (if (t₁ ++ t₂).any Call.completes then 0 else 1) := by
  obtain ⟨hstatus, _, hv, hpassed, hcompleted⟩ := hconduct.completed_iff ht₁
  cases hv
  rw [Session.exitStatus_of_not_isTerminated hs] at hstatus
  rw [List.any_append]
  rcases v with e | _ | _
  · have hnone : t₁.any Call.completes = false := by
      rw [← Bool.not_eq_true, ← hcompleted]
      simp
    obtain ⟨t₃, rfl, hfatal⟩ := does_emit_bind_iff.1 (does_get_bind_iff.1 h)
    obtain ⟨rfl, hr⟩ := Program.runs_done_iff.1 hfatal
    cases hr
    exact ⟨rfl, by simp [hstatus, hnone, Call.completes]⟩
  · exact absurd hof (Git.Request.ofWords_eq_other_iff.1 (hpassed.1 rfl))
  · obtain ⟨rfl, hr⟩ := Program.runs_done_iff.1 h
    cases hr
    exact ⟨rfl, by simp [hstatus, hcompleted.1 rfl]⟩

/-- Git requests are those of the transport. -/
theorem serves_transport (root : String) : (transport root).Serves .transport := by
  refine ⟨_, rfl, fun s t o s' hs h ht ↦ ?_⟩
  rcases does_bind_iff.1 h with ⟨crash, hdispatch, -⟩ | ⟨t₁, v, s₁, t₂, rfl, hdispatch, h⟩
  · obtain ⟨-, _, hv, -⟩ := (Dispatch.does_dispatch_iff.1 hdispatch).completed_iff ht
    cases hv
  · have hconduct := Dispatch.does_dispatch_iff.1 hdispatch
    by_cases hof : Answerer.of s.command = .transport
    · obtain ⟨rfl, hstatus⟩ := leads_settle hs (IsCalm.append_iff.1 ht).1 hconduct h hof
      exact ⟨rfl, fun _ ↦ hstatus, fun hne ↦ absurd hof hne⟩
    · obtain ⟨rfl, hv, rfl⟩ := hconduct.eq_passed (Git.Request.ofWords_eq_other_iff.2 hof)
      cases hv
      obtain ⟨rfl, rfl, rfl⟩ := does_pure_iff.1 h
      exact ⟨rfl, fun h ↦ absurd h hof, fun _ ↦ ⟨rfl, rfl⟩⟩

end Stage

/-! ## The whole chain -/

namespace Chain

variable {n : Nat} {stage : Stage} {rest : List Stage} {s s' : Session} {t : List Call}
variable {turns : List Turn} {o : Except Crash Unit} {a : Answerer}

/-- A stage whose session it is ends it. -/
theorem Course.of_serves (h : Course n (stage :: rest) s t turns o s') (hstage : stage.Serves a)
    (hs : s.isTerminated = false) (ht : IsCalm t) (hof : Answerer.of s.command = a) :
    ∃ t₁ t₂ s₁ turns', t = t₁ ++ t₂ ∧
      s₁.exitStatus = some (a.status s.command (t₁.any Call.completes)) ∧
      Course (n + 1) rest s₁ t₂ turns' o s' ∧ Turn.enders turns = n :: Turn.enders turns' := by
  obtain ⟨work, rfl, hwork⟩ := hstage
  rcases h.before hs with ⟨crash, rfl, hdoes⟩ | ⟨t₁, t₂, s₁, turns', rfl, hdoes, hrest, hturns⟩
  · cases (hwork _ _ _ _ hs hdoes ht).1
  · obtain ⟨-, hstatus, -⟩ := hwork _ _ _ _ hs hdoes (IsCalm.append_iff.1 ht).1
    have hended : s₁.isTerminated = true := Session.isTerminated_of_exitStatus (hstatus hof)
    refine ⟨t₁, t₂, s₁, turns', rfl, hstatus hof, hrest, ?_⟩
    rw [hturns]
    simp [Turn.enders, Turn.ends, hs, hended]

/-- A stage whose session it is not passes it on as it is. -/
theorem Course.of_serves_of_ne (h : Course n (stage :: rest) s t turns o s')
    (hstage : stage.Serves a) (hs : s.isTerminated = false) (ht : IsCalm t)
    (hof : Answerer.of s.command ≠ a) :
    ∃ turns', Course (n + 1) rest s t turns' o s' ∧ Turn.enders turns = Turn.enders turns' := by
  obtain ⟨work, rfl, hwork⟩ := hstage
  rcases h.before hs with ⟨crash, rfl, hdoes⟩ | ⟨t₁, t₂, s₁, turns', rfl, hdoes, hrest, hturns⟩
  · cases (hwork _ _ _ _ hs hdoes ht).1
  · obtain ⟨-, -, hpass⟩ := hwork _ _ _ _ hs hdoes (IsCalm.append_iff.1 ht).1
    obtain ⟨rfl, rfl⟩ := hpass hof
    exact ⟨turns', hrest, by rw [hturns]; simp⟩

/-- Behind the containment, one of the three answerers ends the session. -/
theorem Course.of_answerer {config : Config} (h : Course 1
      [.welcome config, .builtins, .transport config.reposPath, .accessLog] s t turns o s')
    (hs : s.isTerminated = false) (ht : IsCalm t) :
    o = .ok () ∧ Turn.enders turns = [(Answerer.of s.command).place] ∧
      s'.exitStatus =
        some ((Answerer.of s.command).status s.command (t.any Call.completes)) := by
  have hwelcome := Stage.serves_welcome config
  have htransport := Stage.serves_transport config.reposPath
  cases hof : Answerer.of s.command with
  | welcome =>
    obtain ⟨t₁, t₂, s₁, turns', rfl, hstatus, h, hturns⟩ := h.of_serves hwelcome hs ht hof
    have hended := Session.isTerminated_of_exitStatus hstatus
    obtain ⟨-, rfl, rfl, hlog⟩ := ((h.of_isTerminated hended).of_isTerminated hended).accessLog
    exact ⟨rfl, by rw [hturns, hlog, Answerer.place], hstatus⟩
  | builtins =>
    obtain ⟨turns', h, hturns⟩ := h.of_serves_of_ne hwelcome hs ht (by simp [hof])
    obtain ⟨t₁, t₂, s₁, turns'', rfl, hstatus, h, hturns'⟩ :=
      h.of_serves Stage.serves_builtins hs ht hof
    obtain ⟨-, rfl, rfl, hlog⟩ :=
      (h.of_isTerminated (Session.isTerminated_of_exitStatus hstatus)).accessLog
    exact ⟨rfl, by rw [hturns, hturns', hlog, Answerer.place], hstatus⟩
  | transport =>
    obtain ⟨turns', h, hturns⟩ := h.of_serves_of_ne hwelcome hs ht (by simp [hof])
    obtain ⟨turns'', h, hturns'⟩ := h.of_serves_of_ne Stage.serves_builtins hs ht (by simp [hof])
    obtain ⟨t₁, t₂, s₁, turns₃, rfl, hstatus, h, hturns''⟩ := h.of_serves htransport hs ht hof
    obtain ⟨rfl, rfl, rfl, hlog⟩ := h.accessLog
    refine ⟨rfl, by rw [hturns, hturns', hturns'', hlog, Answerer.place], ?_⟩
    rw [hstatus, List.any_append]
    simp [Call.completes]

/-- In a calm course of the standard chain, the answerer and nobody else ends the session. -/
theorem Course.standard {config : Config} (h : Course 0 (Chain.standard config) s t turns o s')
    (hs : s.isTerminated = false) (ht : IsCalm t) :
    o = .ok () ∧ Turn.enders turns = [(Answerer.of s.command).place] ∧
      s'.exitStatus =
        some ((Answerer.of s.command).status s.command (t.any Call.completes)) := by
  obtain ⟨t₁, t₂, o₁, s₁, turns', rfl, hinner, hcalm⟩ := h.containment hs
  obtain ⟨rfl, hturns, hstatus⟩ := hinner.of_answerer hs (IsCalm.append_iff.1 ht).1
  obtain ⟨rfl, rfl, rfl, hturns'⟩ := hcalm rfl
  exact ⟨rfl, hturns'.trans hturns, by rwa [List.append_nil]⟩

/-- **Every session is answered once.**  In any surroundings, as long as they answer no question by
a crash, the standard chain comes to its end, exactly one stage ends the session, and that is the
stage of the command's answerer; the status is the one that the command or the pack operation
deserves.  So a session that went through the chain always has a status of its own. -/
theorem standard_ends_once {σ : Type} (answer : (q : Ask) → σ → q.Answer × σ) (config : Config)
    (s : Session) (x : σ) (hs : s.isTerminated = false)
    (ht : IsCalm (((run (standard config)).run.run s).transcript answer x)) :
    ∃ s' turns, (((run (standard config)).run.run s).run answer x).1 = (.ok (), s') ∧
      Course 0 (standard config) s (((run (standard config)).run.run s).transcript answer x)
        turns (.ok ()) s' ∧
      Turn.enders turns = [(Answerer.of s.command).place] ∧
      (standard config)[(Answerer.of s.command).place]? =
        some ((Answerer.of s.command).stage config) ∧
      s'.isTerminated = true ∧
      s'.exitStatus = some ((Answerer.of s.command).status s.command
        ((((run (standard config)).run.run s).transcript answer x).any Call.completes)) := by
  have hruns := Program.runs_transcript answer ((run (standard config)).run.run s) x
  generalize ((run (standard config)).run.run s).transcript answer x = t at hruns ht ⊢
  obtain ⟨⟨o, s'⟩, hrun⟩ : ∃ r, (((run (standard config)).run.run s).run answer x).1 = r := ⟨_, rfl⟩
  rw [hrun] at hruns ⊢
  obtain ⟨turns, hcourse⟩ := does_run_iff.1 hruns
  obtain ⟨rfl, hturns, hstatus⟩ := hcourse.standard hs ht
  exact ⟨s', turns, rfl, hcourse, hturns, Answerer.standard_place config _,
    Session.isTerminated_of_exitStatus hstatus, hstatus⟩

/-- A push to a repository that is missing, by a client that takes three bytes only, on a pack
service that refuses: the welcome and the built-in commands pass it on, and the transport ends it
with a failure. -/
theorem refused_push_ends_once :
    let s : Session := { command := ["git-receive-pack", "x.git"], stdout := { limit := some 3 } }
    let x : Scripted.Surroundings := { anonymousLevel := .readWrite, pack := { reply := .fails } }
    let p : Asking (Except Crash Unit × Session) :=
      (run (standard { dataPath := "/srv" })).run.run s
    s.isTerminated = false ∧ IsCalm (p.transcript Scripted.Surroundings.answer x) ∧
      ∃ s' turns, (p.run Scripted.Surroundings.answer x).1 = (.ok (), s') ∧
        Course 0 (standard { dataPath := "/srv" }) s
          (p.transcript Scripted.Surroundings.answer x) turns (.ok ()) s' ∧
        Turn.enders turns = [3] ∧ s'.exitStatus = some 1 := by
  intro s x p
  have hs : s.isTerminated = false := rfl
  have hcalm : IsCalm (p.transcript Scripted.Surroundings.answer x) := by decide +kernel
  obtain ⟨s', turns, hrun, hcourse, hturns, -, -, hstatus⟩ :=
    standard_ends_once Scripted.Surroundings.answer { dataPath := "/srv" } s x hs hcalm
  have hanswerer : Answerer.of s.command = .transport := by decide
  have hcompleted : (p.transcript Scripted.Surroundings.answer x).any Call.completes = false := by
    decide +kernel
  rw [hanswerer] at hturns hstatus
  rw [hcompleted] at hstatus
  exact ⟨hs, hcalm, s', turns, hrun, hcourse, hturns, hstatus⟩

end Chain

end GitGateway
