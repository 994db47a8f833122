import GitGateway.Dispatch
import GitGateway.Proofs.Transcripts

/-!
# The order of a dispatch

What a dispatch asks for, and in which order, is written down here as a relation between a session,
a transcript and an end, without a program: first the **level**, then, if it suffices, what a push
needs to find or make its target, and at last one **pack operation**.  The dispatcher's runs are
exactly those of the relation (`does_dispatch_iff`), whatever it is answered: a store may claim that
a repository is missing and then that it exists, and every question may be answered by a crash.
-/

namespace GitGateway.Dispatch

open Handler

/-- The least level that an operation needs. -/
def needed : Git.Service → AccessLevel
  | .receivePack => .readWrite
  | .uploadPack | .uploadArchive => .readOnly

theorem permits_iff {level : AccessLevel} {service : Git.Service} :
    permits level service = true ↔ needed service ≤ level := by
  cases service <;> exact decide_eq_true_iff

theorem needed_of_ne_receivePack {service : Git.Service} (h : service ≠ .receivePack) :
    needed service = .readOnly := by
  cases service with
  | receivePack => exact absurd rfl h
  | uploadPack | uploadArchive => rfl

/-! ## Finding or making the target of a push -/

section Target

variable (name : RepoName)

/-- Looking a repository up that somebody else is said to have created. -/
inductive Awaits : List Call → Except Crash (Except SessionError Unit) → Prop where
  | found (r : Repository) : Awaits [⟨.lookup name, .ok (.ok r)⟩] (.ok (.ok ()))
  | vanished (e : BackendError) : Awaits [⟨.lookup name, .ok (.error e)⟩]
      (.ok (.error (.systemFailure
        (e.failure.context ("repository " ++ name.text ++ " vanished after concurrent creation")))))
  | crashed (crash : Crash) : Awaits [⟨.lookup name, .error crash⟩] (.error crash)

/-- Creating a repository, which is never a private one. -/
inductive Creates : List Call → Except Crash (Except SessionError Unit) → Prop where
  | created (r : Repository) :
      Creates [⟨.create name false, .ok (.ok r)⟩, ⟨.emit (createdEvent r), ()⟩] (.ok (.ok ()))
  | outrun {t : List Call} {o : Except Crash (Except SessionError Unit)} (h : Awaits name t o) :
      Creates (⟨.create name false, .ok (.error .alreadyExists)⟩ :: t) o
  | refused (e : BackendError) (he : e ≠ .alreadyExists) :
      Creates [⟨.create name false, .ok (.error e)⟩]
        (.ok (.error (.systemFailure
          (e.failure.context ("failed to create repository " ++ name.text)))))
  | crashed (crash : Crash) : Creates [⟨.create name false, .error crash⟩] (.error crash)

/-- Looking a repository up, and creating it only if it was not found. -/
inductive Ensures : List Call → Except Crash (Except SessionError Unit) → Prop where
  | found (r : Repository) : Ensures [⟨.lookup name, .ok (.ok r)⟩] (.ok (.ok ()))
  | missing {t : List Call} {o : Except Crash (Except SessionError Unit)} (h : Creates name t o) :
      Ensures (⟨.lookup name, .ok (.error .notFound)⟩ :: t) o
  | refused (e : BackendError) (he : e ≠ .notFound) :
      Ensures [⟨.lookup name, .ok (.error e)⟩]
        (.ok (.error (.systemFailure
          (e.failure.context ("failed to look up repository " ++ name.text)))))
  | crashed (crash : Crash) : Ensures [⟨.lookup name, .error crash⟩] (.error crash)

variable {name} {s s' : Session} {t : List Call} {o : Except Crash (Except SessionError Unit)}

theorem does_awaitWinner_iff : Does (awaitWinner name) s t o s' ↔ Awaits name t o ∧ s' = s := by
  rw [awaitWinner, does_call_bind_iff does_lookup_iff]
  constructor
  · rintro (⟨crash, rfl, rfl, rfl⟩ | ⟨a, t, rfl, h⟩)
    · exact ⟨.crashed crash, rfl⟩
    · cases a with
      | ok r =>
        obtain ⟨rfl, rfl, rfl⟩ := does_pure_iff.1 h
        exact ⟨.found r, rfl⟩
      | error e =>
        obtain ⟨rfl, rfl, rfl⟩ := does_pure_iff.1 h
        exact ⟨.vanished e, rfl⟩
  · rintro ⟨h, rfl⟩
    cases h with
    | found r => exact .inr ⟨.ok r, [], rfl, does_pure_iff.2 ⟨rfl, rfl, rfl⟩⟩
    | vanished e => exact .inr ⟨.error e, [], rfl, does_pure_iff.2 ⟨rfl, rfl, rfl⟩⟩
    | crashed crash => exact .inl ⟨crash, rfl, rfl, rfl⟩

theorem does_createMissing_iff :
    Does (createMissing name) s t o s' ↔ Creates name t o ∧ s' = s := by
  rw [createMissing, does_call_bind_iff does_create_iff]
  constructor
  · rintro (⟨crash, rfl, rfl, rfl⟩ | ⟨a, t, rfl, h⟩)
    · exact ⟨.crashed crash, rfl⟩
    · rcases a with e | r
      · cases e with
        | alreadyExists =>
          obtain ⟨hawaits, rfl⟩ := does_awaitWinner_iff.1 h
          exact ⟨.outrun hawaits, rfl⟩
        | notFound | other =>
          obtain ⟨rfl, rfl, rfl⟩ := does_pure_iff.1 h
          exact ⟨.refused _ (by simp), rfl⟩
      · obtain ⟨rfl, rfl, rfl⟩ := does_emit_return_iff.1 h
        exact ⟨.created r, rfl⟩
  · rintro ⟨h, rfl⟩
    cases h with
    | created r => exact .inr ⟨.ok r, _, rfl, does_emit_return_iff.2 ⟨rfl, rfl, rfl⟩⟩
    | outrun h => exact .inr ⟨.error .alreadyExists, _, rfl, does_awaitWinner_iff.2 ⟨h, rfl⟩⟩
    | refused e he =>
      refine .inr ⟨.error e, [], rfl, ?_⟩
      cases e with
      | alreadyExists => exact absurd rfl he
      | notFound | other => exact does_pure_iff.2 ⟨rfl, rfl, rfl⟩
    | crashed crash => exact .inl ⟨crash, rfl, rfl, rfl⟩

theorem does_ensureRepository_iff :
    Does (ensureRepository name) s t o s' ↔ Ensures name t o ∧ s' = s := by
  rw [ensureRepository, does_call_bind_iff does_lookup_iff]
  constructor
  · rintro (⟨crash, rfl, rfl, rfl⟩ | ⟨a, t, rfl, h⟩)
    · exact ⟨.crashed crash, rfl⟩
    · rcases a with e | r
      · cases e with
        | notFound =>
          obtain ⟨hcreates, rfl⟩ := does_createMissing_iff.1 h
          exact ⟨.missing hcreates, rfl⟩
        | alreadyExists | other =>
          obtain ⟨rfl, rfl, rfl⟩ := does_pure_iff.1 h
          exact ⟨.refused _ (by simp), rfl⟩
      · obtain ⟨rfl, rfl, rfl⟩ := does_pure_iff.1 h
        exact ⟨.found r, rfl⟩
  · rintro ⟨h, rfl⟩
    cases h with
    | found r => exact .inr ⟨.ok r, [], rfl, does_pure_iff.2 ⟨rfl, rfl, rfl⟩⟩
    | missing h => exact .inr ⟨.error .notFound, _, rfl, does_createMissing_iff.2 ⟨h, rfl⟩⟩
    | refused e he =>
      refine .inr ⟨.error e, [], rfl, ?_⟩
      cases e with
      | notFound => exact absurd rfl he
      | alreadyExists | other => exact does_pure_iff.2 ⟨rfl, rfl, rfl⟩
    | crashed crash => exact .inl ⟨crash, rfl, rfl, rfl⟩

end Target

/-! ## Serving -/

/-- How a dispatch ends. -/
abbrev Verdict := Except Crash (Except SessionError Dispatched)

/-- What the end of a pack operation means for the session. -/
def verdict : Except PackError Unit → Except SessionError Dispatched
  | .ok () => .ok .completed
  | .error .invalidRepository => .error .invalidRepository
  | .error (.failed f) => .error (.systemFailure f)

section Serving

variable {service : Git.Service} {name : RepoName} {path : RepoPath} {s s' : Session}
variable {t : List Call} {o : Verdict}

theorem does_serve_iff : Does (serve service path) s t o s' ↔ ∃ served,
    t = [⟨.serve service path s.packIo, served⟩] ∧ o = served.result.map verdict ∧
      s' = s.withIo served.io := by
  unfold serve
  rw [does_bind_iff]
  simp only [Handler.does_serve_iff]
  constructor
  · rintro (⟨crash, ⟨served, rfl, hresult, rfl⟩, rfl⟩ |
      ⟨t₁, a, s₁, t₂, rfl, ⟨served, rfl, hresult, rfl⟩, h⟩)
    · exact ⟨served, rfl, by rw [← hresult]; rfl, rfl⟩
    · refine ⟨served, ?_⟩
      rw [← hresult]
      rcases a with (_ | f) | ⟨⟩ <;>
        · obtain ⟨rfl, rfl, rfl⟩ := does_pure_iff.1 h
          exact ⟨rfl, rfl, rfl⟩
  · rintro ⟨served, rfl, rfl, rfl⟩
    cases hresult : served.result with
    | error crash => exact .inl ⟨crash, ⟨served, rfl, hresult.symm, rfl⟩, rfl⟩
    | ok a =>
      refine .inr ⟨_, a, _, [], rfl, ⟨served, rfl, hresult.symm, rfl⟩, ?_⟩
      rcases a with (_ | f) | ⟨⟩ <;> exact does_pure_iff.2 ⟨rfl, rfl, rfl⟩

variable (service name path s)

/-- What is done for a request that was granted: a push first finds or makes its target, and the
pack operation comes last. -/
inductive Carries : List Call → Verdict → Session → Prop where
  | fetched (h : service ≠ .receivePack) (served : Served) :
      Carries [⟨.serve service path s.packIo, served⟩] (served.result.map verdict)
        (s.withIo served.io)
  | pushed (h : service = .receivePack) {t : List Call} (ht : Ensures name t (.ok (.ok ())))
      (served : Served) :
      Carries (t ++ [⟨.serve service path s.packIo, served⟩]) (served.result.map verdict)
        (s.withIo served.io)
  | unprepared (h : service = .receivePack) {t : List Call} {e : SessionError}
      (ht : Ensures name t (.ok (.error e))) : Carries t (.ok (.error e)) s
  | crashed (h : service = .receivePack) {t : List Call} {crash : Crash}
      (ht : Ensures name t (.error crash)) : Carries t (.error crash) s

variable {service name path s}

theorem does_serve_iff_carries (h : service ≠ .receivePack) :
    Does (serve service path) s t o s' ↔ Carries service name path s t o s' := by
  rw [does_serve_iff]
  constructor
  · rintro ⟨served, rfl, rfl, rfl⟩
    exact .fetched h served
  · rintro (⟨-, served⟩ | ⟨hpush, -, -⟩ | ⟨hpush, -⟩ | ⟨hpush, -⟩)
    · exact ⟨served, rfl, rfl, rfl⟩
    all_goals exact absurd hpush h

theorem does_push_iff_carries :
    Does (serveAuthorized .receivePack name path) s t o s' ↔
      Carries .receivePack name path s t o s' := by
  rw [serveAuthorized, does_bind_iff]
  simp only [does_ensureRepository_iff]
  constructor
  · rintro (⟨crash, ⟨ht, rfl⟩, rfl⟩ | ⟨t₁, a, s₁, t₂, rfl, ⟨ht, rfl⟩, h⟩)
    · exact .crashed rfl ht
    · rcases a with e | ⟨⟩
      · obtain ⟨rfl, rfl, rfl⟩ := does_pure_iff.1 h
        rw [List.append_nil]
        exact .unprepared rfl ht
      · obtain ⟨served, rfl, rfl, rfl⟩ := does_serve_iff.1 h
        exact .pushed rfl ht served
  · rintro (⟨hfetch, -⟩ | ⟨-, ht, served⟩ | ⟨-, ht⟩ | ⟨-, ht⟩)
    · exact absurd rfl hfetch
    · exact .inr ⟨_, _, _, _, rfl, ⟨ht, rfl⟩, does_serve_iff.2 ⟨served, rfl, rfl, rfl⟩⟩
    · exact .inr ⟨t, _, _, [], (List.append_nil t).symm, ⟨ht, rfl⟩, does_pure_iff.2 ⟨rfl, rfl, rfl⟩⟩
    · exact .inl ⟨_, ⟨ht, rfl⟩, rfl⟩

theorem does_serveAuthorized_iff :
    Does (serveAuthorized service name path) s t o s' ↔ Carries service name path s t o s' := by
  cases service with
  | receivePack => exact does_push_iff_carries
  | uploadPack | uploadArchive => exact does_serve_iff_carries (by simp)

end Serving

/-! ## Requests -/

section Requests

variable (root : String) (s : Session)

/-- What a dispatch asks for and how it ends. -/
inductive Conduct : List Call → Verdict → Session → Prop where
  | passed (h : Git.Request.ofWords s.command = .other) : Conduct [] (.ok (.ok .passed)) s
  | escaped {service : Git.Service} {name : RepoName} {e : PathEscape}
      (h : Git.Request.ofWords s.command = .pack service name)
      (hpath : Confine.repoPath root name = .error e) :
      Conduct [⟨.emit e.event, ()⟩] (.ok (.error (.pathEscape e))) s
  | unnamed {service : Git.Service} {name : RepoName} {path : RepoPath}
      (h : Git.Request.ofWords s.command = .pack service name)
      (hpath : Confine.repoPath root name = .ok path) (hname : name.isEmpty = true) :
      Conduct [] (.ok (.error .invalidRepository)) s
  | crashed {service : Git.Service} {name : RepoName} {path : RepoPath} (crash : Crash)
      (h : Git.Request.ofWords s.command = .pack service name)
      (hpath : Confine.repoPath root name = .ok path) (hname : name.isEmpty = false) :
      Conduct [⟨.accessLevel name s.key, .error crash⟩] (.error crash) s
  | denied {service : Git.Service} {name : RepoName} {path : RepoPath} {level : AccessLevel}
      (h : Git.Request.ofWords s.command = .pack service name)
      (hpath : Confine.repoPath root name = .ok path) (hname : name.isEmpty = false)
      (hlevel : ¬ needed service ≤ level) :
      Conduct [⟨.accessLevel name s.key, .ok level⟩] (.ok (.error .notAuthorized)) s
  | granted {service : Git.Service} {name : RepoName} {path : RepoPath} {level : AccessLevel}
      {t : List Call} {o : Verdict} {s' : Session}
      (h : Git.Request.ofWords s.command = .pack service name)
      (hpath : Confine.repoPath root name = .ok path) (hname : name.isEmpty = false)
      (hlevel : needed service ≤ level) (ht : Carries service name path s t o s') :
      Conduct (⟨.accessLevel name s.key, .ok level⟩ :: t) o s'

variable {root s} {s' : Session} {t : List Call} {o : Verdict}

/-- A request that was confined is granted or denied by the answer to one question. -/
theorem does_authorize_iff {service : Git.Service} {name : RepoName} {path : RepoPath} :
    Does (do
        let level ← accessLevel name (← get).key
        if permits level service then serveAuthorized service name path
        else return .error .notAuthorized) s t o s' ↔
      (∃ crash, t = [⟨.accessLevel name s.key, .error crash⟩] ∧ o = .error crash ∧ s' = s) ∨
        ∃ level t', t = ⟨.accessLevel name s.key, .ok level⟩ :: t' ∧
          (¬ needed service ≤ level ∧ t' = [] ∧ o = .ok (.error .notAuthorized) ∧ s' = s ∨
            needed service ≤ level ∧ Carries service name path s t' o s') := by
  rw [does_get_bind_iff, does_call_bind_iff does_accessLevel_iff]
  refine or_congr_right (exists_congr fun level ↦ exists_congr fun t' ↦ and_congr_right fun _ ↦ ?_)
  by_cases hlevel : needed service ≤ level
  · rw [if_pos (permits_iff.2 hlevel), does_serveAuthorized_iff]
    simp [hlevel]
  · rw [if_neg fun h ↦ hlevel (permits_iff.1 h), does_pure_iff]
    simp [hlevel]

theorem does_request_of_error {service : Git.Service} {name : RepoName} {e : PathEscape}
    (hpath : Confine.repoPath root name = .error e) :
    Does (request root service name) s t o s' ↔
      t = [⟨.emit e.event, ()⟩] ∧ o = .ok (.error (.pathEscape e)) ∧ s' = s := by
  unfold request confine
  rw [hpath]
  exact does_emit_return_iff

theorem does_request_of_ok {service : Git.Service} {name : RepoName} {path : RepoPath}
    (hpath : Confine.repoPath root name = .ok path) :
    Does (request root service name) s t o s' ↔
      Does (if name.isEmpty then return .error .invalidRepository
        else do
          let level ← accessLevel name (← get).key
          if permits level service then serveAuthorized service name path
          else return .error .notAuthorized) s t o s' := by
  unfold request confine
  rw [hpath]
  rfl

theorem does_dispatch_of_pack {service : Git.Service} {name : RepoName}
    (hwords : Git.Request.ofWords s.command = .pack service name) :
    Does (dispatch root) s t o s' ↔ Does (request root service name) s t o s' := by
  rw [dispatch, does_get_bind_iff, hwords]

/-- What comes of a request that was confined and names a repository. -/
theorem does_dispatch_of_confined {service : Git.Service} {name : RepoName} {path : RepoPath}
    (hwords : Git.Request.ofWords s.command = .pack service name)
    (hpath : Confine.repoPath root name = .ok path) (hname : name.isEmpty = false) :
    Does (dispatch root) s t o s' ↔
      (∃ crash, t = [⟨.accessLevel name s.key, .error crash⟩] ∧ o = .error crash ∧ s' = s) ∨
        ∃ level t', t = ⟨.accessLevel name s.key, .ok level⟩ :: t' ∧
          (¬ needed service ≤ level ∧ t' = [] ∧ o = .ok (.error .notAuthorized) ∧ s' = s ∨
            needed service ≤ level ∧ Carries service name path s t' o s') := by
  rw [does_dispatch_of_pack hwords, does_request_of_ok hpath, hname, if_neg Bool.false_ne_true,
    does_authorize_iff]

/-- The runs of a dispatch are those of the relation. -/
theorem does_dispatch_iff : Does (dispatch root) s t o s' ↔ Conduct root s t o s' := by
  constructor
  · intro h
    cases hwords : Git.Request.ofWords s.command with
    | other =>
      rw [dispatch, does_get_bind_iff, hwords] at h
      obtain ⟨rfl, rfl, rfl⟩ := does_pure_iff.1 h
      exact .passed hwords
    | pack service name =>
      cases hpath : Confine.repoPath root name with
      | error e =>
        rw [does_dispatch_of_pack hwords, does_request_of_error hpath] at h
        obtain ⟨rfl, rfl, rfl⟩ := h
        exact .escaped hwords hpath
      | ok path =>
        cases hname : name.isEmpty with
        | true =>
          rw [does_dispatch_of_pack hwords, does_request_of_ok hpath, hname, if_pos rfl] at h
          obtain ⟨rfl, rfl, rfl⟩ := does_pure_iff.1 h
          exact .unnamed hwords hpath hname
        | false =>
          rcases (does_dispatch_of_confined hwords hpath hname).1 h with ⟨crash, rfl, rfl, rfl⟩ |
            ⟨level, t', rfl, ⟨hlevel, rfl, rfl, rfl⟩ | ⟨hlevel, ht⟩⟩
          · exact .crashed crash hwords hpath hname
          · exact .denied hwords hpath hname hlevel
          · exact .granted hwords hpath hname hlevel ht
  · intro h
    cases h with
    | passed hwords =>
      rw [dispatch, does_get_bind_iff, hwords]
      exact does_pure_iff.2 ⟨rfl, rfl, rfl⟩
    | escaped hwords hpath =>
      rw [does_dispatch_of_pack hwords, does_request_of_error hpath]
      exact ⟨rfl, rfl, rfl⟩
    | unnamed hwords hpath hname =>
      rw [does_dispatch_of_pack hwords, does_request_of_ok hpath, hname, if_pos rfl]
      exact does_pure_iff.2 ⟨rfl, rfl, rfl⟩
    | crashed crash hwords hpath hname =>
      exact (does_dispatch_of_confined hwords hpath hname).2 (.inl ⟨crash, rfl, rfl, rfl⟩)
    | denied hwords hpath hname hlevel =>
      exact (does_dispatch_of_confined hwords hpath hname).2
        (.inr ⟨_, [], rfl, .inl ⟨hlevel, rfl, rfl, rfl⟩⟩)
    | granted hwords hpath hname hlevel ht =>
      exact (does_dispatch_of_confined hwords hpath hname).2
        (.inr ⟨_, _, rfl, .inr ⟨hlevel, ht⟩⟩)

/-! ## What stands before an effect -/

theorem Awaits.asks {name : RepoName} {o : Except Crash (Except SessionError Unit)} {x : Call}
    (h : Awaits name t o) (hx : x ∈ t) : x.1 = .lookup name := by
  cases h <;>
    · obtain rfl := List.mem_singleton.1 hx
      rfl

/-- Finding or making a target asks for nothing but that. -/
theorem Creates.asks {name : RepoName} {o : Except Crash (Except SessionError Unit)} {x : Call}
    (h : Creates name t o) (hx : x ∈ t) :
    x.1 = .lookup name ∨ x.1 = .create name false ∨ ∃ r, x.1 = .emit (createdEvent r) := by
  cases h with
  | created r =>
    rcases List.mem_cons.1 hx with rfl | hx
    · exact .inr (.inl rfl)
    · obtain rfl := List.mem_singleton.1 hx
      exact .inr (.inr ⟨r, rfl⟩)
  | outrun h =>
    rcases List.mem_cons.1 hx with rfl | hx
    · exact .inr (.inl rfl)
    · exact .inl (h.asks hx)
  | refused | crashed =>
    obtain rfl := List.mem_singleton.1 hx
    exact .inr (.inl rfl)

theorem Ensures.asks {name : RepoName} {o : Except Crash (Except SessionError Unit)} {x : Call}
    (h : Ensures name t o) (hx : x ∈ t) :
    x.1 = .lookup name ∨ x.1 = .create name false ∨ ∃ r, x.1 = .emit (createdEvent r) := by
  cases h with
  | missing h =>
    rcases List.mem_cons.1 hx with rfl | hx
    · exact .inl rfl
    · exact h.asks hx
  | found | refused | crashed =>
    obtain rfl := List.mem_singleton.1 hx
    exact .inl rfl

/-- A creation is asked for once, right behind the answer that the target was not found. -/
theorem Ensures.of_create {name n : RepoName} {isPrivate : Bool}
    {o : Except Crash (Except SessionError Unit)} {answer : (Ask.create n isPrivate).Answer}
    (h : Ensures name t o) (hx : (⟨.create n isPrivate, answer⟩ : Call) ∈ t) :
    n = name ∧ isPrivate = false ∧ ∃ rest,
      t = ⟨.lookup name, .ok (.error .notFound)⟩ :: ⟨.create n isPrivate, answer⟩ :: rest := by
  cases h with
  | missing h =>
    have hmem := (List.mem_cons.1 hx).resolve_left (by rintro ⟨⟩)
    cases h with
    | created r =>
      rcases List.mem_cons.1 hmem with h | h
      · cases h
        exact ⟨rfl, rfl, _, rfl⟩
      · cases List.mem_singleton.1 h
    | outrun hawaits =>
      rcases List.mem_cons.1 hmem with h | h
      · cases h
        exact ⟨rfl, rfl, _, rfl⟩
      · cases hawaits.asks h
    | refused | crashed =>
      cases List.mem_singleton.1 hmem
      exact ⟨rfl, rfl, _, rfl⟩
  | found | refused | crashed => cases List.mem_singleton.1 hx

theorem Ensures.serve_notMem {name : RepoName} {o : Except Crash (Except SessionError Unit)}
    {service : Git.Service} {path : RepoPath} {io : PackIo} {served : Served}
    (h : Ensures name t o) : (⟨.serve service path io, served⟩ : Call) ∉ t := by
  intro hx
  rcases h.asks hx with h | h | ⟨r, h⟩ <;> cases h

theorem Ensures.accessLevel_notMem {name n : RepoName} {key : Option ClientKey}
    {o : Except Crash (Except SessionError Unit)} {answer : (Ask.accessLevel n key).Answer}
    (h : Ensures name t o) : (⟨.accessLevel n key, answer⟩ : Call) ∉ t := by
  intro hx
  rcases h.asks hx with h | h | ⟨r, h⟩ <;> cases h

theorem Carries.accessLevel_notMem {service : Git.Service} {name n : RepoName} {path : RepoPath}
    {key : Option ClientKey} {answer : (Ask.accessLevel n key).Answer}
    (h : Carries service name path s t o s') : (⟨.accessLevel n key, answer⟩ : Call) ∉ t := by
  intro hx
  cases h with
  | fetched hfetch served => cases List.mem_singleton.1 hx
  | pushed hpush ht served =>
    rcases List.mem_append.1 hx with hx | hx
    · exact ht.accessLevel_notMem hx
    · cases List.mem_singleton.1 hx
  | unprepared hpush ht | crashed hpush ht => exact ht.accessLevel_notMem hx

/-- A pack operation is the last thing that is asked for.  It is granted by the answer to the first
question, which was about the name whose confined path is served, and a push has its target then. -/
theorem Conduct.of_serve {service : Git.Service} {path : RepoPath} {io : PackIo} {served : Served}
    (h : Conduct root s t o s') (hx : (⟨.serve service path io, served⟩ : Call) ∈ t) :
    ∃ name level before, Git.Request.ofWords s.command = .pack service name ∧
      Confine.repoPath root name = .ok path ∧ needed service ≤ level ∧ io = s.packIo ∧
      t = ⟨.accessLevel name s.key, .ok level⟩ :: (before ++ [⟨.serve service path io, served⟩]) ∧
      if service = .receivePack then Ensures name before (.ok (.ok ())) else before = [] := by
  cases h with
  | passed | unnamed => cases hx
  | escaped | crashed | denied => cases List.mem_singleton.1 hx
  | granted hwords hpath hname hlevel ht =>
    have hmem := (List.mem_cons.1 hx).resolve_left (by rintro ⟨⟩)
    cases ht with
    | fetched hfetch served' =>
      cases List.mem_singleton.1 hmem
      exact ⟨_, _, [], hwords, hpath, hlevel, rfl, rfl, by rw [if_neg hfetch]⟩
    | pushed hpush ht served' =>
      cases List.mem_singleton.1 ((List.mem_append.1 hmem).resolve_left ht.serve_notMem)
      exact ⟨_, _, _, hwords, hpath, hlevel, rfl, rfl, by rwa [if_pos hpush]⟩
    | unprepared hpush ht | crashed hpush ht => exact absurd hmem ht.serve_notMem

/-- A repository is only ever created by a push that was granted, for the name that was asked about,
behind the answer that it was not found, and never as a private one. -/
theorem Conduct.of_create {n : RepoName} {isPrivate : Bool}
    {answer : (Ask.create n isPrivate).Answer} (h : Conduct root s t o s')
    (hx : (⟨.create n isPrivate, answer⟩ : Call) ∈ t) :
    Git.Request.ofWords s.command = .pack .receivePack n ∧ isPrivate = false ∧
      ∃ level rest, AccessLevel.readWrite ≤ level ∧
        t = ⟨.accessLevel n s.key, .ok level⟩ :: ⟨.lookup n, .ok (.error .notFound)⟩ ::
          ⟨.create n isPrivate, answer⟩ :: rest := by
  cases h with
  | passed | unnamed => cases hx
  | escaped | crashed | denied => cases List.mem_singleton.1 hx
  | granted hwords hpath hname hlevel ht =>
    have hmem := (List.mem_cons.1 hx).resolve_left (by rintro ⟨⟩)
    cases ht with
    | fetched hfetch served => cases List.mem_singleton.1 hmem
    | pushed hpush ht served =>
      subst hpush
      rcases List.mem_append.1 hmem with hmem | hmem
      · obtain ⟨rfl, rfl, rest, rfl⟩ := ht.of_create hmem
        exact ⟨hwords, rfl, _, _, hlevel, rfl⟩
      · cases List.mem_singleton.1 hmem
    | unprepared hpush ht | crashed hpush ht =>
      subst hpush
      obtain ⟨rfl, rfl, rest, rfl⟩ := ht.of_create hmem
      exact ⟨hwords, rfl, _, _, hlevel, rfl⟩

/-- The level is only ever asked for of the name that the command gives and of the session's key. -/
theorem Conduct.of_accessLevel {n : RepoName} {key : Option ClientKey}
    {answer : (Ask.accessLevel n key).Answer} (h : Conduct root s t o s')
    (hx : (⟨.accessLevel n key, answer⟩ : Call) ∈ t) :
    key = s.key ∧ ∃ service, Git.Request.ofWords s.command = .pack service n := by
  cases h with
  | passed | unnamed => cases hx
  | escaped => cases List.mem_singleton.1 hx
  | crashed _ hwords | denied hwords =>
    cases List.mem_singleton.1 hx
    exact ⟨rfl, _, hwords⟩
  | granted hwords hpath hname hlevel ht =>
    rcases List.mem_cons.1 hx with hx | hx
    · cases hx
      exact ⟨rfl, _, hwords⟩
    · exact absurd hx ht.accessLevel_notMem

/-- **Authorization before effects.**  Whatever a dispatch is answered, it does what the relation
says, and everything that the relation allows can happen.  So a pack operation comes last and once,
on the streams of the session and the confined path of the name that was asked about, after a
sufficient level; and a creation only ever follows a sufficient level and an answer that the target
is missing. -/
theorem dispatch_authorizes_before_effects (root : String) (s s' : Session) (t : List Call)
    (o : Verdict) :
    (Does (dispatch root) s t o s' ↔ Conduct root s t o s') ∧
    (Does (dispatch root) s t o s' → ∀ service path io served,
      (⟨.serve service path io, served⟩ : Call) ∈ t →
      ∃ name level before, Git.Request.ofWords s.command = .pack service name ∧
        Confine.repoPath root name = .ok path ∧ needed service ≤ level ∧ io = s.packIo ∧
        t = ⟨.accessLevel name s.key, .ok level⟩ ::
          (before ++ [⟨.serve service path io, served⟩]) ∧
        if service = .receivePack then Ensures name before (.ok (.ok ())) else before = []) ∧
    (Does (dispatch root) s t o s' → ∀ n isPrivate answer,
      (⟨.create n isPrivate, answer⟩ : Call) ∈ t →
      Git.Request.ofWords s.command = .pack .receivePack n ∧ isPrivate = false ∧
        ∃ level rest, AccessLevel.readWrite ≤ level ∧
          t = ⟨.accessLevel n s.key, .ok level⟩ :: ⟨.lookup n, .ok (.error .notFound)⟩ ::
            ⟨.create n isPrivate, answer⟩ :: rest) := by
  refine ⟨does_dispatch_iff, fun h service path io served hx ↦ ?_, fun h n isPrivate answer hx ↦ ?_⟩
  · exact (does_dispatch_iff.1 h).of_serve hx
  · exact (does_dispatch_iff.1 h).of_create hx

end Requests

end GitGateway.Dispatch
