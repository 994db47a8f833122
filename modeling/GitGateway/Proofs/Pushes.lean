import GitGateway.Git.PackService
import GitGateway.Proofs.DispatchOrder

/-!
# Sessions that find their repository

All questions of a session are about the one path that its command names, if it names one
(`only_concerns`).  Some answers say that a repository is there: it was found, or made, or somebody
else was first.  A push with the access that it needs gets such an answer unless a lookup or a
creation fails (`Conduct.finds`).  Where a repository stays once it is there, all later answers are
**firm**: it is found again, and a pack operation is started.  A push that was answered so comes to
its pack operation, and fails neither because its repository has vanished nor because there is none
(`Conduct.of_finds`).
-/

namespace GitGateway

/-- The path of the repository that a session names. -/
def Session.target? (root : String) (s : Session) : Option RepoPath :=
  match Git.Request.ofWords s.command with
  | .other => none
  | .pack _ name => (Confine.repoPath root name).toOption

theorem Session.target?_of_pack {root : String} {s : Session} {service : Git.Service}
    {name : RepoName} {path : RepoPath} (hwords : Git.Request.ofWords s.command = .pack service name)
    (hpath : Confine.repoPath root name = .ok path) : s.target? root = some path := by
  simp [target?, hwords, hpath, Except.toOption]

/-- The path that a session names is that of one of the words of its command. -/
theorem Session.exists_of_target? {root : String} {s : Session} {path : RepoPath}
    (h : s.target? root = some path) :
    ∃ raw ∈ s.command, Confine.repoPath root (.sanitize raw) = .ok path := by
  unfold target? at h
  cases hwords : Git.Request.ofWords s.command with
  | other =>
    rw [hwords] at h
    cases h
  | pack service name =>
    rw [hwords] at h
    obtain ⟨raw, hraw, rfl⟩ := Git.Request.exists_raw hwords
    cases hpath : Confine.repoPath root (.sanitize raw) with
    | error e =>
      simp only [hpath] at h
      cases h
    | ok other =>
      simp only [hpath] at h
      cases h
      exact ⟨raw, hraw, hpath⟩

/-- A question of a session that names a repository at a path, or none.  It never creates a private
one. -/
inductive Ask.Concerns (root : String) : Option RepoPath → Ask → Prop where
  | emit {target : Option RepoPath} (e : LogEvent) : Concerns root target (.emit e)
  | accessLevel {target : Option RepoPath} (name : RepoName) (key : Option ClientKey) :
      Concerns root target (.accessLevel name key)
  | lookup {name : RepoName} {path : RepoPath} (h : Confine.repoPath root name = .ok path) :
      Concerns root (some path) (.lookup name)
  | create {name : RepoName} {path : RepoPath} (h : Confine.repoPath root name = .ok path)
      (hname : name.isEmpty = false) : Concerns root (some path) (.create name false)
  | serve {path : RepoPath} (service : Git.Service) (io : PackIo) :
      Concerns root (some path) (.serve service path io)

/-- Whether a question asks for a creation. -/
def Ask.creates : Ask → Bool
  | .create _ _ => true
  | _ => false

namespace Git.PackService

/-- How a pack operation ends whose target is a bare repository. -/
def outcome (service : Service) (io : PackIo) : Except OsError Exchange → Served
  | .error e =>
    ⟨io, .ok (.error (.failed ⟨["failed to spawn git " ++ service.subcommand, e.message]⟩))⟩
  | .ok x => ⟨x.io, .ok (judge service x)⟩

/-- Why a pack operation fails that was started: its program or one of the streams failed. -/
theorem head?_of_outcome {service : Service} {io : PackIo} {r : Except OsError Exchange}
    {text : String} {rest : List String}
    (h : (outcome service io r).result = .ok (.error (.failed ⟨text :: rest⟩))) :
    text.toList.head? = some 'f' ∨ text.toList.head? = some 'g' := by
  cases r with
  | error e =>
    simp only [outcome, Except.ok.injEq, Except.error.injEq, PackError.failed.injEq,
      Failure.mk.injEq, List.cons.injEq] at h
    obtain ⟨rfl, -⟩ := h
    exact .inl (by simp)
  | ok x =>
    simp only [outcome, Except.ok.injEq] at h
    unfold judge at h
    split at h
    · cases h
      exact .inl rfl
    · cases h
      exact .inl rfl
    · split at h
      · cases h
      · cases h
        exact .inr (by simp)

end Git.PackService

namespace Call

/-- Whether an answer says that the repository is there. -/
def finds : Call → Bool
  | ⟨.lookup _, .ok (.ok _)⟩ => true
  | ⟨.create _ _, .ok (.ok _)⟩ => true
  | ⟨.create _ _, .ok (.error .alreadyExists)⟩ => true
  | _ => false

/-- Whether an answer says that the repository was made. -/
def founds : Call → Bool
  | ⟨.create _ _, .ok (.ok _)⟩ => true
  | _ => false

/-- What is answered where the repository is there: it is found, and a pack operation is started. -/
def IsFirm : Call → Prop
  | ⟨.lookup _, answer⟩ => ∃ r, answer = .ok (.ok r)
  | ⟨.serve service _ io, served⟩ => ∃ r, served = Git.PackService.outcome service io r
  | _ => True

/-- A lookup is answered **plainly** if the repository is found or is said not to be there. -/
def IsPlain : Call → Prop
  | ⟨.lookup _, answer⟩ => (∃ r, answer = .ok (.ok r)) ∨ answer = .ok (.error .notFound)
  | _ => True

end Call

namespace Dispatch

open Handler

variable {root : String} {s s' : Session} {t : List Call} {o : Verdict}

/-! ## What a session asks about -/

/-- All questions of a session are about the path that it names. -/
theorem Conduct.concerns (h : Conduct root s t o s') :
    ∀ c ∈ t, c.1.Concerns root (s.target? root) := by
  cases h with
  | passed | unnamed => exact List.forall_mem_nil _
  | escaped => exact List.forall_mem_singleton.2 (.emit _)
  | crashed | denied => exact List.forall_mem_singleton.2 (.accessLevel _ _)
  | @granted service name path level t o s' hwords hpath hname hlevel ht =>
    rw [Session.target?_of_pack hwords hpath]
    refine List.forall_mem_cons.2 ⟨.accessLevel _ _, ?_⟩
    have hensures : ∀ {t o}, Ensures name t o → ∀ c ∈ t, c.1.Concerns root (some path) := by
      intro t o ht c hc
      rcases ht.asks hc with hq | hq | ⟨r, hq⟩
      · exact hq ▸ .lookup hpath
      · exact hq ▸ .create hpath hname
      · exact hq ▸ .emit _
    cases ht with
    | fetched _ served => exact List.forall_mem_singleton.2 (.serve _ _)
    | pushed _ ht served =>
      exact List.forall_mem_append.2 ⟨hensures ht, List.forall_mem_singleton.2 (.serve _ _)⟩
    | unprepared _ ht | crashed _ ht => exact hensures ht

theorem only_concerns (root : String) (s : Session) :
    ((dispatch root).run.run s).Only (Ask.Concerns root (s.target? root)) :=
  Program.only_of_runs Ask.nonempty_answer fun _ _ hruns ↦
    (does_dispatch_iff.1 hruns).concerns

/-! ## Plain answers -/

/-- A target that is looked up is found, or it is found or made when its creation is asked for. -/
theorem Ensures.finds {name : RepoName} {o : Except Crash (Except SessionError Unit)}
    (h : Ensures name t o) (hplain : ∀ c ∈ t, c.IsPlain)
    (hends : ∀ c ∈ t, c.1.creates = true → c.finds = true) : ∃ c ∈ t, c.finds = true := by
  cases h with
  | found r => exact ⟨_, List.mem_cons_self, rfl⟩
  | missing h =>
    have hcreate := fun c hc ↦ hends c (List.mem_cons_of_mem _ hc)
    cases h with
    | created | outrun | refused | crashed =>
      exact ⟨_, List.mem_cons_of_mem _ List.mem_cons_self, hcreate _ List.mem_cons_self rfl⟩
  | refused e he =>
    rcases hplain _ List.mem_cons_self with ⟨r, hr⟩ | hr
    · cases hr
    · cases hr
      exact absurd rfl he
  | crashed crash => rcases hplain _ List.mem_cons_self with ⟨r, hr⟩ | hr <;> cases hr

theorem Carries.finds {name : RepoName} {path : RepoPath}
    (h : Carries .receivePack name path s t o s') (hplain : ∀ c ∈ t, c.IsPlain)
    (hends : ∀ c ∈ t, c.1.creates = true → c.finds = true) : ∃ c ∈ t, c.finds = true := by
  cases h with
  | fetched hfetch => exact absurd rfl hfetch
  | pushed _ ht served =>
    obtain ⟨c, hc, hfinds⟩ := ht.finds (fun c hc ↦ hplain c (List.mem_append_left _ hc))
      fun c hc ↦ hends c (List.mem_append_left _ hc)
    exact ⟨c, List.mem_append_left _ hc, hfinds⟩
  | unprepared _ ht | crashed _ ht => exact ht.finds hplain hends

/-- A push with the access that it needs is told that its repository is there, if lookups are
answered plainly and its creation is not refused. -/
theorem Conduct.finds {name : RepoName} {level : AccessLevel}
    (h : Conduct root s t o s')
    (hwords : Git.Request.ofWords s.command = .pack .receivePack name)
    (hlevel : needed .receivePack ≤ level) (hgranted : ⟨.accessLevel name s.key, .ok level⟩ ∈ t)
    (hplain : ∀ c ∈ t, c.IsPlain) (hends : ∀ c ∈ t, c.1.creates = true → c.finds = true) :
    ∃ c ∈ t, c.finds = true := by
  cases h with
  | passed | unnamed => cases hgranted
  | escaped | crashed => cases List.mem_singleton.1 hgranted
  | denied hwords' hpath hname hdenied =>
    cases hwords'.symm.trans hwords
    cases List.mem_singleton.1 hgranted
    exact absurd hlevel hdenied
  | granted hwords' hpath hname _ ht =>
    cases hwords'.symm.trans hwords
    obtain ⟨c, hc, hfinds⟩ := ht.finds (fun c hc ↦ hplain c (List.mem_cons_of_mem _ hc))
      fun c hc ↦ hends c (List.mem_cons_of_mem _ hc)
    exact ⟨c, List.mem_cons_of_mem _ hc, hfinds⟩

/-! ## Firm answers -/

/-- A push that was told that its repository is there, and then was answered firmly, has its
target. -/
theorem Ensures.of_finds {name : RepoName} {o : Except Crash (Except SessionError Unit)}
    (h : Ensures name t o) (hfinds : ∃ c ∈ t, c.finds = true)
    (hfirm : t.Pairwise fun c c' ↦ c.finds = true → c'.IsFirm) : o = .ok (.ok ()) := by
  obtain ⟨c, hc, hfinds⟩ := hfinds
  cases h with
  | found r => rfl
  | refused e he =>
    obtain rfl := List.mem_singleton.1 hc
    cases hfinds
  | crashed crash =>
    obtain rfl := List.mem_singleton.1 hc
    cases hfinds
  | missing h =>
    have hc := (List.mem_cons.1 hc).resolve_left (by rintro rfl; cases hfinds)
    cases h with
    | created r => rfl
    | refused e he =>
      obtain rfl := List.mem_singleton.1 hc
      cases e with
      | alreadyExists => exact absurd rfl he
      | notFound | other => cases hfinds
    | crashed crash =>
      obtain rfl := List.mem_singleton.1 hc
      cases hfinds
    | outrun h =>
      -- the lookup behind a lost race is answered firmly
      have hlater := (List.pairwise_cons.1 (List.pairwise_cons.1 hfirm).2).1
      cases h with
      | found r => rfl
      | vanished e =>
        obtain ⟨r, hr⟩ := hlater _ List.mem_cons_self rfl
        cases hr
      | crashed crash =>
        obtain ⟨r, hr⟩ := hlater _ List.mem_cons_self rfl
        cases hr

/-- How a push ends whose repository has vanished. -/
def vanished (name : RepoName) (e : BackendError) : Verdict :=
  .ok (.error (.systemFailure
    (e.failure.context ("repository " ++ name.text ++ " vanished after concurrent creation"))))

/-- How a push ends whose target is no bare repository. -/
def refused (path : RepoPath) : Verdict :=
  .ok (verdict (.error (Git.PackService.refusal .receivePack path)))

/-- A push that was told that its repository is there, and then was answered firmly, comes to its
pack operation and ends as that does. -/
theorem Conduct.of_finds {name : RepoName} {path : RepoPath} (h : Conduct root s t o s')
    (hwords : Git.Request.ofWords s.command = .pack .receivePack name)
    (hpath : Confine.repoPath root name = .ok path) (hfinds : ∃ c ∈ t, c.finds = true)
    (hfirm : t.Pairwise fun c c' ↦ c.finds = true → c'.IsFirm) :
    ∃ r, let served := Git.PackService.outcome .receivePack s.packIo r
      ⟨.serve .receivePack path s.packIo, served⟩ ∈ t ∧ o = served.result.map verdict := by
  obtain ⟨c, hc, hfound⟩ := hfinds
  cases h with
  | passed | unnamed => cases hc
  | escaped | crashed | denied =>
    obtain rfl := List.mem_singleton.1 hc
    cases hfound
  | granted hwords' hpath' hname hlevel ht =>
    cases hwords'.symm.trans hwords
    cases hpath'.symm.trans hpath
    have hc := (List.mem_cons.1 hc).resolve_left (by rintro rfl; cases hfound)
    have hfirm := (List.pairwise_cons.1 hfirm).2
    cases ht with
    | fetched hfetch => exact absurd rfl hfetch
    | pushed _ ht served =>
      rcases List.mem_append.1 hc with hc | hc
      · obtain ⟨r, rfl⟩ := (List.pairwise_append.1 hfirm).2.2 c hc _ List.mem_cons_self hfound
        exact ⟨r, by simp, rfl⟩
      · obtain rfl := List.mem_singleton.1 hc
        cases hfound
    | unprepared _ ht => cases ht.of_finds ⟨c, hc, hfound⟩ hfirm
    | crashed _ ht => cases ht.of_finds ⟨c, hc, hfound⟩ hfirm

/-- A pack operation that was started does not end for want of a repository. -/
theorem verdict_outcome_ne {r : Except OsError Git.Exchange} {io : PackIo} (name : RepoName)
    (path : RepoPath) (e : BackendError) :
    let o : Verdict := (Git.PackService.outcome .receivePack io r).result.map verdict
    o ≠ vanished name e ∧ o ≠ refused path := by
  intro o
  obtain ⟨result, hresult⟩ :
      ∃ result, (Git.PackService.outcome .receivePack io r).result = result := ⟨_, rfl⟩
  have ho : o = result.map verdict := congrArg (Except.map verdict) hresult
  have hcause : ∀ {text : String} {rest : List String},
      o = .ok (.error (.systemFailure ⟨text :: rest⟩)) →
        text.toList.head? = some 'f' ∨ text.toList.head? = some 'g' := by
    intro text rest htext
    have hfailed : result = .ok (.error (.failed ⟨text :: rest⟩)) := by
      rw [ho] at htext
      rcases result with crash | (_ | f) | ⟨⟩ <;> cases htext
      rfl
    exact Git.PackService.head?_of_outcome (hresult.trans hfailed)
  refine ⟨fun heq ↦ ?_, fun heq ↦ ?_⟩
  · simpa using hcause heq
  · simpa using hcause heq

end Dispatch

end GitGateway
