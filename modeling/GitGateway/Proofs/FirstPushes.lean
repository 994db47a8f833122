import GitGateway.Proofs.Crews
import GitGateway.Proofs.Nesting

/-!
# First pushes

Sessions that push to a new repository at the same time all find that it is not there, and each asks
for its creation.  One of them makes it; the others are told that it exists, look it up again, and
find it.  So the repository is made once and every push comes to its pack operation, in whatever
order the sessions move (`Crew.first_pushes_create_once`).

What is said here of a state follows from what holds of every state of a crew (`Crew.Sound`): what a
session was told is what it knows, what it knows is true, and a repository that is there now and was
not there at the start was made once.
-/

namespace GitGateway

open Path

/-- What a session names is the path of a name. -/
theorem Session.isTarget_of_target? {root : String} {s : Session} {path : RepoPath}
    (h : s.target? root = some path) : Machine.IsTarget root path := by
  obtain ⟨raw, -, hpath⟩ := Session.exists_of_target? h
  exact ⟨raw, hpath⟩

namespace Crew

variable {ι σ : Type} [DecidableEq ι] {m : Machine σ} {b : Backing} {w : Crew ι σ} {i j : ι}

/-! ## Creations by the sessions of a crew -/

/-- A creation of the repository at a path by a session has ended with an answer. -/
def Created (root : String) (w : Crew ι σ) (path : String) (i : ι)
    (answer : Except Crash (Except BackendError Repository)) : Prop :=
  ∃ name p, Confine.repoPath root name = .ok p ∧ p.text = path ∧
    (⟨.create name false, answer⟩ : Call) ∈ (w.jobs i).told

/-- A session is creating the repository at a path. -/
def IsCreating (root : String) (w : Crew ι σ) (path : String) (i : ι) : Prop :=
  ∃ name p, Confine.repoPath root name = .ok p ∧ p.text = path ∧
    (w.jobs i).asked? = some (.create name false)

/-- A step of a session's creation has failed. -/
def HasFailed (w : Crew ι σ) (i : ι) : Prop := ∃ c, (i, c) ∈ w.events ∧ c.fails = true

theorem mem_own_iff {c : HostCall} : c ∈ w.own i ↔ (i, c) ∈ w.events := by
  simp [own]

theorem hasFailed_iff {root : String} {s : ι → Session} :
    (w.knows root s i).failed = true ↔ w.HasFailed i := by
  rw [knows, Knowledge.failed_foldl, Bool.false_or, List.any_eq_true]
  exact exists_congr fun c ↦ and_congr_left fun _ ↦ mem_own_iff

namespace Sound

variable {s : ι → Session} {x₀ : σ} {inv : σ → Prop} (h : Sound m b s x₀ inv w)

include h

/-- Only a session that names a path makes the repository there. -/
theorem target_of_founding {path : String} {e : ι × HostCall} (he : e ∈ w.foundings path) :
    ∃ p, (s e.1).target? b.store.root = some p ∧ p.text = path := by
  obtain ⟨i, c⟩ := e
  obtain ⟨hevent, hfounds⟩ := List.mem_filter.1 he
  obtain ⟨r, rfl, -⟩ := HostCall.foundsAt_iff.1 hfounds
  obtain ⟨p, htarget, hcall⟩ := h.inits hevent
  exact ⟨p, htarget, (Store.initCall_inj hcall).symm⟩

/-- A repository is made at most once. -/
theorem length_foundings_le (path : String) : (w.foundings path).length ≤ 1 := by
  cases hfoundings : w.foundings path with
  | nil => exact Nat.zero_le 1
  | cons e rest =>
    have he : e ∈ w.foundings path := hfoundings ▸ List.mem_cons_self
    obtain ⟨p, htarget, rfl⟩ := h.target_of_founding he
    have hledger := h.ledger htarget
    have hnow := Bool.toNat_le (Store.isBare (m.disk w.host) p.text)
    rw [← hfoundings]
    omega

/-- A session knows that it made its repository exactly if it did. -/
theorem founded_iff {path : RepoPath} (htarget : (s i).target? b.store.root = some path) :
    (w.knows b.store.root s i).founded = true ↔ ∃ c, (i, c) ∈ w.foundings path.text := by
  rw [knows, Knowledge.founded_foldl, Bool.false_or, List.any_eq_true]
  refine exists_congr fun c ↦ ?_
  rw [mem_own_iff, foundings, List.mem_filter]
  refine and_congr_right fun hevent ↦ ⟨fun hfounds ↦ ?_, fun hfounds ↦ ?_⟩
  · obtain ⟨q, answer⟩ := c
    cases q with
    | runGit call =>
      obtain ⟨other, hother, rfl⟩ := h.inits hevent
      cases htarget.symm.trans hother
      exact HostCall.foundsAt_iff.2 ⟨answer, rfl, hfounds⟩
    | _ => cases hfounds
  · obtain ⟨r, rfl, hr⟩ := HostCall.foundsAt_iff.1 hfounds
    exact hr

/-- What a session was told, whether it rests or not. -/
theorem told (i : ι) : Job.Told (w.knows b.store.root s i) (w.jobs i).told := by
  have hfits := h.fits i
  cases hjob : w.jobs i with
  | resting t p =>
    rw [hjob] at hfits
    cases hfits with
    | resting _ htold => exact htold
  | asking t q work next =>
    rw [hjob] at hfits
    cases hfits with
    | asking _ htold => exact htold

/-- What a session asked and asks is about the path that it names. -/
theorem concerns (i : ι) : (∀ c ∈ (w.jobs i).told,
      c.1.Concerns b.store.root ((s i).target? b.store.root)) ∧
    ∀ q, (w.jobs i).asked? = some q → q.Concerns b.store.root ((s i).target? b.store.root) := by
  have hfits := h.fits i
  have honly := Dispatch.only_concerns b.store.root (s i)
  cases hjob : w.jobs i with
  | resting t p =>
    rw [hjob] at hfits
    cases hfits with
    | resting hreaches => exact ⟨(hreaches.only honly).2, nofun⟩
  | asking t q work next =>
    rw [hjob] at hfits
    cases hfits with
    | asking hreaches =>
      obtain ⟨hrest, htold⟩ := hreaches.only honly
      refine ⟨htold, fun q' hq' ↦ ?_⟩
      cases hq'
      cases hrest with
      | ask hq _ => exact hq

/-- A session made its repository if it was told so, and only if it was told so or still creates
it. -/
theorem founded_of_told (i : ι) :
    ((w.jobs i).told.any Call.founds = true → (w.knows b.store.root s i).founded = true) ∧
      ((w.knows b.store.root s i).founded = true → (w.jobs i).told.any Call.founds = true ∨
        ∃ q, (w.jobs i).asked? = some q ∧ q.creates = true) := by
  have hfits := h.fits i
  cases hjob : w.jobs i with
  | resting t p =>
    rw [hjob] at hfits
    cases hfits with
    | resting _ _ _ hfounded =>
      exact ⟨fun ht ↦ hfounded.trans ht, fun hnow ↦ .inl (hfounded.symm.trans hnow)⟩
  | asking t q work next =>
    rw [hjob] at hfits
    cases hfits with
    | asking _ _ _ _ hmade hown =>
      exact ⟨hmade, fun hnow ↦ (hown hnow).imp_right fun hq ↦ ⟨q, rfl, hq⟩⟩

variable {path : String} {answer : Except Crash (Except BackendError Repository)}

/-- A creation at a path is one by a session that names it. -/
theorem target_of_created (hcreated : w.Created b.store.root path i answer) :
    ∃ p, (s i).target? b.store.root = some p ∧ p.text = path := by
  obtain ⟨name, p, hpath, rfl, hmem⟩ := hcreated
  have hconcerns := (h.concerns i).1 _ hmem
  generalize htarget : (s i).target? b.store.root = target at hconcerns
  cases hconcerns with
  | create hpath' => cases hpath.symm.trans hpath'; exact ⟨p, rfl, rfl⟩

/-- A creation that ends makes its repository, or finds it, or a step of it has failed. -/
theorem ends_of_created (hcreated : w.Created b.store.root path i answer) (hfailed : ¬ w.HasFailed i) :
    (∃ r, answer = .ok (.ok r)) ∨ answer = .ok (.error .alreadyExists) := by
  obtain ⟨name, p, -, -, hmem⟩ := hcreated
  have hends := (h.told i).ends _ hmem rfl
  rw [hasFailed_iff, or_iff_left hfailed] at hends
  rcases answer with crash | (_ | _ | cause) | r
  · cases hends
  · cases hends
  · exact .inr rfl
  · cases hends
  · exact .inl ⟨r, rfl⟩

/-- A session whose creation made a repository ran the git program that made it. -/
theorem exists_founding {r : Repository} (hcreated : w.Created b.store.root path i (.ok (.ok r))) :
    ∃ c, (i, c) ∈ w.foundings path := by
  obtain ⟨p, htarget, rfl⟩ := h.target_of_created hcreated
  obtain ⟨name, -, -, -, hmem⟩ := hcreated
  exact (h.founded_iff htarget).1 ((h.founded_of_told i).1 (List.any_eq_true.2 ⟨_, hmem, rfl⟩))

/-- Two sessions do not make the same repository. -/
theorem created_unique {r r' : Repository} (hi : w.Created b.store.root path i (.ok (.ok r)))
    (hj : w.Created b.store.root path j (.ok (.ok r'))) : i = j := by
  obtain ⟨c, hc⟩ := h.exists_founding hi
  obtain ⟨c', hc'⟩ := h.exists_founding hj
  have hle := h.length_foundings_le path
  match hfoundings : w.foundings path with
  | [] =>
    rw [hfoundings] at hc
    cases hc
  | [e] =>
    rw [hfoundings] at hc hc'
    exact congrArg Prod.fst ((List.mem_singleton.1 hc).trans (List.mem_singleton.1 hc').symm)
  | _ :: _ :: _ =>
    rw [hfoundings] at hle
    exact absurd hle (by simp)

/-- Whoever made a repository was told so, or is still creating it. -/
theorem created_or_isCreating {e : ι × HostCall} (he : e ∈ w.foundings path) :
    (∃ r, w.Created b.store.root path e.1 (.ok (.ok r))) ∨ w.IsCreating b.store.root path e.1 := by
  obtain ⟨i, c⟩ := e
  obtain ⟨p, htarget, rfl⟩ := h.target_of_founding he
  obtain ⟨hconcerned, hasked⟩ := h.concerns i
  rw [htarget] at hconcerned hasked
  rcases (h.founded_of_told i).2 ((h.founded_iff htarget).2 ⟨c, he⟩) with htold | ⟨q, hq, hcreates⟩
  · obtain ⟨⟨q, answer⟩, hmem, hfounds⟩ := List.any_eq_true.1 htold
    have hconcerns := hconcerned _ hmem
    cases hconcerns with
    | create hpath hname =>
      rcases answer with crash | e | r
      · cases hfounds
      · cases hfounds
      · exact .inl ⟨r, _, p, hpath, rfl, hmem⟩
    | _ => cases hfounds
  · have hconcerns := hasked q hq
    cases hconcerns with
    | create hpath hname => exact .inr ⟨_, p, hpath, rfl, hq⟩
    | _ => cases hcreates

/-- Where a creation of a new repository has ended without a failure and none is under way, a
session made it. -/
theorem exists_created (hnew : Store.isBare (m.disk x₀) path = false)
    (hcreated : w.Created b.store.root path i answer) (hfailed : ¬ w.HasFailed i)
    (hnone : ∀ j, ¬ w.IsCreating b.store.root path j) :
    ∃ j r, w.Created b.store.root path j (.ok (.ok r)) := by
  rcases h.ends_of_created hcreated hfailed with ⟨r, rfl⟩ | rfl
  · exact ⟨i, r, hcreated⟩
  · obtain ⟨p, htarget, rfl⟩ := h.target_of_created hcreated
    obtain ⟨name, -, -, -, hmem⟩ := hcreated
    have hbare := (h.isTrue i).bare true ((h.told i).finds _ hmem rfl)
    rw [htarget, Store.isBareAt_some] at hbare
    have hledger := h.ledger htarget
    rw [hnew, hbare] at hledger
    cases hfoundings : w.foundings p.text with
    | nil =>
      rw [hfoundings] at hledger
      cases hledger
    | cons e rest =>
      have he : e ∈ w.foundings p.text := hfoundings ▸ List.mem_cons_self
      obtain ⟨r, hmade⟩ := (h.created_or_isCreating he).resolve_right (hnone e.1)
      exact ⟨e.1, r, hmade⟩

/-- The git program is never run to make a repository that is there. -/
theorem not_isBare_of_next? {call : Git.Call} (hnext : (w.jobs i).next? = some (.runGit call)) :
    ∃ path, (s i).target? b.store.root = some path ∧ call = Store.initCall path.text ∧
      Store.isBare (m.disk w.host) path.text = false := by
  have hfits := h.fits i
  match hjob : w.jobs i with
  | .resting t p =>
    rw [hjob] at hnext
    cases hnext
  | .asking t q (.done answer) next =>
    rw [hjob] at hnext
    cases hnext
  | .asking t q (Program.ask hq rest) next =>
    rw [hjob] at hnext hfits
    cases hnext
    obtain ⟨-, -, hnone, path, htarget, hcall, -⟩ := hfits.allows
    have hbare := (h.isTrue i).bare false hnone
    rw [htarget, Store.isBareAt_some] at hbare
    exact ⟨path, htarget, hcall, hbare⟩

section Ended

variable {name : RepoName} {p : RepoPath} {t : List Call} {o : Dispatch.Verdict} {s' : Session}
variable (hwords : Git.Request.ofWords (s i).command = .pack .receivePack name)
variable (hjob : w.jobs i = .resting t (.done (o, s')))

include hjob

/-- A session at its end was conducted as its dispatch says. -/
theorem conduct : Dispatch.Conduct b.store.root (s i) t o s' := by
  have hfits := h.fits i
  rw [hjob] at hfits
  cases hfits with
  | resting hreaches =>
    have hruns := hreaches.runs (.done _)
    rw [List.append_nil] at hruns
    exact Dispatch.does_dispatch_iff.1 hruns

include hwords

/-- A push with write access none of whose steps failed was told that its repository is there. -/
theorem finds {level : AccessLevel} (hlevel : Dispatch.permits level .receivePack = true)
    (hgranted : ⟨.accessLevel name (s i).key, .ok level⟩ ∈ t) (hfailed : ¬ w.HasFailed i) :
    ∃ c ∈ t, c.finds = true := by
  have htold : Job.Told (w.knows b.store.root s i) (w.jobs i).told := h.told i
  rw [hjob] at htold
  refine (h.conduct hjob).finds hwords (Dispatch.permits_iff.1 hlevel) hgranted htold.plain ?_
  intro c hc hcreates
  exact (htold.ends c hc hcreates).resolve_right fun hfails ↦ hfailed (hasFailed_iff.1 hfails)

/-- A push that was told that its repository is there came to its pack operation. -/
theorem serves (hpath : Confine.repoPath b.store.root name = .ok p)
    (hfinds : ∃ c ∈ t, c.finds = true) :
    ∃ r, let served := Git.PackService.outcome .receivePack (s i).packIo r
      ⟨.serve .receivePack p (s i).packIo, served⟩ ∈ t ∧
        o = served.result.map Dispatch.verdict := by
  have htold : Job.Told (w.knows b.store.root s i) (w.jobs i).told := h.told i
  rw [hjob] at htold
  exact (h.conduct hjob).of_finds hwords hpath hfinds htold.firm

end Ended

end Sound

/-- **First pushes create once.**  Take any number of sessions on one store, and a host that founds
the repositories that they name: nobody removes one, and the git program makes a repository in one
step exactly if it says so.  Then in every order of their steps each repository is made at most
once, and the git program is never run for one that is there.  Of the creations of a new repository
none of whose steps fails, one makes it and the others find that it exists.  A push with write
access none of whose steps fails is told that its repository is there, because it was found, made,
or somebody else was first; and one that was told so comes to its pack operation, which finds it
too: it ends neither because the repository has vanished nor because there is none.  And no session
is kept from its end for good. -/
theorem first_pushes_create_once {s : ι → Session} {x : σ} {inv : σ → Prop}
    (hm : m.Founds b.pack (fun path ↦ ∃ i, (s i).target? b.store.root = some path) inv)
    (hx : inv x) (schedule : List ι) :
    let root := b.store.root
    let w := (Crew.start root s x).run m b schedule
    (∀ path, (w.foundings path).length ≤ 1) ∧
    (∀ i call, (w.jobs i).next? = some (.runGit call) → ∃ path, (s i).target? root = some path ∧
      call = Store.initCall path.text ∧ Store.isBare (m.disk w.host) path.text = false) ∧
    (∀ path, Store.isBare (m.disk x) path = false →
      (∀ i answer, w.Created root path i answer → ¬ w.HasFailed i →
        (∃ r, answer = .ok (.ok r)) ∨ answer = .ok (.error .alreadyExists)) ∧
      (∀ i j r r', w.Created root path i (.ok (.ok r)) → w.Created root path j (.ok (.ok r')) →
        i = j) ∧
      ((∃ i answer, w.Created root path i answer ∧ ¬ w.HasFailed i) →
        (∀ i, ¬ w.IsCreating root path i) → ∃ i r, w.Created root path i (.ok (.ok r)))) ∧
    (∀ i name path t o s', Git.Request.ofWords (s i).command = .pack .receivePack name →
      Confine.repoPath root name = .ok path → w.jobs i = .resting t (.done (o, s')) →
      ((∃ level, Dispatch.permits level .receivePack = true ∧
        ⟨.accessLevel name (s i).key, .ok level⟩ ∈ t) → ¬ w.HasFailed i →
          ∃ c ∈ t, c.finds = true) ∧
      ((∃ c ∈ t, c.finds = true) →
        (∃ r, let served := Git.PackService.outcome .receivePack (s i).packIo r
          ⟨.serve .receivePack path (s i).packIo, served⟩ ∈ t ∧
            o = served.result.map Dispatch.verdict) ∧
        (∀ e, o ≠ Dispatch.vanished name e) ∧ o ≠ Dispatch.refused path)) ∧
    ∀ i, ∃ later, ((w.run m b later).jobs i).isOver = true := by
  intro root w
  have h : Sound m b s x inv w := (Sound.start hx).run hm schedule
  refine ⟨h.length_foundings_le, fun i call ↦ h.not_isBare_of_next?, fun path hnew ↦
    ⟨fun i answer ↦ h.ends_of_created, fun i j r r' ↦ h.created_unique, ?_⟩, ?_,
    h.exists_isOver hm⟩
  · rintro ⟨i, answer, hcreated, hfailed⟩ hnone
    exact h.exists_created hnew hcreated hfailed hnone
  · intro i name path t o s' hwords hpath hjob
    refine ⟨fun ⟨level, hlevel, hgranted⟩ ↦ h.finds hwords hjob hlevel hgranted, fun hfinds ↦ ?_⟩
    obtain ⟨r, hserved, rfl⟩ := h.serves hwords hjob hpath hfinds
    refine ⟨⟨r, hserved, rfl⟩, fun e ↦ ?_, ?_⟩
    · exact (Dispatch.verdict_outcome_ne name path e).1
    · exact (Dispatch.verdict_outcome_ne name path .notFound).2

end Crew

namespace Scripted

open Host

/-- Two sessions push to the same new repository and take turns.  Both find that it is not there;
one makes it, the other is told that it exists, and both come to their pack operation. -/
theorem two_first_pushes_create_once :
    let push : Session := { command := ["git-receive-pack", "x"] }
    let schedule := (List.replicate 24 [false, true]).flatten
    let w := (Crew.start sharedBacking.store.root (fun _ ↦ push) fresh).run machine sharedBacking
      schedule
    (w.foundings "/srv/repos/x.git").length = 1 ∧ (w.jobs false).told.any Call.founds = true ∧
      (w.jobs true).told.any Call.founds = false ∧
      ∃ path : RepoPath, path.text = "/srv/repos/x.git" ∧
        ∀ i, ∃ t o s' r, w.jobs i = .resting t (.done (o, s')) ∧
          ⟨.serve .receivePack path push.packIo,
            Git.PackService.outcome .receivePack push.packIo r⟩ ∈ t ∧ o ≠ Dispatch.refused path := by
  intro push schedule w
  have hwords : Git.Request.ofWords push.command = .pack .receivePack (RepoName.sanitize "x") := rfl
  obtain ⟨path, hpath, htext⟩ : ∃ path,
      Confine.repoPath "/srv/repos" (RepoName.sanitize "x") = .ok path ∧
        path.text = "/srv/repos/x.git" :=
    ⟨⟨normalize "/srv/repos/x.git"⟩, by decide +kernel, by decide +kernel⟩
  have hpaths : ∀ path, (∃ _ : Bool, push.target? "/srv/repos" = some path) →
      Machine.IsTarget "/srv/repos" path := by
    rintro path ⟨-, htarget⟩
    exact push.isTarget_of_target? htarget
  have hfounds : machine.Founds sharedBacking.pack
      (fun path ↦ ∃ _ : Bool, push.target? "/srv/repos" = some path)
      fun h ↦ (machine.disk h).IsGround "/srv/repos" shelfPlace ∧ h.IsDiligent :=
    isLawful_machine.founds ⟨.root, by decide, by decide⟩ (isOrderly_machine _ hpaths) hpaths
  obtain ⟨honce, -, -, hserves, -⟩ := Crew.first_pushes_create_once (b := sharedBacking)
    (s := fun _ : Bool ↦ push) (x := fresh) hfounds
    ⟨isGround_fresh, fun git hgit ↦ by cases hgit; rfl⟩ schedule
  have hw : (Crew.start sharedBacking.store.root (fun _ ↦ push) fresh).run machine sharedBacking
      schedule = w := rfl
  rw [hw] at honce hserves
  have hrun : 0 < (w.foundings "/srv/repos/x.git").length ∧
      (w.jobs false).told.any Call.founds = true ∧ (w.jobs true).told.any Call.founds = false ∧
      ∀ i, (w.jobs i).isOver = true ∧ (w.jobs i).told.any Call.finds = true := by
    decide +kernel
  obtain ⟨hmade, hfirst, hsecond, hover⟩ := hrun
  refine ⟨Nat.le_antisymm (honce _) hmade, hfirst, hsecond, path, htext, fun i ↦ ?_⟩
  obtain ⟨hend, hfinds⟩ := hover i
  match hjob : w.jobs i with
  | .resting t (.done (o, s')) =>
    rw [hjob] at hfinds
    obtain ⟨-, hserves⟩ := hserves i _ path t o s' hwords hpath hjob
    obtain ⟨⟨r, hserved, -⟩, -, hrefused⟩ := hserves (List.any_eq_true.1 hfinds)
    exact ⟨t, o, s', r, rfl, hserved, hrefused⟩
  | .resting t (.ask q next) | .asking t q work next =>
    rw [hjob] at hend
    cases hend

end Scripted

end GitGateway
