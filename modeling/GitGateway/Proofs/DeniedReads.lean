import GitGateway.Gateway.Backing
import GitGateway.Proofs.Opening
import GitGateway.Proofs.Stages

/-!
# What a denied read reveals

A read that is denied asks the disk nothing, so it looks the same whatever lies there
(`ends_dispatch_of_denied`).  Whether it is denied is another matter: the level depends on the
private marks, and a mark lies in the directory of its repository.  Where the repository is absent
so is its mark, and a read that the settings allow then goes on to the pack service, which refuses
it in other words (`ends_dispatch_of_absent`).  So a client that is denied can tell a repository
that is there from one that is not exactly where the settings alone would let it read.
-/

namespace GitGateway

open Program (Ends)

/-- Why a read of a repository that is absent fails, given its level. -/
def absentRefusal (level : AccessLevel) : SessionError :=
  if AccessLevel.readOnly ≤ level then .invalidRepository else .notAuthorized

/-! ## What the client sees -/

namespace Session

/-- What a client gets to see of a session: the bytes of both outputs, and the exit status. -/
def seen (s : Session) : List UInt8 × List UInt8 × Option Nat :=
  (s.stdout.written, s.stderr.written, s.exitStatus)

theorem seen_fatal {s : Session} (h : s.isTerminated = false) (e : SessionError) :
    (s.fatal e).seen =
      (s.stdout.written ++ (Git.PktLine.encodeError e.clientMessage).take
        (s.stdout.room (Git.PktLine.encodeError e.clientMessage).length),
        s.stderr.written, some 1) := by
  have hwritten : ∀ data, (s.stdout.writeAll data).2.written =
      s.stdout.written ++ data.take (s.stdout.room data.length) := by
    intro data
    unfold Sink.writeAll
    simp only
    split <;> rfl
  have hexit : s.exitStatus = none := by simpa [isTerminated] using h
  simp [fatal, exit_eq, isTerminated, seen, Sink.shutdown, hexit, hwritten, SessionError.exitStatus]

/-- The packets of the two refusals differ in their lengths, of which the third digit is the first
that tells them apart. -/
theorem take_packet_eq_iff (k : Nat) :
    (Git.PktLine.encodeError SessionError.notAuthorized.clientMessage).take k =
      (Git.PktLine.encodeError SessionError.invalidRepository.clientMessage).take k ↔ k < 3 := by
  have hdenied : (Git.PktLine.encodeError SessionError.notAuthorized.clientMessage).take 3 =
      [48, 48, 50] := by decide +kernel
  have hinvalid : (Git.PktLine.encodeError SessionError.invalidRepository.clientMessage).take 3 =
      [48, 48, 49] := by decide +kernel
  constructor
  · intro h
    by_contra hk
    have hthree := congrArg (List.take 3) h
    rw [List.take_take, List.take_take, Nat.min_eq_left (Nat.le_of_not_lt hk), hdenied,
      hinvalid] at hthree
    exact absurd hthree (by decide)
  · intro hk
    rw [← Nat.min_eq_left (Nat.le_of_lt hk), ← List.take_take, ← List.take_take, hdenied, hinvalid]
    obtain rfl | rfl | rfl : k = 0 ∨ k = 1 ∨ k = 2 := by omega
    all_goals rfl

/-- The two refusals look the same only to a client that takes less than three more bytes. -/
theorem seen_fatal_eq_iff (s : Session) :
    (s.fatal .notAuthorized).seen = (s.fatal .invalidRepository).seen ↔
      s.isTerminated = true ∨ s.stdout.room 3 < 3 := by
  cases h : s.isTerminated with
  | true => simp [fatal_of_isTerminated h]
  | false =>
    simp only [seen_fatal h, Prod.mk.injEq, List.append_cancel_left_eq, and_true]
    unfold Sink.room
    cases s.stdout.limit with
    | none =>
      have hthree := take_packet_eq_iff 3
      simp only [List.take_length]
      refine ⟨fun heq ↦ ?_, by simp⟩
      exact absurd (hthree.1 (by rw [heq])) (by decide)
    | some limit =>
      have htake : ∀ (data : List UInt8) (k : Nat),
          data.take (min data.length k) = data.take k := by
        intro data k
        rw [Nat.min_comm, ← List.take_eq_take_min]
      simp only [htake, take_packet_eq_iff, Bool.false_eq_true, false_or]
      omega

theorem seen_fatal_absentRefusal_iff (s : Session) (level : AccessLevel) :
    (s.fatal .notAuthorized).seen = (s.fatal (absentRefusal level)).seen ↔
      (AccessLevel.readOnly ≤ level → s.isTerminated = true ∨ s.stdout.room 3 < 3) := by
  by_cases hlevel : AccessLevel.readOnly ≤ level
  · rw [absentRefusal, if_pos hlevel, seen_fatal_eq_iff]
    exact ⟨fun h _ ↦ h, fun h ↦ h hlevel⟩
  · rw [absentRefusal, if_neg hlevel]
    exact ⟨fun _ h ↦ absurd h hlevel, fun _ ↦ rfl⟩

end Session

namespace Backing

open Dispatch (needed)

variable {b : Backing} {d : Disk} {marks : List String}

/-! ## What a store answers on a host that shows one disk -/

/-- The answers that a store gives while the host shows one disk and one list of marks. -/
abbrev Answers (b : Backing) (d : Disk) (marks : List String) : (q : Ask) → q.Answer → Prop :=
  fun q ↦ Ends (Showing d marks) (b.answer q)

theorem answers_emit (event : LogEvent) : b.Answers d marks (.emit event) () :=
  Program.ends_ask_iff.2 ⟨(), trivial, Program.ends_done_iff.2 rfl⟩

theorem answers_accessLevel_iff {name : RepoName} {key : Option ClientKey}
    {answer : Except Crash AccessLevel} :
    b.Answers d marks (.accessLevel name key) answer ↔
      answer = .ok (b.store.policy.level marks name key) := by
  refine Program.ends_ask_iff.trans ⟨?_, ?_⟩
  · rintro ⟨_, rfl, h⟩
    exact Program.ends_done_iff.1 h
  · rintro rfl
    exact ⟨marks, rfl, Program.ends_done_iff.2 rfl⟩

/-- Where no bare repository is, the pack service refuses without starting a program. -/
theorem answers_serve_iff {service : Git.Service} {path : RepoPath} {io : PackIo} {served : Served}
    (hbare : Store.isBare d path.text = false) :
    b.Answers d marks (.serve service path io) served ↔
      served = ⟨io, .ok (.error (Git.PackService.refusal service path))⟩ := by
  refine Program.ends_ask_iff.trans ⟨?_, ?_⟩
  · rintro ⟨_, rfl, h⟩
    rw [Program.bind_done, hbare] at h
    exact Program.ends_done_iff.1 h
  · rintro rfl
    refine ⟨d, rfl, ?_⟩
    rw [Program.bind_done, hbare]
    exact Program.ends_done_iff.2 rfl

/-! ## Two ends of a read -/

section Reads

variable {root : String} {s : Session} {service : Git.Service} {name : RepoName} {path : RepoPath}
variable (hwords : Git.Request.ofWords s.command = .pack service name)
variable (hpath : Confine.repoPath root name = .ok path) (hname : name.isEmpty = false)

include hwords hpath hname

/-- A request whose level is too low is denied, whatever lies on the disk. -/
theorem ends_dispatch_of_denied
    (hlevel : ¬ needed service ≤ b.store.policy.level marks name s.key)
    (r : Dispatch.Verdict × Session) :
    Ends (b.Answers d marks) ((dispatch root).run.run s) r ↔
      r = (.ok (.error .notAuthorized), s) := by
  obtain ⟨o, s'⟩ := r
  constructor
  · rintro ⟨t, hruns, hanswers⟩
    rcases (Dispatch.does_dispatch_of_confined hwords hpath hname).1 hruns with
      ⟨crash, rfl, -, -⟩ | ⟨level, t', rfl, hrest⟩
    · cases answers_accessLevel_iff.1 (hanswers _ List.mem_cons_self)
    · cases answers_accessLevel_iff.1 (hanswers _ List.mem_cons_self)
      rcases hrest with ⟨-, -, rfl, rfl⟩ | ⟨henough, -⟩
      · rfl
      · exact absurd henough hlevel
  · intro hr
    cases hr
    refine ⟨_, (Dispatch.does_dispatch_of_confined hwords hpath hname).2
      (.inr ⟨_, [], rfl, .inl ⟨hlevel, rfl, rfl, rfl⟩⟩), fun x hx ↦ ?_⟩
    obtain rfl := List.mem_singleton.1 hx
    exact answers_accessLevel_iff.2 rfl

/-- A read whose level suffices is refused by the pack service where no bare repository is. -/
theorem ends_dispatch_of_absent (hread : service ≠ .receivePack)
    (hbare : Store.isBare d path.text = false)
    (hlevel : needed service ≤ b.store.policy.level marks name s.key)
    (r : Dispatch.Verdict × Session) :
    Ends (b.Answers d marks) ((dispatch root).run.run s) r ↔
      r = (.ok (.error .invalidRepository), s) := by
  have hrefusal : Git.PackService.refusal service path = .invalidRepository := by
    cases service with
    | receivePack => exact absurd rfl hread
    | uploadPack | uploadArchive => rfl
  obtain ⟨o, s'⟩ := r
  constructor
  · rintro ⟨t, hruns, hanswers⟩
    rcases (Dispatch.does_dispatch_of_confined hwords hpath hname).1 hruns with
      ⟨crash, rfl, -, -⟩ | ⟨level, t', rfl, ⟨hlow, -⟩ | ⟨-, ht⟩⟩
    · cases answers_accessLevel_iff.1 (hanswers _ List.mem_cons_self)
    · cases answers_accessLevel_iff.1 (hanswers _ List.mem_cons_self)
      exact absurd hlevel hlow
    · cases ht with
      | fetched _ served =>
        obtain rfl : served = ⟨s.packIo, .ok (.error (Git.PackService.refusal service path))⟩ :=
          (answers_serve_iff hbare).1 (hanswers _ (List.mem_cons_of_mem _ List.mem_cons_self))
        rw [hrefusal]
        rfl
      | pushed hpush | unprepared hpush | crashed hpush => exact absurd hpush hread
  · intro hr
    cases hr
    let served : Served := ⟨s.packIo, .ok (.error .invalidRepository)⟩
    have hcarries : Dispatch.Carries service name path s [⟨.serve service path s.packIo, served⟩]
        (.ok (.error .invalidRepository)) s := .fetched hread served
    refine ⟨_, (Dispatch.does_dispatch_of_confined hwords hpath hname).2
      (.inr ⟨_, _, rfl, .inr ⟨hlevel, hcarries⟩⟩), fun x hx ↦ ?_⟩
    rcases List.mem_cons.1 hx with rfl | hx
    · exact answers_accessLevel_iff.2 rfl
    · obtain rfl := List.mem_singleton.1 hx
      exact (answers_serve_iff hbare).2 (by rw [hrefusal])

omit hwords hpath hname in
/-- A session whose request can only fail ends with the message of the failure. -/
theorem ends_session_of_error {e : SessionError}
    (h : ∀ r, Ends (b.Answers d marks) ((dispatch root).run.run s) r ↔ r = (.ok (.error e), s))
    (r : Except Crash Unit × Session) :
    Ends (Showing d marks) (b.carryOut (Chain.run [Stage.transport root]) s) r ↔
      r = (.ok (), s.fatal e) := by
  rw [carryOut, Program.ends_interpret_iff]
  exact Stage.ends_transport_of_error answers_emit h

theorem ends_session_of_denied
    (hlevel : ¬ needed service ≤ b.store.policy.level marks name s.key)
    (r : Except Crash Unit × Session) :
    Ends (Showing d marks) (b.carryOut (Chain.run [Stage.transport root]) s) r ↔
      r = (.ok (), s.fatal .notAuthorized) :=
  ends_session_of_error (ends_dispatch_of_denied hwords hpath hname hlevel) r

/-- A read of a repository that is absent is refused by the level or by the pack service. -/
theorem ends_session_of_absent (hread : service ≠ .receivePack)
    (hbare : Store.isBare d path.text = false) (r : Except Crash Unit × Session) :
    Ends (Showing d marks) (b.carryOut (Chain.run [Stage.transport root]) s) r ↔
      r = (.ok (), s.fatal (absentRefusal (b.store.policy.level marks name s.key))) := by
  have hneeded := Dispatch.needed_of_ne_receivePack hread
  by_cases hlevel : AccessLevel.readOnly ≤ b.store.policy.level marks name s.key
  · rw [absentRefusal, if_pos hlevel]
    exact ends_session_of_error (ends_dispatch_of_absent hwords hpath hname hread hbare
      (by rwa [hneeded])) r
  · rw [absentRefusal, if_neg hlevel]
    exact ends_session_of_denied hwords hpath hname (by rwa [hneeded]) r

end Reads

/-- **Denied reads.**  A client that may not read a repository of one store gets the same from
another store where the repository is absent, if and only if the settings alone do not let it read,
or it takes nothing of the message that tells the two apart. -/
theorem denied_read_hides_absence_iff {root : String} {settings : AccessSettings}
    {pack : Git.PackService} {d₁ d₂ : Disk} {store₁ store₂ : Store} {marks₁ marks₂ : List String}
    {s : Session} {service : Git.Service} {name : RepoName} {path : RepoPath}
    (hopen₁ : Ends (Showing d₁ []) (Store.openAt root settings) (.ok (store₁, marks₁)))
    (hopen₂ : Ends (Showing d₂ []) (Store.openAt root settings) (.ok (store₂, marks₂)))
    (hwords : Git.Request.ofWords s.command = .pack service name) (hread : service ≠ .receivePack)
    (hpath : Confine.repoPath root name = .ok path) (hname : name.isEmpty = false)
    (habsent : d₂.isDir path.text = false)
    (hdenied : ¬ AccessLevel.readOnly ≤ store₁.policy.level marks₁ name s.key) :
    let session := Chain.run [Stage.transport root]
    let settled := store₁.policy.level [] name s.key
    (∀ r, Ends (Showing d₁ marks₁) (carryOut ⟨store₁, pack⟩ session s) r ↔
      r = (.ok (), s.fatal .notAuthorized)) ∧
    (∀ r, Ends (Showing d₂ marks₂) (carryOut ⟨store₂, pack⟩ session s) r ↔
      r = (.ok (), s.fatal (absentRefusal settled))) ∧
    ∀ r₁ r₂, Ends (Showing d₁ marks₁) (carryOut ⟨store₁, pack⟩ session s) r₁ →
      Ends (Showing d₂ marks₂) (carryOut ⟨store₂, pack⟩ session s) r₂ →
      (r₁.2.seen = r₂.2.seen ↔ (AccessLevel.readOnly ≤ settled →
        s.isTerminated = true ∨ s.stdout.room 3 < 3)) := by
  intro session settled
  obtain ⟨policy, hpolicy, rfl, rfl⟩ := Store.exists_policy hopen₁
  obtain ⟨policy', hpolicy', rfl, rfl⟩ := Store.exists_policy hopen₂
  obtain rfl : policy = policy' := Except.ok.inj (hpolicy.symm.trans hpolicy')
  have hbare : Store.isBare d₂ path.text = false := by rw [Store.isBare, habsent, Bool.false_and]
  have hfirst : ∀ r, Ends (Showing d₁ (Store.marksOn d₁ root))
      (carryOut ⟨⟨root, policy⟩, pack⟩ session s) r ↔ r = (.ok (), s.fatal .notAuthorized) :=
    ends_session_of_denied hwords hpath hname (by rwa [Dispatch.needed_of_ne_receivePack hread])
  -- where the repository is absent, so is its mark
  have hunmarked : policy.level (Store.marksOn d₂ root) name s.key = settled :=
    Policy.level_of_notMem (Store.notMem_marksOn hpath habsent) s.key
  have hsecond : ∀ r, Ends (Showing d₂ (Store.marksOn d₂ root))
      (carryOut ⟨⟨root, policy⟩, pack⟩ session s) r ↔
        r = (.ok (), s.fatal (absentRefusal settled)) := by
    rw [← hunmarked]
    exact ends_session_of_absent hwords hpath hname hread hbare
  refine ⟨hfirst, hsecond, fun r₁ r₂ h₁ h₂ ↦ ?_⟩
  rw [(hfirst r₁).1 h₁, (hsecond r₂).1 h₂]
  exact Session.seen_fatal_absentRefusal_iff s settled

/-! ### A store that holds one private repository, or none -/

/-- A disk whose directory `/srv/repos` has these entries. -/
def shelf (entries : List (FileName × Entry)) : Disk where
  top := .dir true [(.text "srv", .dir true [(.text "repos", .dir true entries)])]

/-- A bare repository that carries the private mark. -/
def markedRepository : FileName × Entry :=
  (.text "x.git", .dir true [(.text "HEAD", .file []), (.text Store.marker, .file [])])

theorem lead_shelf (entries : List (FileName × Entry)) :
    (shelf entries).lead true "/srv/repos" =
      .entry [.text "srv", .text "repos"] (.dir true entries) :=
  Disk.lead_of_at? rfl (by simp) (by decide +kernel) (by decide +kernel) (by decide +kernel)
    (by decide +kernel) (by decide +kernel)

theorem ends_openAt_empty {settings : AccessSettings} {policy : Policy}
    (h : Policy.ofSettings settings = .ok policy) :
    Ends (Showing (shelf []) []) (Store.openAt "/srv/repos" settings)
      (.ok (⟨"/srv/repos", policy⟩, [])) := by
  have hmarks : Store.marksOn (shelf []) "/srv/repos" = [] := by
    simp [Store.marksOn, Store.marksAmong, Listing.ofDisk, Listing.find, lead_shelf,
      Listing.ofEntries]
  rw [Store.ends_openAt_iff, h, hmarks]

theorem isDir_empty : (shelf []).isDir "/srv/repos/x.git" = false := by
  have hsteps : Disk.steps "/srv/repos/x.git" =
      [FileName.text "srv", .text "repos"].map .down ++ [.down (.text "x.git")] := by
    decide +kernel
  have hmissing : (shelf []).follow true Disk.maxLinks [] (Disk.steps "/srv/repos/x.git") =
      .missing [.text "srv", .text "repos"] (.text "x.git") := by
    rw [hsteps]
    exact Disk.follow_downs_missing rfl rfl (by decide +kernel)
  exact Disk.isDir_eq_false hmissing

theorem listing_marked :
    (Listing.ofDisk (shelf [markedRepository]) "/srv/repos").names = ["x"] := by
  have hfollow : (shelf [markedRepository]).follow true Disk.maxLinks
      (.text "x.git" :: [.text "srv", .text "repos"].reverse) ([.text "HEAD"].map .down) =
        .entry [.text "srv", .text "repos", .text "x.git", .text "HEAD"] (.file []) :=
    Disk.follow_downs rfl (by simp) (by decide +kernel)
  rw [List.map_singleton] at hfollow
  have hhead : Listing.holdsHead (shelf [markedRepository])
      (.text "x.git" :: [.text "srv", .text "repos"].reverse) = true := by
    rw [Listing.holdsHead, hfollow]
    rfl
  have hgit : (FileName.text "x.git").isGit = true := by decide +kernel
  have hname : Listing.dropSuffix (Listing.shown [.text "x.git"]) = "x" := by decide +kernel
  have hfind : (Listing.find (shelf [markedRepository]) "/srv/repos").names = ["x"] := by
    rw [Listing.find, lead_shelf]
    simp only [markedRepository]
    rw [Listing.ofEntries, hgit, ← markedRepository, hhead, Bool.and_self, if_pos rfl, hname,
      Listing.ofEntries]
    rfl
  rw [Listing.ofDisk]
  simp [hfind]

theorem ends_openAt_marked {settings : AccessSettings} {policy : Policy}
    (h : Policy.ofSettings settings = .ok policy) :
    Ends (Showing (shelf [markedRepository]) []) (Store.openAt "/srv/repos" settings)
      (.ok (⟨"/srv/repos", policy⟩, ["x"])) := by
  have hlead : (shelf [markedRepository]).lead true "/srv/repos/x.git/forgegate-private" =
      .entry [.text "srv", .text "repos", .text "x.git", .text "forgegate-private"] (.file []) :=
    Disk.lead_of_at? rfl (by simp) (by decide +kernel) (by decide +kernel) (by decide +kernel)
      (by decide +kernel) (by decide +kernel)
  have hmarked : Store.isMarked (shelf [markedRepository]) "/srv/repos" (.sanitize "x") = true := by
    change (shelf [markedRepository]).isFile "/srv/repos/x.git/forgegate-private" = true
    rw [Disk.isFile, Disk.stat, hlead]
    rfl
  have hmarks : Store.marksOn (shelf [markedRepository]) "/srv/repos" = ["x"] := by
    rw [Store.marksOn, Store.marksAmong, listing_marked, List.map_singleton,
      List.filter_cons_of_pos hmarked]
    rfl
  rw [Store.ends_openAt_iff, h, hmarks]

/-- Where the settings let nobody read, an anonymous client sees the same of a private repository
and of none. -/
theorem outsider_sees_no_difference :
    let store : Store := ⟨"/srv/repos", ⟨.noAccess, true, [], [], []⟩⟩
    let session := Chain.run [Stage.transport "/srv/repos"]
    let s : Session := { command := ["git-upload-pack", "x"] }
    ∃ r₁ r₂, Ends (Showing (shelf [markedRepository]) ["x"]) (carryOut ⟨store, {}⟩ session s) r₁ ∧
      Ends (Showing (shelf []) []) (carryOut ⟨store, {}⟩ session s) r₂ ∧ r₁.2.seen = r₂.2.seen := by
  intro store session s
  have hpolicy : Policy.ofSettings { anonymous := .noAccess } = .ok store.policy := rfl
  have hpath : Confine.repoPath "/srv/repos" (.sanitize "x") =
      .ok ⟨[.root, .normal "srv", .normal "repos", .normal "x.git"]⟩ := rfl
  obtain ⟨hfirst, hsecond, hseen⟩ := @denied_read_hides_absence_iff "/srv/repos"
    { anonymous := .noAccess } {} (shelf [markedRepository]) (shelf []) store store ["x"] [] s
    .uploadPack (.sanitize "x") _ (ends_openAt_marked hpolicy) (ends_openAt_empty hpolicy) rfl
    (by decide) hpath (by decide) isDir_empty (by decide)
  have h₁ := (hfirst _).2 rfl
  have h₂ := (hsecond _).2 rfl
  exact ⟨_, _, h₁, h₂, (hseen _ _ h₁ h₂).2 fun hread ↦ absurd hread (by decide)⟩

/-- Where the settings let everybody read, an anonymous client is denied a private repository in
other words than one that is not there. -/
theorem private_mark_reveals_repository :
    let store : Store := ⟨"/srv/repos", ⟨.readOnly, true, [], [], []⟩⟩
    let session := Chain.run [Stage.transport "/srv/repos"]
    let s : Session := { command := ["git-upload-pack", "x"] }
    Ends (Showing (shelf [markedRepository]) []) (Store.openAt "/srv/repos" {})
        (.ok (store, ["x"])) ∧
      Ends (Showing (shelf []) []) (Store.openAt "/srv/repos" {}) (.ok (store, [])) ∧
      store.policy.level ["x"] (.sanitize "x") none = .noAccess ∧
      ∃ r₁ r₂, Ends (Showing (shelf [markedRepository]) ["x"]) (carryOut ⟨store, {}⟩ session s) r₁ ∧
        Ends (Showing (shelf []) []) (carryOut ⟨store, {}⟩ session s) r₂ ∧
        r₁.2.seen ≠ r₂.2.seen := by
  intro store session s
  have hpolicy : Policy.ofSettings {} = .ok store.policy := rfl
  have hpath : Confine.repoPath "/srv/repos" (.sanitize "x") =
      .ok ⟨[.root, .normal "srv", .normal "repos", .normal "x.git"]⟩ := rfl
  have hbare : Store.isBare (shelf []) "/srv/repos/x.git" = false := by
    rw [Store.isBare, isDir_empty, Bool.false_and]
  have hwords : Git.Request.ofWords s.command = .pack .uploadPack (.sanitize "x") := rfl
  have h₁ : Ends (Showing (shelf [markedRepository]) ["x"]) (carryOut ⟨store, {}⟩ session s)
      (.ok (), s.fatal .notAuthorized) :=
    (ends_session_of_error (ends_dispatch_of_denied hwords hpath (by decide) (by decide)) _).2 rfl
  have h₂ : Ends (Showing (shelf []) []) (carryOut ⟨store, {}⟩ session s)
      (.ok (), s.fatal .invalidRepository) :=
    (ends_session_of_error
      (ends_dispatch_of_absent hwords hpath (by decide) (by decide) hbare (by decide)) _).2 rfl
  refine ⟨ends_openAt_marked hpolicy, ends_openAt_empty hpolicy, rfl, _, _, h₁, h₂, ?_⟩
  rw [ne_eq, Session.seen_fatal_eq_iff]
  decide

end Backing

end GitGateway
