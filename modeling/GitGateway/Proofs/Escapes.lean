import GitGateway.Proofs.Causes
import GitGateway.Proofs.Outputs
import GitGateway.Proofs.Resolutions

/-!
# Arguments that escape

An argument **escapes** a root if, seen from the root, it leads to a path that is neither the root
nor below it.  Confinement never sees the argument, only the directory of its name, and there a
`.git` is glued to the last segment.  Behind a name that is harmless: a path that lies below the
root lies there also without its last name.  Behind a step up it makes a name of that step.  So an
argument that climbs leads one step less far, and of the escaping ones exactly those that resolve to
one step up do not escape any more (`repoPath_of_escapes`, `repoPath_of_one_step_up`).

All other escaping arguments are rejected before anything is asked
(`Dispatch.does_dispatch_escape`), and the client is told so in one packet
(`Chain.does_standard_escape`).
-/

namespace GitGateway

open Handler GitGateway.Path RepoName

namespace Confine

/-- Whether an argument leads, seen from the root, to a path that is neither the root nor below
it. -/
def Escapes (root raw : String) : Prop :=
  ¬ normalize root <+: normalize (join root (RepoName.path raw))

instance (root raw : String) : Decidable (Escapes root raw) :=
  inferInstanceAs (Decidable (¬ _))

variable {root raw : String} {names down : List String} {up : Nat}

theorem escapes_iff (hroot : normalize root = .root :: names.map .normal)
    (hpath : normalize (RepoName.path raw) = walk up down) :
    Escapes root raw ↔ ¬ names <+: names.take (names.length - up) ++ down := by
  rw [Escapes, normalize_join (isAbsolute_path raw), hroot, hpath, List.cons_append,
    resolve_root_walk, List.cons_prefix_cons, List.prefix_map_iff_of_injective normal_injective]
  simp

/-- Only below the root there is something above it to escape to. -/
theorem Escapes.ne_nil (h : Escapes root raw) (hroot : normalize root = .root :: names.map .normal)
    (hpath : normalize (RepoName.path raw) = walk up down) : names ≠ [] := by
  rintro rfl
  exact (escapes_iff hroot hpath).1 h List.nil_prefix

/-- An escaping argument is refused unless it resolves to one step up. -/
theorem repoPath_of_escapes (hroot : isAbsolute root = true) (h : Escapes root raw)
    (hraw : segments raw ≠ [".."]) :
    repoPath root (sanitize raw) = .error ⟨root, (sanitize raw).dirName⟩ := by
  cases hpath : repoPath root (sanitize raw) with
  | error e => rw [ensureWithin_error hpath]
  | ok p =>
    obtain ⟨names, hnames, -⟩ := normalize_of_isAbsolute hroot
    obtain ⟨up, down, hwalk, hproper⟩ := normalize_of_not_isAbsolute (isAbsolute_path raw)
    have hsegments := segments_eq_normalize raw
    have hne := h.ne_nil hnames hwalk
    rw [escapes_iff hnames hwalk] at h
    rw [hwalk] at hsegments
    rcases down.eq_nil_or_concat with rfl | ⟨init, last, rfl⟩
    · cases up with
      | zero => simp at h
      | succ up =>
        -- one step less far, the argument is still above the root, unless it was one step only
        obtain ⟨hn, hdown⟩ := dirName_of_climb hsegments
        obtain ⟨-, hbelow, hsame⟩ := (repoPath_ok_iff hnames hn hdown).1 hpath
        have hfront := ((List.prefix_concat_iff).1 hbelow).resolve_left (Ne.symm hsame)
        have hlength := hfront.length_le
        rw [List.length_take] at hlength
        have hpos := List.length_pos_iff.2 hne
        obtain rfl : up = 0 := by omega
        exact absurd hsegments hraw
    · rw [List.concat_eq_append] at h hsegments hproper
      obtain ⟨hn, hdown⟩ := dirName_of_walk hsegments hproper
      obtain ⟨-, hbelow, hsame⟩ := (repoPath_ok_iff hnames hn hdown).1 hpath
      rw [← List.append_assoc] at h hbelow hsame
      have hfront := ((List.prefix_concat_iff).1 hbelow).resolve_left (Ne.symm hsame)
      exact absurd (hfront.trans (List.prefix_append _ _)) h

/-- An argument that resolves to one step up is a name of its own, below every root. -/
theorem repoPath_of_one_step_up (hraw : segments raw = [".."]) (root : String) :
    sanitize raw = ⟨".."⟩ ∧
      repoPath root (sanitize raw) = .ok ⟨normalize root ++ [.normal "...git"]⟩ := by
  have hname : sanitize raw = ⟨".."⟩ := by
    rw [sanitize, hraw]
    decide
  obtain ⟨hn, hdown⟩ := @dirName_of_climb raw 0 hraw
  exact ⟨hname, repoPath_of_directory hn hdown⟩

end Confine

/-! ## What becomes of the request -/

variable {root raw : String} {service : Git.Service} {name : RepoName} {e : PathEscape}
variable {s s' : Session} {t : List Call}

namespace Dispatch

variable {o : Verdict}

/-- A refused path is reported, and nothing else is asked. -/
theorem does_dispatch_escape (hwords : Git.Request.ofWords s.command = .pack service name)
    (hpath : Confine.repoPath root name = .error e) :
    Does (dispatch root) s t o s' ↔
      t = [⟨.emit e.event, ()⟩] ∧ o = .ok (.error (.pathEscape e)) ∧ s' = s :=
  (does_dispatch_of_pack hwords).trans (does_request_of_error hpath)

theorem Ensures.ne_pathEscape {o : Except Crash (Except SessionError Unit)} (h : Ensures name t o) :
    o ≠ .ok (.error (.pathEscape e)) := by
  cases h with
  | found | crashed | refused => simp
  | missing h =>
    cases h with
    | created | refused | crashed => simp
    | outrun h => cases h <;> simp

/-- A granted request is not refused as an escape. -/
theorem Carries.ne_pathEscape {path : RepoPath} (h : Carries service name path s t o s') :
    o ≠ .ok (.error (.pathEscape e)) := by
  cases h with
  | fetched _ served | pushed _ _ served =>
    rcases served.result with crash | (_ | _) | ⟨⟩ <;> simp [Except.map, verdict]
  | unprepared _ ht =>
    intro ho
    cases ho
    exact ht.ne_pathEscape rfl
  | crashed => simp

/-- A request for a named path that is not refused begins with a question about the name. -/
theorem asks_of_confined {path : RepoPath} (h : Does (dispatch root) s t o s')
    (hwords : Git.Request.ofWords s.command = .pack service name)
    (hpath : Confine.repoPath root name = .ok path) (hname : name.isEmpty = false) :
    (∃ answer rest, t = ⟨.accessLevel name s.key, answer⟩ :: rest) ∧
      ∀ e, o ≠ .ok (.error (.pathEscape e)) := by
  rcases (does_dispatch_of_confined hwords hpath hname).1 h with ⟨crash, rfl, rfl, -⟩ |
    ⟨level, t', rfl, ⟨-, rfl, rfl, -⟩ | ⟨-, hcarries⟩⟩
  · exact ⟨⟨_, _, rfl⟩, by simp⟩
  · exact ⟨⟨_, _, rfl⟩, by simp⟩
  · exact ⟨⟨_, _, rfl⟩, fun e ↦ hcarries.ne_pathEscape⟩

end Dispatch

/-! ## What the client is told -/

/-- The session behind a refused path: one packet with the general message, and a failure. -/
theorem Session.fatal_pathEscape (hs : s.isTerminated = false) : s.fatal (.pathEscape e) =
    { s with
      exitStatus := some 1
      stdout := (s.stdout.receive (Git.PktLine.encodeError "something went wrong")).shutdown.2
      stderr := s.stderr.shutdown.2 } :=
  @Session.make_of_ends s (.fatal (.pathEscape e)) hs rfl

/-- The transport reports a refused path, and ends the session with the general message. -/
theorem Stage.transport_escape (hpath : Confine.repoPath root name = .error e) :
    ∃ work, transport root = .before work ∧ ∀ s t o s',
      Git.Request.ofWords s.command = .pack service name → Does work s t o s' →
      t = [⟨.emit e.event, ()⟩, ⟨.emit (failureEvent s (.pathEscape e)), ()⟩] ∧ o = .ok () ∧
        s' = s.fatal (.pathEscape e) := by
  refine ⟨_, rfl, fun s t o s' hwords h ↦ ?_⟩
  rcases does_bind_iff.1 h with ⟨crash, hdispatch, -⟩ | ⟨t₁, v, s₁, t₂, rfl, hdispatch, hrest⟩
  · cases ((Dispatch.does_dispatch_escape hwords hpath).1 hdispatch).2.1
  · obtain ⟨rfl, hv, rfl⟩ := (Dispatch.does_dispatch_escape hwords hpath).1 hdispatch
    cases hv
    obtain ⟨t₃, rfl, hfatal⟩ := does_emit_bind_iff.1 (does_get_bind_iff.1 hrest)
    obtain ⟨rfl, hend⟩ := Program.runs_done_iff.1 hfatal
    cases hend
    exact ⟨rfl, rfl, rfl⟩

/-- The only outcome that a handler's runs can have is one that it has. -/
theorem Handler.does_iff_of_forall {α : Type} {h : Handler α} {t₀ : List Call} {o₀ : Except Crash α}
    {s₀ : Session} (hall : ∀ t o s', Does h s t o s' → t = t₀ ∧ o = o₀ ∧ s' = s₀)
    {o : Except Crash α} : Does h s t o s' ↔ t = t₀ ∧ o = o₀ ∧ s' = s₀ := by
  refine ⟨hall t o s', ?_⟩
  rintro ⟨rfl, rfl, rfl⟩
  obtain ⟨t, ⟨o, s'⟩, hruns⟩ := Program.exists_runs Ask.nonempty_answer (h.run.run s)
  obtain ⟨rfl, rfl, rfl⟩ := hall t o s' hruns
  exact hruns

namespace Chain

/-- The standard chain reports a refused path and the end of the session, and asks nothing. -/
theorem does_standard_escape {config : Config} {o : Except Crash Unit} (hs : s.isTerminated = false)
    (hwords : Git.Request.ofWords s.command = .pack service name)
    (hpath : Confine.repoPath config.reposPath name = .error e) :
    Does (run (standard config)) s t o s' ↔
      t = [⟨.emit e.event, ()⟩, ⟨.emit (Stage.failureEvent s (.pathEscape e)), ()⟩,
        ⟨.emit (Stage.finishedEvent (s.fatal (.pathEscape e))), ()⟩] ∧ o = .ok () ∧
        s' = s.fatal (.pathEscape e) := by
  apply does_iff_of_forall
  intro t o s' h
  obtain ⟨turns, hcourse⟩ := does_run_iff.1 h
  obtain ⟨t₁, t₂, o₁, s₁, _, rfl, hinner, rfl, hend⟩ :=
    hcourse.of_git hs (by rw [hwords]; exact Git.Request.noConfusion)
  obtain ⟨work, htransport, hwork⟩ := Stage.transport_escape hpath
  rw [htransport] at hinner
  rcases hinner.before hs with ⟨crash, rfl, hdoes⟩ | ⟨t₃, t₄, s₂, _, rfl, hdoes, hlog, -⟩
  · cases (hwork _ _ _ _ hwords hdoes).2.1
  · obtain ⟨rfl, -, rfl⟩ := hwork _ _ _ _ hwords hdoes
    obtain ⟨rfl, rfl, rfl, -⟩ := hlog.accessLog
    rcases hend with ⟨-, rfl, rfl⟩ | ⟨crash, hcrash, -⟩
    · exact ⟨rfl, rfl, rfl⟩
    · cases hcrash

end Chain

namespace Confine

/-- **Escapes are refused, but for one.**  Below an absolute root, take a git request for an
argument that escapes, whatever is answered to the session.  If the argument does not resolve to
exactly one step up, the dispatch reports the escape, asks nothing, and refuses the path; through
the standard chain the client gets one packet with the general message and the exit status 1.  An
argument that does resolve to one step up stands for a directory right below the root: the dispatch
begins by asking the policy about `..`, and never refuses the path. -/
theorem escape_refused_unless_one_step_up (hroot : isAbsolute root = true) (h : Escapes root raw)
    {rest : List String} (hcommand : s.command = service.program :: raw :: rest) :
    let escape : PathEscape := ⟨root, (sanitize raw).dirName⟩
    (segments raw ≠ [".."] →
      (∀ t o s', Does (dispatch root) s t o s' ↔
        t = [⟨.emit escape.event, ()⟩] ∧ o = .ok (.error (.pathEscape escape)) ∧ s' = s) ∧
      ∀ config, config.reposPath = root → s.isTerminated = false → ∀ t o s',
        let finished := { s with
          exitStatus := some 1
          stdout := (s.stdout.receive (Git.PktLine.encodeError "something went wrong")).shutdown.2
          stderr := s.stderr.shutdown.2 }
        Does (Chain.run (Chain.standard config)) s t o s' ↔
          t = [⟨.emit escape.event, ()⟩, ⟨.emit (Stage.failureEvent s (.pathEscape escape)), ()⟩,
            ⟨.emit (Stage.finishedEvent finished), ()⟩] ∧ o = .ok () ∧ s' = finished) ∧
    (segments raw = [".."] →
      repoPath root (sanitize raw) = .ok ⟨normalize root ++ [.normal "...git"]⟩ ∧
      ∀ t o s', Does (dispatch root) s t o s' →
        (∃ answer after, t = ⟨.accessLevel ⟨".."⟩ s.key, answer⟩ :: after) ∧
          ∀ e, o ≠ .ok (.error (.pathEscape e))) := by
  intro escape
  have hwords : Git.Request.ofWords s.command = .pack service (sanitize raw) := by
    rw [hcommand]
    exact Git.Request.ofWords_program service raw rest
  constructor
  · intro hraw
    have hpath := repoPath_of_escapes hroot h hraw
    refine ⟨fun t o s' ↦ Dispatch.does_dispatch_escape hwords hpath, ?_⟩
    rintro config rfl hs t o s'
    rw [Chain.does_standard_escape hs hwords hpath, Session.fatal_pathEscape hs]
  · intro hraw
    obtain ⟨hname, hpath⟩ := repoPath_of_one_step_up hraw root
    refine ⟨hpath, fun t o s' hdoes ↦ ?_⟩
    rw [hname] at hwords hpath
    exact Dispatch.asks_of_confined hdoes hwords hpath (by decide)

/-- A request that climbs out of the root and on to another directory is refused. -/
theorem climb_to_other_directory_refused :
    let s : Session := { command := ["git-upload-pack", "x/../../etc"] }
    Escapes "/srv/repos" "x/../../etc" ∧ ∀ t o s',
      Does (dispatch "/srv/repos") s t o s' ↔
        t = [⟨.emit (PathEscape.event ⟨"/srv/repos", "../etc.git"⟩), ()⟩] ∧
          o = .ok (.error (.pathEscape ⟨"/srv/repos", "../etc.git"⟩)) ∧ s' = s := by
  have hescapes : Escapes "/srv/repos" "x/../../etc" := by decide
  have hboth := @escape_refused_unless_one_step_up "/srv/repos" "x/../../etc" .uploadPack
    { command := ["git-upload-pack", "x/../../etc"] } rfl hescapes [] rfl
  exact ⟨hescapes, (hboth.1 (by decide)).1⟩

/-- The policy is asked about a request for the directory above the root, which is then refused only
because the policy says so. -/
theorem one_step_up_reaches_policy :
    let s : Session := { command := ["git-upload-pack", ".."] }
    Escapes "/srv/repos" ".." ∧
      Does (dispatch "/srv/repos") s [⟨.accessLevel ⟨".."⟩ none, .ok .noAccess⟩]
        (.ok (.error .notAuthorized)) s := by
  intro s
  have hwords : Git.Request.ofWords s.command = .pack .uploadPack ⟨".."⟩ := rfl
  have hpath : repoPath "/srv/repos" ⟨".."⟩ =
      .ok ⟨[.root, .normal "srv", .normal "repos", .normal "...git"]⟩ := rfl
  exact ⟨by decide, Dispatch.does_dispatch_iff.2 (.denied hwords hpath rfl (by decide))⟩

end Confine

end GitGateway
