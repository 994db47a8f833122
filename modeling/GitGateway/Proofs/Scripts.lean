import GitGateway.Proofs.Listings
import GitGateway.Proofs.Machines
import GitGateway.Scripted.Host

/-!
# The scripted host as a machine

A host whose git program follows a script is a lawful machine (`isLawful_machine`): the program
makes a directory at the path it is given, if the one above is there, and a file `HEAD` in it.
-/

namespace GitGateway

open Disk Path

namespace Disk

variable {d d' : Disk}

/-- Where the directory above a path is there, at most the directory at the path is made. -/
theorem makeDirAll_of_parent {p : String} (hsound : d.IsSound) (htrim : trimSlashes p = p)
    (habove : ∀ above, parent? p = some above →
      above = "" ∨ trimSlashes above = above ∧ d.isDir above = true)
    (h : d.makeDirAll p = .ok d') : d' = d ∨ ∃ place, d.LeadsTo false p place ∧
      d'.IsDirAt place ∧ Grows (fun other k ↦ other = place ∧ k = .dir true) d d' := by
  rw [makeDirAll, makeDirs] at h
  split at h
  · cases h
    exact .inl rfl
  split at h
  · next hmake =>
    cases h
    obtain ⟨place, hleads, -, hdir, hgrows⟩ := makeDir_eq_ok hsound hmake
    rw [htrim] at hleads
    exact .inr ⟨place, hleads, hdir, hgrows⟩
  · next hmake =>
    split at h
    · cases h
    next above hparent =>
    split at h
    · cases h
    next d₁ hdirs =>
    obtain rfl : d₁ = d := by
      rcases habove above hparent with rfl | ⟨htrim', hisDir⟩
      · generalize p.length = fuel at hdirs
        cases fuel with
        | zero => cases hdirs
        | succ fuel =>
          cases hdirs
          rfl
      · obtain ⟨place, hleads, hdir⟩ := (isDir_iff hsound).1 hisDir
        exact makeDirs_eq_self hsound hleads.reaches hdir htrim' hdirs
    rw [hmake] at h
    split at h
    · next hok => cases hok
    · split at h
      · cases h
        exact .inl rfl
      · cases h
  · split at h
    · cases h
      exact .inl rfl
    · cases h

end Disk

namespace Scripted

open Machine

/-- The scripted host as a machine. -/
def machine : Machine Host where
  answer := Host.answer
  disk := Host.disk
  marks := Host.marks
  restart marks h := { h with marks }

theorem openStore_machine (root : String) (settings : AccessSettings) (h : Host) :
    machine.openStore root settings h = h.openStore root settings := by
  have hrun : machine.run (Store.openAt root settings) h =
      h.run (Store.openAt root settings) := rfl
  rw [Machine.openStore, Host.openStore, hrun]
  rcases h.run (Store.openAt root settings) with ⟨_ | ⟨store, marks⟩, h'⟩ <;> rfl

/-- A change of the disk is made or refused as the disk says. -/
theorem makes_change {h h' : Host} {change : Except OsError Disk} {r : Except OsError Unit}
    (hchange : h.change change = (r, h')) : machine.Makes change h r h' := by
  cases change with
  | ok d =>
    cases hchange
    exact ⟨rfl, rfl, rfl⟩
  | error e =>
    cases hchange
    exact ⟨rfl, rfl, rfl⟩

/-- A repository is made at its path only. -/
theorem grows_makeRepository {d d' : Disk} {root raw : String} {path : RepoPath}
    (hsound : d.IsSound) (hpath : Confine.repoPath root (RepoName.sanitize raw) = .ok path)
    (hparent : ∀ above, parent? path.text = some above → above = "" ∨ d.isDir above = true)
    (h : Run.makeRepository d path.text = .ok d') : Grows (Store.InitAdds d' path.text) d d' := by
  obtain ⟨cs, name, hcs, hname, hcomponents⟩ := Confine.exists_concat hpath
  have htrim : trimSlashes path.text = path.text := by
    rw [RepoPath.text, hcomponents]
    exact trimSlashes_render (hcs.concat hname)
  have habove : ∀ above, parent? path.text = some above →
      above = "" ∨ trimSlashes above = above ∧ d.isDir above = true := by
    intro above hsome
    refine (hparent above hsome).imp_right fun hdir ↦ ⟨?_, hdir⟩
    rw [RepoPath.text, hcomponents, hcs.parent?_concat hname] at hsome
    cases hsome
    exact trimSlashes_render hcs
  unfold Run.makeRepository at h
  cases hmade : d.makeDirAll path.text with
  | error e =>
    rw [hmade] at h
    cases h
  | ok d₁ =>
    rw [hmade] at h
    have hdirs := makeDirAll_of_parent hsound htrim habove hmade
    have hsound₁ := hsound.grows (makeDirAll_grows hsound hmade)
    obtain ⟨place, hleads, -, hgrows⟩ := writeFile_eq_ok hsound₁ h
    have hhead : Grows (Store.InitAdds d' path.text) d₁ d' :=
      hgrows.mono fun other k hadds ↦ .inr ⟨hadds.2, hadds.1 ▸ hleads.grows hgrows⟩
    rcases hdirs with rfl | ⟨target, hleads', hdir, hgrows'⟩
    · exact hhead
    · refine .trans (hgrows'.mono fun other k hadds ↦ .inl ⟨target, ?_, ?_, .inl hadds.2⟩) hhead
      · -- the directory at the path is not left by what is written into it
        have hafter := (hleads'.grows hgrows').grows hhead
        refine ⟨hafter.nul_notMem, hafter.ne_empty, hafter.size_lt, hafter.reaches.last_true ?_⟩
        obtain ⟨r, hr⟩ := hhead.isDirAt hdir
        rw [hr]
        rintro link ⟨⟩
      · exact hadds.1 ▸ List.prefix_rfl

/-- **The scripted host is lawful.** -/
theorem isLawful_machine : machine.IsLawful where
  emit h := by
    cases h
    exact ⟨rfl, rfl⟩
  disk h := by
    cases h
    exact ⟨rfl, rfl, rfl⟩
  marks h := by
    cases h
    exact ⟨rfl, rfl, rfl⟩
  lock h := by
    cases h
    exact ⟨rfl, rfl⟩
  unlock h := by
    cases h
    exact ⟨rfl, rfl⟩
  mark h := by
    cases h
    exact ⟨rfl, rfl⟩
  restart names x := ⟨rfl, rfl⟩
  makeDirAll h := makes_change h
  touch h := makes_change h
  runGit {root raw path r h h'} hrun hsound hpath hparent := by
    replace hrun : h.runGit (Store.initCall path.text) = (r, h') := hrun
    rw [Host.runGit] at hrun
    split at hrun
    · cases hrun
      exact ⟨rfl, .refl _⟩
    · next git hfind =>
      cases hrun
      refine ⟨rfl, ?_⟩
      change Grows (Store.InitAdds (git.init.runInit h.disk path.text).2 path.text) h.disk
        (git.init.runInit h.disk path.text).2
      rw [Run.runInit]
      split
      · split
        · next hmade => exact grows_makeRepository hsound hpath hparent hmade
        · exact .refl _
      · exact .refl _
  exchange h htarget := by
    cases h
    exact ⟨rfl, .refl _ _ _⟩

/-! ## A host to begin with -/

namespace Host

/-- A host with an empty directory `/srv/repos`. -/
def fresh : Host where
  disk := { top := .dir true [(.text "srv", .dir true [(.text "repos", .dir true [])])] }

/-- The place of that directory. -/
def shelfPlace : List FileName := ["srv", "repos"].map .text

theorem kindAt_fresh {rest : List FileName} (h : rest ≠ []) :
    fresh.disk.kindAt (shelfPlace ++ rest) = none := by
  cases rest with
  | nil => exact absurd rfl h
  | cons name rest => rfl

theorem isGround_fresh : fresh.disk.IsGround "/srv/repos" shelfPlace := by
  refine isGround_of_isAbsolute (by decide) (by decide) (by decide +kernel) ⟨true, rfl⟩ ?_ ⟨true, rfl⟩
    (by decide)
  intro rest target h
  by_cases hrest : rest = []
  · rw [hrest] at h
    cases h
  · cases (kindAt_fresh hrest).symm.trans h

theorem leadsTo_fresh : fresh.disk.LeadsTo true "/srv/repos" shelfPlace where
  nul_notMem := by decide
  ne_empty := by decide
  size_lt := by decide +kernel
  reaches := by
    have hsteps : steps "/srv/repos" = shelfPlace.map .down := by decide
    have hdir : fresh.disk.IsDirAt shelfPlace := ⟨true, rfl⟩
    have hsize : ∀ n ∈ shelfPlace, n.size ≤ maxName := by decide +kernel
    rw [hsteps]
    exact @reaches_of_isDirAt fresh.disk true maxLinks [] _ hdir hsize

/-- A store at that directory, of a configuration without access settings. -/
def freshStore : Store := ⟨"/srv/repos", ⟨.readOnly, true, [], [], []⟩⟩

/-- A store at the empty directory can be opened, and has no marks. -/
theorem openStore_fresh : machine.openStore "/srv/repos" {} fresh = (.ok freshStore, fresh) := by
  have hat : fresh.disk.top.at? shelfPlace = some (.dir true []) := rfl
  have hlisting : Listing.ofDisk fresh.disk "/srv/repos" = {} := by
    rw [Listing.ofDisk, Listing.find_eq isGround_fresh.sound leadsTo_fresh hat, Listing.ofEntries]
    simp
  have hlist : machine.run (Store.listing "/srv/repos") fresh = ([], fresh) := by
    change machine.run (Store.report (Listing.ofDisk fresh.disk "/srv/repos").events >>= fun _ ↦
      pure (Listing.ofDisk fresh.disk "/srv/repos").names) fresh = _
    rw [hlisting]
    rfl
  have hscan : machine.run (Store.scan "/srv/repos") fresh = ([], fresh) :=
    run_bind_iff.2 ⟨_, _, hlist, rfl⟩
  have hopen : machine.run (Store.openAt "/srv/repos" {}) fresh =
      (.ok (freshStore, []), fresh) :=
    run_bind_iff.2 ⟨_, _, hscan, rfl⟩
  rw [Machine.openStore, hopen]
  rfl

end Host

end Scripted

end GitGateway
